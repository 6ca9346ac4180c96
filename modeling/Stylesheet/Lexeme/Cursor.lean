import Stylesheet.Lexeme.Scan

/-! A cursor over the outcomes of a source. It draws outcomes one by one, on
demand, and keeps lexemes it looked ahead at until they are taken. An error is met
once, by the step that draws it; lexemes drawn before it stay. -/
namespace Stylesheet

/-- A reader of lexemes: those looked ahead at, the outcomes not drawn yet, the
index that scanning has reached and the length of the source. -/
structure Cursor where
  ahead : List Lexeme
  pending : List Outcome
  index : Nat
  length : Nat

namespace Cursor

def ofSource (source : Text) : Cursor := ⟨[], Outcome.scan source, 0, source.length⟩

/-- How many lexemes and outcomes are left. -/
def size (c : Cursor) : Nat := c.ahead.length + c.pending.length

/-- Everything left to read. -/
def stream (c : Cursor) : List (Except Failure Lexeme) := c.ahead.map .ok ++ c.pending.map Outcome.lexeme

theorem stream_length (c : Cursor) : c.stream.length = c.size := by
  rw [stream, List.length_append, List.length_map, List.length_map, size]

theorem stream_eq_nil {c : Cursor} : c.stream = [] ↔ c.ahead = [] ∧ c.pending = [] := by simp [stream]

/-- A step of reading: what it gives and the cursor behind it, after an error too. -/
abbrev Step (α : Type) := Cursor → Except Failure α × Cursor

/-- Draws the next outcome, none at the end of the source. -/
def draw : Step (Option Lexeme) := fun c =>
  match c.pending with
  | [] => (.ok none, { c with index := c.length })
  | o :: pending => (o.lexeme.map some, { c with pending, index := o.stop })

/-- Takes the next lexeme. -/
def next : Step (Option Lexeme) := fun c =>
  match c.ahead with
  | l :: ahead => (.ok (some l), { c with ahead })
  | [] => c.draw

/-- The lexeme `n` places ahead, which stays. Zero places ahead is the newest
lexeme looked at so far. -/
def peek (n : Nat) (c : Cursor) : Except Failure (Option Lexeme) × Cursor :=
  if n ≤ c.ahead.length then
    match n with
    | 0 =>
      match c.ahead.getLast? with
      | some l => (.ok (some l), c)
      | none => (.error .emptyLookahead, c)
    | k + 1 => (.ok c.ahead[k]?, c)
  else
    match c.draw with
    | (.ok (some l), c') => peek n { c' with ahead := c.ahead ++ [l] }
    | (.ok none, c') => (.ok none, c')
    | (.error failure, c') => (.error failure, c')
termination_by n - c.ahead.length
decreasing_by simp; omega

/-- The lexeme looked at so many places before the newest one. -/
def recent (back : Nat) : Step (Option Lexeme) := fun c =>
  match c.ahead.reverse[back]? with
  | some l => (.ok (some l), c)
  | none => (.error .emptyLookahead, c)

def atEnd : Step Bool := fun c =>
  let (result, c) := c.peek 1
  (result.map Option.isNone, c)

/-- The lexemes of outcomes up to the first error, and what is behind it. -/
def takeAll (length : Nat) : List Outcome → Except Failure (List Lexeme) × List Outcome × Nat
  | [] => (.ok [], [], length)
  | o :: pending =>
    match o.lexeme with
    | .error failure => (.error failure, pending, o.stop)
    | .ok l =>
      let (result, rest) := takeAll length pending
      (result.map (l :: ·), rest)

/-- Takes all lexemes that are left. -/
def drain : Step (List Lexeme) := fun c =>
  let (result, pending, index) := takeAll c.length c.pending
  (result.map (c.ahead ++ ·), { c with ahead := [], pending, index })

end Cursor

/-- The operator of a lexeme that ends a selector or a declaration. -/
def Lexeme.boundary? (l : Lexeme) : Option Operator :=
  match l.token with
  | .operator op => if op = .leftBrace ∨ op = .semicolon ∨ op = .rightBrace then some op else none
  | _ => none

namespace Cursor

/-- The first boundary outside parentheses, or else the nesting depth behind the
lexemes. -/
def findBoundary : Nat → List Lexeme → Operator ⊕ Nat
  | depth, [] => .inr depth
  | depth, l :: rest =>
    match depth, l.boundary? with
    | 0, some op => .inl op
    | _, _ => findBoundary (l.depthAfter depth) rest

/-- Looks ahead for the first boundary outside parentheses, behind lexemes that
leave the nesting at `depth`. -/
def drawBoundary (depth : Nat) (c : Cursor) : Except Failure (Option Operator) × Cursor :=
  match _ : c.pending with
  | [] => (.ok none, { c with index := c.length })
  | o :: pending =>
    match o.lexeme with
    | .error failure => (.error failure, { c with pending, index := o.stop })
    | .ok l =>
      let c' := { c with ahead := c.ahead ++ [l], pending, index := o.stop }
      match findBoundary depth [l] with
      | .inl op => (.ok (some op), c')
      | .inr depth => drawBoundary depth c'
termination_by c.pending.length
decreasing_by simp [*]

/-- The first brace or semicolon ahead outside parentheses. It and all before it
stay. -/
def boundary : Step (Option Operator) := fun c =>
  match findBoundary 0 c.ahead with
  | .inl op => (.ok (some op), c)
  | .inr depth => c.drawBoundary depth

/-- Taking a lexeme, and an error too, leaves less behind. -/
theorem next_size_lt {c c' : Cursor} {result : Except Failure (Option Lexeme)}
    (h : c.next = (result, c')) (notEnd : result ≠ .ok none) : c'.size < c.size := by
  unfold next at h
  split at h
  · next ahead =>
    obtain ⟨-, rfl⟩ := Prod.mk.inj h
    simp [size, ahead]
  · next ahead =>
    unfold draw at h
    split at h
    · obtain ⟨rfl, -⟩ := Prod.mk.inj h
      exact absurd rfl notEnd
    · next pending =>
      obtain ⟨-, rfl⟩ := Prod.mk.inj h
      simp [size, pending]

/-- Takes lexemes up to the parenthesis that closes the group they stand in, which
is taken too. None if the source ends before it. -/
def group (depth : Nat) (c : Cursor) : Except Failure (Option (List Lexeme)) × Cursor :=
  match _ : c.next with
  | (.error failure, c') => (.error failure, c')
  | (.ok none, c') => (.ok none, c')
  | (.ok (some l), c') =>
    if depth = 0 ∧ l.isOp .rightParen then (.ok (some []), c')
    else
      let (result, c'') := group (l.depthAfter depth) c'
      (result.map (·.map (l :: ·)), c'')
termination_by c.size
decreasing_by exact next_size_lt ‹_› (by simp)

/-- The lexemes `taken` lead from one cursor to another, which reads the same source. -/
structure Passes (c : Cursor) (taken : List Lexeme) (c' : Cursor) : Prop where
  stream : c.stream = taken.map .ok ++ c'.stream
  length : c'.length = c.length

theorem Passes.refl (c : Cursor) : c.Passes [] c := ⟨rfl, rfl⟩

theorem Passes.trans {c₁ c₂ c₃ : Cursor} {taken more : List Lexeme} (first : c₁.Passes taken c₂)
    (second : c₂.Passes more c₃) : c₁.Passes (taken ++ more) c₃ := by
  constructor
  · rw [first.stream, second.stream, List.map_append, List.append_assoc]
  · rw [second.length, first.length]

/-- What is read behind lexemes that have been taken. -/
theorem Passes.read {c c' : Cursor} {taken more : List Lexeme} {rest : List (Except Failure Lexeme)}
    (passes : c.Passes taken c') (stream : c'.stream = more.map .ok ++ rest) :
    c.stream = (taken ++ more).map .ok ++ rest := by
  rw [passes.stream, stream, List.map_append, List.append_assoc]

/-- Lexemes in view may be taken. -/
theorem passes_view {c : Cursor} {taken ahead : List Lexeme} (view : c.ahead = taken ++ ahead) :
    c.Passes taken { c with ahead } := by
  refine ⟨?_, rfl⟩
  rw [stream, stream, view, List.map_append, List.append_assoc]

/-- What a step from a cursor comes to: it has taken lexemes from the front of the stream,
and of its result, these lexemes and the cursor behind them `S` holds; or it has drawn the
error that it fails with. -/
def Yields (c : Cursor) (S : α → List Lexeme → Cursor → Prop) : Except Failure α × Cursor → Prop
  | (.ok a, c') => ∃ taken, c.Passes taken c' ∧ S a taken c'
  | (.error failure, _) =>
    ∃ (read : List Lexeme) (rest : List (Except Failure Lexeme)), c.stream = read.map .ok ++ .error failure :: rest

/-- A lexeme that has been taken may stand before what a step yields. -/
theorem Passes.yields {c c' : Cursor} {taken : List Lexeme} {S T : α → List Lexeme → Cursor → Prop}
    {r : Except Failure α × Cursor} (passes : c.Passes taken c') (yields : c'.Yields S r)
    (longer : ∀ a more c'', S a more c'' → T a (taken ++ more) c'') : c.Yields T r := by
  obtain ⟨result, c''⟩ := r
  cases result with
  | ok a =>
    obtain ⟨more, passes', good⟩ := yields
    exact ⟨taken ++ more, passes.trans passes', longer a more c'' good⟩
  | error failure =>
    obtain ⟨read, rest, stream⟩ := yields
    exact ⟨taken ++ read, rest, passes.read stream⟩

/-- What is in view is taken first. -/
theorem yields_next (c : Cursor) :
    c.Yields (fun found taken _ => taken = found.toList ∧ ∀ l ∈ c.ahead.head?, found = some l) c.next := by
  obtain ⟨ahead, pending, index, length⟩ := c
  cases ahead with
  | cons l ahead => exact ⟨[l], passes_view rfl, rfl, fun l' first => first⟩
  | nil =>
    cases pending with
    | nil => exact ⟨[], ⟨rfl, rfl⟩, rfl, by simp⟩
    | cons o pending =>
      unfold next draw
      dsimp only
      cases read : o.lexeme with
      | ok l => exact ⟨[l], ⟨by simp [stream, read], rfl⟩, rfl, by simp⟩
      | error failure => exact ⟨[], pending.map Outcome.lexeme, by simp [stream, read]⟩

theorem peek_one (c : Cursor) : c.peek 1 =
    match c.ahead, c.pending with
    | l :: _, _ => (.ok (some l), c)
    | [], [] => (.ok none, { c with index := c.length })
    | [], o :: pending =>
      match o.lexeme with
      | .ok l => (.ok (some l), { c with ahead := [l], pending, index := o.stop })
      | .error failure => (.error failure, { c with pending, index := o.stop }) := by
  obtain ⟨ahead, pending, index, length⟩ := c
  cases ahead with
  | cons l ahead =>
    rw [peek]
    simp
  | nil =>
    rw [peek]
    cases pending with
    | nil => simp [draw]
    | cons o pending =>
      cases result : o.lexeme with
      | ok l =>
        have again : peek 1 ⟨[l], pending, o.stop, length⟩ = (.ok (some l), ⟨[l], pending, o.stop, length⟩) := by
          rw [peek]
          simp
        simp [draw, result, Except.map, again]
      | error failure => simp [draw, result, Except.map]

/-- Looking one place ahead brings what is seen into view. Nothing is seen only where
nothing is left. -/
theorem yields_peek (c : Cursor) :
    c.Yields (fun found taken c' => taken = [] ∧ found = c'.ahead.head? ∧ (found = none → c'.stream = []))
      (c.peek 1) := by
  obtain ⟨ahead, pending, index, length⟩ := c
  rw [peek_one]
  cases ahead with
  | cons l ahead => exact ⟨[], .refl _, rfl, rfl, by simp⟩
  | nil =>
    cases pending with
    | nil => exact ⟨[], ⟨rfl, rfl⟩, rfl, rfl, fun _ => rfl⟩
    | cons o pending =>
      dsimp only
      cases read : o.lexeme with
      | ok l => exact ⟨[], ⟨by simp [stream, read], rfl⟩, rfl, rfl, by simp⟩
      | error failure => exact ⟨[], pending.map Outcome.lexeme, by simp [stream, read]⟩

/-- An outcome that is drawn comes into view behind what is there. -/
theorem passes_draw {c : Cursor} {o : Outcome} {pending : List Outcome} {l : Lexeme}
    (waiting : c.pending = o :: pending) (read : o.lexeme = .ok l) : c.Passes [] { c with ahead := c.ahead ++ [l], pending, index := o.stop } := by
  refine ⟨?_, rfl⟩
  simp [stream, waiting, read]

theorem yields_drawBoundary (depth : Nat) (c : Cursor) :
    c.Yields (fun _ taken c' => taken = [] ∧ c.ahead <+: c'.ahead) (c.drawBoundary depth) := by
  fun_induction drawBoundary depth c with
  | case1 depth c waiting => exact ⟨[], ⟨rfl, rfl⟩, rfl, List.prefix_refl _⟩
  | case2 depth c o pending waiting failure read =>
    exact ⟨c.ahead, pending.map Outcome.lexeme, by rw [stream, waiting, List.map_cons, read]⟩
  | case3 depth c o pending waiting l read c' op found =>
    exact ⟨[], passes_draw waiting read, rfl, List.prefix_append _ _⟩
  | case4 depth c o pending waiting l read c' deeper found ih =>
    refine (passes_draw waiting read).yields ih fun op more c'' good => ⟨good.1, ?_⟩
    exact (List.prefix_append _ _).trans good.2

/-- Looking for a boundary keeps what is in view. -/
theorem yields_boundary (c : Cursor) : c.Yields (fun _ taken c' => taken = [] ∧ c.ahead <+: c'.ahead) c.boundary := by
  unfold boundary
  split
  · exact ⟨[], .refl c, rfl, List.prefix_refl _⟩
  · exact yields_drawBoundary _ c

/-- A group in parentheses is taken with the parenthesis that closes it. -/
theorem yields_group (depth : Nat) (c : Cursor) :
    c.Yields (fun found taken _ => ∀ ls ∈ found, ∃ close, taken = ls ++ [close]) (c.group depth) := by
  have first := yields_next c
  fun_induction group depth c with
  | case1 depth c failure c' next =>
    rw [next] at first
    obtain ⟨read, rest, stream⟩ := first
    exact ⟨read, rest, stream⟩
  | case2 depth c c' next =>
    rw [next] at first
    obtain ⟨taken, passes, -⟩ := first
    exact ⟨taken, passes, by simp⟩
  | case3 depth c l c' next closes =>
    rw [next] at first
    obtain ⟨taken, passes, same, -⟩ := first
    exact ⟨taken, passes, fun ls none => ⟨l, by cases none; exact same⟩⟩
  | case4 depth c l c' next inside result c'' rest ih =>
    rw [next] at first
    obtain ⟨taken, passes, same, -⟩ := first
    have others := ih (yields_next c')
    rw [rest] at others
    cases result with
    | error failure =>
      obtain ⟨read, rest, stream⟩ := others
      exact ⟨taken ++ read, rest, passes.read stream⟩
    | ok found =>
      obtain ⟨more, passes', within⟩ := others
      refine ⟨taken ++ more, passes.trans passes', fun ls member => ?_⟩
      obtain ⟨ls', rfl, rfl⟩ := Option.map_eq_some_iff.mp member
      obtain ⟨close, rfl⟩ := within ls' rfl
      exact ⟨close, by rw [same]; rfl⟩

end Cursor

end Stylesheet

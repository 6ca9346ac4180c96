import Stylesheet.Proofs.Lexeme.Stream

/-! Looking ahead never changes the stream. A cursor draws the outcomes of its source
one by one and in order, whatever is asked of it: a lexeme that is drawn is taken later
or stays in view, and an error that is drawn is met by the step that draws it, once. -/
namespace Stylesheet

def lexemesOf (outcomes : List (Except Failure Lexeme)) : List Lexeme := outcomes.filterMap Except.toOption

def failuresOf (outcomes : List (Except Failure Lexeme)) : List Failure := outcomes.filterMap failure?

namespace Cursor

variable {c c' : Cursor} {l : Lexeme}

/-- What a draw can do: it reports the end, or it gives the first outcome pending. -/
def Drew (c c' : Cursor) : Except Failure (Option Lexeme) → Prop
  | .ok none => c.pending = [] ∧ c'.pending = []
  | .ok (some l) => ∃ o, c.pending = o :: c'.pending ∧ o.lexeme = .ok l
  | .error failure => ∃ o, c.pending = o :: c'.pending ∧ o.lexeme = .error failure

theorem drew_of_draw {result : Except Failure (Option Lexeme)} (step : c.draw = (result, c')) :
    c'.ahead = c.ahead ∧ Drew c c' result := by
  obtain ⟨ahead, pending, index, length⟩ := c
  cases pending with
  | nil =>
    cases step
    exact ⟨rfl, rfl, rfl⟩
  | cons o pending =>
    obtain ⟨rfl, rfl⟩ := Prod.mk.inj step
    refine ⟨rfl, ?_⟩
    cases read : o.lexeme with
    | ok l => exact ⟨o, rfl, read⟩
    | error failure => exact ⟨o, rfl, read⟩

/-- What drawing yields, again and again until it reports the end. -/
def drawAll (c : Cursor) : List (Except Failure Lexeme) :=
  match _ : c.draw with
  | (.ok none, _) => []
  | (.ok (some l), c') => .ok l :: drawAll c'
  | (.error failure, c') => .error failure :: drawAll c'
termination_by c.pending.length
decreasing_by
  all_goals
    obtain ⟨-, o, pending, -⟩ := drew_of_draw ‹_›
    simp [pending]

theorem drawAll_eq (c : Cursor) : c.drawAll = c.pending.map Outcome.lexeme := by
  fun_induction drawAll c with
  | case1 c c' step =>
    obtain ⟨-, nothing, -⟩ := drew_of_draw step
    rw [nothing]
    rfl
  | case2 c l c' step ih =>
    obtain ⟨-, o, pending, read⟩ := drew_of_draw step
    rw [pending, List.map_cons, read, ih]
  | case3 c failure c' step ih =>
    obtain ⟨-, o, pending, read⟩ := drew_of_draw step
    rw [pending, List.map_cons, read, ih]

/-- A step from one cursor to another has drawn outcomes: their lexemes have come into
view, and the step has failed with the error among them, if there is one. -/
def Draws (c : Cursor) (result : Except Failure α) (c' : Cursor) : Prop :=
  ∃ drawn, c.drawAll = drawn ++ c'.drawAll ∧ c'.ahead = c.ahead ++ lexemesOf drawn ∧
    failuresOf drawn = (failure? result).toList

theorem draws_nothing (result : α) (ahead : c'.ahead = c.ahead) (pending : c'.pending = c.pending) :
    c.Draws (.ok result) c' := by
  refine ⟨[], ?_, by rw [ahead]; exact (List.append_nil _).symm, rfl⟩
  rw [drawAll_eq, drawAll_eq, pending]
  rfl

/-- Looking ahead draws as far as it has to, or up to an error. -/
theorem draws_peek {n : Nat} (positive : 0 < n) (c : Cursor) : c.Draws (c.peek n).1 (c.peek n).2 := by
  fun_induction peek n c with
  | case1 => omega
  | case2 => omega
  | case3 => exact draws_nothing _ rfl rfl
  | case4 c short l c' step ih =>
    obtain ⟨ahead, o, pending, read⟩ := drew_of_draw step
    obtain ⟨drawn, stream, view, failures⟩ := ih
    refine ⟨.ok l :: drawn, ?_, ?_, failures⟩
    · rw [drawAll_eq] at stream
      rw [drawAll_eq, pending, List.map_cons, read, stream]
      rfl
    · rw [view, List.append_assoc]
      rfl
  | case5 c short c' step =>
    obtain ⟨ahead, before, behind⟩ := drew_of_draw step
    exact draws_nothing _ ahead (behind.trans before.symm)
  | case6 c short failure c' step =>
    obtain ⟨ahead, o, pending, read⟩ := drew_of_draw step
    refine ⟨[.error failure], ?_, by rw [ahead]; exact (List.append_nil _).symm, rfl⟩
    rw [drawAll_eq, drawAll_eq, pending, List.map_cons, read]
    rfl

theorem stream_eq_drawAll (c : Cursor) : c.stream = c.ahead.map .ok ++ c.drawAll := by rw [stream, drawAll_eq]

theorem map_ok_lexemesOf {outcomes : List (Except Failure Lexeme)} (none : failuresOf outcomes = []) :
    (lexemesOf outcomes).map .ok = outcomes := by
  induction outcomes with
  | nil => rfl
  | cons outcome outcomes ih =>
    cases outcome with
    | ok l => exact congrArg (.ok l :: ·) (ih none)
    | error failure => cases none

/-- Looking ahead without an error leaves the same to be read. -/
theorem Draws.stream_eq {result : α} (draws : c.Draws (.ok result) c') : c'.stream = c.stream := by
  obtain ⟨drawn, stream, view, none⟩ := draws
  rw [stream_eq_drawAll, stream_eq_drawAll, stream, view, List.map_append, map_ok_lexemesOf none,
    List.append_assoc]

/-- A lexeme seen ahead is then in view at its place. -/
theorem view_of_peek {n : Nat} (seen : c.peek (n + 1) = (.ok (some l), c')) : c'.ahead[n]? = some l := by
  generalize places : n + 1 = k at seen
  fun_induction peek k c with
  | case1 => omega
  | case2 => omega
  | case3 c inView k =>
    obtain ⟨found, rfl⟩ := Prod.mk.inj seen
    obtain rfl : n = k := by omega
    exact Except.ok.inj found
  | case4 c short l' c₁ step ih => exact ih seen
  | case5 => cases seen
  | case6 => cases seen

/-- Taking is looking one place ahead and taking what is seen out of view. -/
theorem next_eq (c : Cursor) :
    c.next = ((c.peek 1).1, { (c.peek 1).2 with ahead := (c.peek 1).2.ahead.tail }) ∧
      (c.peek 1).1.toOption.join = (c.peek 1).2.ahead.head? := by
  obtain ⟨ahead, pending, index, length⟩ := c
  rw [peek_one]
  cases ahead with
  | cons l ahead => exact ⟨rfl, rfl⟩
  | nil =>
    cases pending with
    | nil => exact ⟨rfl, rfl⟩
    | cons o pending =>
      dsimp only [next, draw]
      cases o.lexeme with
      | ok l => exact ⟨rfl, rfl⟩
      | error failure => exact ⟨rfl, rfl⟩

def advanced (c : Cursor) : Nat → Cursor
  | 0 => c
  | n + 1 => c.next.2.advanced n

/-- Lexemes that come first are taken one by one. -/
theorem next_advanced {ls : List Lexeme} {rest : List (Except Failure Lexeme)}
    (left : c.stream = ls.map .ok ++ rest) {n : Nat} (found : ls[n]? = some l) :
    (c.advanced n).next.1 = .ok (some l) := by
  induction n generalizing c ls with
  | zero =>
    cases ls with
    | nil => cases found
    | cons l' ls =>
      cases found
      obtain ⟨c', taken, -⟩ := next_of_stream left
      rw [advanced, taken]
  | succ n ih =>
    cases ls with
    | nil => cases found
    | cons l' ls =>
      obtain ⟨c', taken, left⟩ := next_of_stream left
      rw [advanced, taken]
      exact ih left found

end Cursor

/-- What a reader may ask of its cursor: to take a lexeme, to look some places ahead, or
whether the source is at its end. -/
inductive Query where
  | next
  | peek (n : Nat) (positive : 0 < n)
  | atEnd

/-- A reader of lexemes: the lexemes it has taken and the errors it has met, each in the
order of its queries, and its cursor. -/
structure Reader where
  taken : List Lexeme
  met : List Failure
  cursor : Cursor

namespace Reader

def ofSource (source : Text) : Reader := ⟨[], [], Cursor.ofSource source⟩

/-- A query, whose answer is only looked at for lexemes taken and errors. -/
def ask (r : Reader) : Query → Reader
  | .next =>
    let (result, cursor) := r.cursor.next
    ⟨r.taken ++ (result.toOption.join).toList, r.met ++ (failure? result).toList, cursor⟩
  | .peek n _ =>
    let (result, cursor) := r.cursor.peek n
    ⟨r.taken, r.met ++ (failure? result).toList, cursor⟩
  | .atEnd =>
    let (result, cursor) := r.cursor.atEnd
    ⟨r.taken, r.met ++ (failure? result).toList, cursor⟩

/-- One query after another, those that fail included. -/
def askAll (r : Reader) (queries : List Query) : Reader := queries.foldl ask r

/-- The reader has drawn some of the outcomes and no others: the lexemes among them it
has taken or has in view, the errors among them it has met. -/
def Follows (outcomes : List (Except Failure Lexeme)) (r : Reader) : Prop :=
  ∃ drawn, outcomes = drawn ++ r.cursor.drawAll ∧ lexemesOf drawn = r.taken ++ r.cursor.ahead ∧
    failuresOf drawn = r.met

variable {outcomes : List (Except Failure Lexeme)} {r : Reader}

theorem Follows.of_draws {result : Except Failure α} {c : Cursor} (follows : Follows outcomes r)
    (draws : r.cursor.Draws result c) : Follows outcomes ⟨r.taken, r.met ++ (failure? result).toList, c⟩ := by
  obtain ⟨before, stream, lexemes, failures⟩ := follows
  obtain ⟨drawn, more, view, met⟩ := draws
  refine ⟨before ++ drawn, ?_, ?_, ?_⟩
  · rw [stream, more, List.append_assoc]
  · rw [lexemesOf, List.filterMap_append, ← lexemesOf, ← lexemesOf, lexemes, view, List.append_assoc]
  · rw [failuresOf, List.filterMap_append, ← failuresOf, ← failuresOf, failures, met]

/-- What is in view may be taken. -/
theorem Follows.take (follows : Follows outcomes r) :
    Follows outcomes
      ⟨r.taken ++ r.cursor.ahead.head?.toList, r.met, { r.cursor with ahead := r.cursor.ahead.tail }⟩ := by
  obtain ⟨drawn, stream, lexemes, failures⟩ := follows
  refine ⟨drawn, ?_, ?_, failures⟩
  · rw [stream, Cursor.drawAll_eq, Cursor.drawAll_eq]
  · rw [lexemes, List.append_assoc]
    cases r.cursor.ahead <;> rfl

/-- A query keeps to the outcomes. -/
theorem Follows.ask (follows : Follows outcomes r) (query : Query) : Follows outcomes (r.ask query) := by
  cases query with
  | next =>
    obtain ⟨step, first⟩ := r.cursor.next_eq
    have taken := (follows.of_draws (Cursor.draws_peek Nat.one_pos r.cursor)).take
    rw [← first] at taken
    unfold Reader.ask
    rw [step]
    exact taken
  | peek n positive => exact follows.of_draws (Cursor.draws_peek positive r.cursor)
  | atEnd =>
    have seen := follows.of_draws (Cursor.draws_peek Nat.one_pos r.cursor)
    rw [← failure?_map Option.isNone] at seen
    exact seen

theorem follows_ofSource (source : Text) : Follows (Cursor.ofSource source).drawAll (ofSource source) :=
  ⟨[], rfl, rfl, rfl⟩

theorem Follows.askAll (follows : Follows outcomes r) (queries : List Query) :
    Follows outcomes (r.askAll queries) := by
  induction queries generalizing r with
  | nil => exact follows
  | cons query queries ih => exact ih (follows.ask query)

end Reader

/-- Let outcomes be all that drawing from a source yields, up to its end. Whatever is
asked of a reader of that source, failing queries included: the lexemes it has taken,
those in view and those not drawn yet are the lexemes of the outcomes, the errors it has
met and those not drawn yet are the errors, and what it has drawn comes first. A lexeme
that it sees `n` places ahead is the one taken by the `n`-th of the queries for the next
lexeme that follow, none of which fails. -/
theorem lookahead_keeps_stream (source : Text) (queries : List Query) :
    let r := (Reader.ofSource source).askAll queries
    (∃ drawn, (Cursor.ofSource source).drawAll = drawn ++ r.cursor.drawAll ∧
        lexemesOf drawn = r.taken ++ r.cursor.ahead ∧ failuresOf drawn = r.met) ∧
      ∀ n l c, 0 < n → r.cursor.peek n = (.ok (some l), c) → ∀ d, d = r.cursor ∨ d = c →
        (∀ k < n, ∃ m, (d.advanced k).next.1 = .ok (some m)) ∧ (d.advanced (n - 1)).next.1 = .ok (some l) := by
  intro r
  refine ⟨(Reader.follows_ofSource source).askAll queries, ?_⟩
  intro n l c positive seen d either
  obtain ⟨n, rfl⟩ : ∃ k, n = k + 1 := ⟨n - 1, by omega⟩
  have draws := Cursor.draws_peek positive r.cursor
  rw [seen] at draws
  have left : d.stream = c.ahead.map .ok ++ c.drawAll := by
    rw [← c.stream_eq_drawAll]
    rcases either with rfl | rfl
    · exact draws.stream_eq.symm
    · rfl
  have found := Cursor.view_of_peek seen
  refine ⟨fun k below => ?_, Cursor.next_advanced left found⟩
  have inView := (List.getElem?_eq_some_iff.mp found).1
  exact ⟨c.ahead[k], Cursor.next_advanced left (List.getElem?_eq_getElem (by omega))⟩

/-- Looking three places ahead meets the error that stands second, and the lexeme in
front of it stays in view. Once that is taken, the lexeme seen two places ahead is the one
taken second. -/
theorem lookahead_keeps_stream_past_error :
    let r := (Reader.ofSource "a 1.2.3 b c".toList).askAll [.peek 3 (by decide), .atEnd, .next]
    (r.taken = [⟨.ident ['a'], some 0⟩] ∧ r.met.length = 1 ∧
        (r.cursor.peek 2).1.toOption = some (some ⟨.ident ['c'], some 10⟩)) ∧
      (r.cursor.advanced 1).next.1 = .ok (some ⟨.ident ['c'], some 10⟩) := by
  intro r
  have seen : (r.cursor.peek 2).1.toOption = some (some ⟨.ident ['c'], some 10⟩) := by decide +kernel
  refine ⟨⟨by decide +kernel, by decide +kernel, seen⟩, ?_⟩
  have asked := lookahead_keeps_stream "a 1.2.3 b c".toList [.peek 3 (by decide), .atEnd, .next]
  exact (asked.2 2 _ _ (by decide) (Prod.ext (eq_ok_of_toOption seen) rfl) r.cursor (.inl rfl)).2

end Stylesheet

import Stylesheet.Proofs.Selector

/-! A source that stands further back. Behind other text it has the same outcomes, only
their offsets grow; and a cursor on them takes the same steps, gives the same lexemes and
meets the same errors, all with offsets grown by the same amount. -/
namespace Stylesheet

def Failure.shift (k : Nat) : Failure → Failure
  | .error cause offset => .error cause (offset.map (· + (k : Int)))
  | failure => failure

/-- The result further back, where `g` moves what is given. -/
def shifted (k : Nat) (g : α → β) : Except Failure α → Except Failure β
  | .ok a => .ok (g a)
  | .error failure => .error (failure.shift k)

theorem shifted_map {g : α → β} {f : α → α'} {f' : β → β'} {g' : α' → β'} (k : Nat)
    (same : ∀ a, f' (g a) = g' (f a)) (x : Except Failure α) :
    (shifted k g x).map f' = shifted k g' (x.map f) := by
  cases x with
  | ok a => exact congrArg Except.ok (same a)
  | error failure => rfl

namespace Outcome

def shift (k : Nat) (o : Outcome) : Outcome := { o with start := o.start + k, stop := o.stop + k }

theorem lexeme_shift (k : Nat) (o : Outcome) : (o.shift k).lexeme = shifted k (Lexeme.shift k) o.lexeme := by
  obtain ⟨start, result, stop⟩ := o
  cases result <;> rfl

/-- What stands before a text only moves the offsets of its outcomes. -/
theorem scanFrom_shift (k index : Nat) (text : Text) :
    scanFrom (index + k) text = (scanFrom index text).map (shift k) := by
  fun_induction scanFrom index text with
  | case1 index text found => rw [scanFrom_nil found, List.map_nil]
  | case2 index text c rest found start reading stop ih =>
    have start' : index + k + (text.length - (rest.length + 1)) = start + k := by omega
    have stop' : start + k + (rest.length + 1 - reading.2.length) = stop + k := by omega
    rw [scanFrom_cons found, List.map_cons, ← ih, start']
    change _ :: scanFrom (start + k + (rest.length + 1 - reading.2.length)) _ = _
    rw [stop']
    rfl

end Outcome

namespace Lexeme

variable (k : Nat) (l : Lexeme)

@[simp] theorem shift_isOp (op : Operator) : (l.shift k).isOp op = l.isOp op := rfl

@[simp] theorem shift_ident? : (l.shift k).ident? = l.ident? := rfl

@[simp] theorem shift_reference? : (l.shift k).reference? = l.reference? := rfl

end Lexeme

namespace Expression

theorem withoutComments_shift (k : Nat) (ls : List Lexeme) :
    withoutComments (ls.map (Lexeme.shift k)) = (withoutComments ls).map (Lexeme.shift k) := List.filter_map

theorem offset_shift (k : Nat) (e : Expression) :
    offset (e.map (Lexeme.shift k)) = (offset e).map (· + (k : Int)) := by
  cases e <;> rfl

theorem splitFrom_shift (separator : Operator) (k depth : Nat) (ls : List Lexeme) :
    splitFrom separator depth (ls.map (Lexeme.shift k)) =
      (splitFrom separator depth ls).map (List.map (Lexeme.shift k)) := by
  induction ls generalizing depth with
  | nil => rfl
  | cons l ls ih =>
    rw [List.map_cons, splitFrom, splitFrom, ih, ih, Lexeme.shift_depthAfter]
    by_cases here : depth = 0 ∧ !(l.isOp .leftParen || l.isOp .rightParen) ∧ l.isOp separator
    · rw [if_pos here]
      exact if_pos here
    · rw [if_neg here]
      refine (if_neg here).trans ?_
      cases splitFrom separator (l.depthAfter depth) ls <;> rfl

theorem split_shift (separator : Operator) (k : Nat) (e : Expression) :
    split separator (e.map (Lexeme.shift k)) = (split separator e).map (List.map (Lexeme.shift k)) :=
  splitFrom_shift separator k 0 e

end Expression

namespace Cursor

variable {k : Nat}

/-- The cursor `d` is `c` further back. The index that scanning has reached does not
count, as no step depends on it. -/
structure Shifted (k : Nat) (c d : Cursor) : Prop where
  ahead : d.ahead = c.ahead.map (Lexeme.shift k)
  pending : d.pending = c.pending.map (Outcome.shift k)
  length : d.length = c.length + k

/-- A step that does the same further back, where `g` moves what it gives. -/
def Moves (k : Nat) (g : α → α) (f : Step α) : Prop :=
  ∀ c d, Shifted k c d → (f d).1 = shifted k g (f c).1 ∧ Shifted k (f c).2 (f d).2

theorem Moves.step {g : α → α} {f : Step α} {c c' d : Cursor} {result : Except Failure α} (moves : Moves k g f)
    (moved : Shifted k c d) (ran : f c = (result, c')) :
    ∃ d', f d = (shifted k g result, d') ∧ Shifted k c' d' := by
  obtain ⟨same, moved⟩ := moves c d moved
  rw [ran] at same moved
  exact ⟨_, Prod.ext same rfl, moved⟩

theorem shifted_ofSource (k : Nat) (source : Text) {d : Cursor} (ahead : d.ahead = [])
    (pending : d.pending = Outcome.scanFrom k source) (length : d.length = source.length + k) :
    Shifted k (ofSource source) d := by
  have moved := Outcome.scanFrom_shift k 0 source
  rw [Nat.zero_add] at moved
  exact ⟨ahead, pending.trans moved, length⟩

theorem moves_draw : Moves k (Option.map (Lexeme.shift k)) draw := by
  rintro ⟨ahead, pending, index, length⟩ ⟨_, _, index', _⟩ ⟨rfl, rfl, rfl⟩
  cases pending with
  | nil => exact ⟨rfl, rfl, rfl, rfl⟩
  | cons o pending =>
    refine ⟨?_, rfl, rfl, rfl⟩
    change (o.shift k).lexeme.map some = shifted k _ (o.lexeme.map some)
    rw [Outcome.lexeme_shift]
    refine shifted_map k (fun _ => ?_) o.lexeme
    rfl

theorem moves_next : Moves k (Option.map (Lexeme.shift k)) next := by
  rintro ⟨ahead, pending, index, length⟩ d moved
  cases ahead with
  | cons l ahead =>
    obtain ⟨_, _, index', _⟩ := d
    obtain ⟨rfl, rfl, rfl⟩ := moved
    exact ⟨rfl, rfl, rfl, rfl⟩
  | nil =>
    have same : d.next = d.draw := by
      unfold next
      rw [moved.ahead]
      rfl
    rw [same]
    exact moves_draw _ d moved

theorem moves_peek : Moves k (Option.map (Lexeme.shift k)) (peek 1) := by
  rintro ⟨ahead, pending, index, length⟩ ⟨_, _, index', _⟩ ⟨rfl, rfl, rfl⟩
  rw [peek_one, peek_one]
  cases ahead with
  | cons l ahead => exact ⟨rfl, rfl, rfl, rfl⟩
  | nil =>
    cases pending with
    | nil => exact ⟨rfl, rfl, rfl, rfl⟩
    | cons o pending =>
      simp only [List.map_nil, List.map_cons, Outcome.lexeme_shift]
      cases o.lexeme with
      | ok l => exact ⟨rfl, rfl, rfl, rfl⟩
      | error failure => exact ⟨rfl, rfl, rfl, rfl⟩

theorem findBoundary_shift (k depth : Nat) (ls : List Lexeme) :
    findBoundary depth (ls.map (Lexeme.shift k)) = findBoundary depth ls := by
  induction ls generalizing depth with
  | nil => rfl
  | cons l ls ih =>
    rw [List.map_cons, findBoundary.eq_def, findBoundary.eq_def depth (l :: ls)]
    dsimp only
    rw [ih]
    rfl

theorem moves_drawBoundary (depth : Nat) : Moves k id (drawBoundary depth) := by
  rintro ⟨ahead, pending, index, length⟩ ⟨_, _, index', _⟩ ⟨rfl, rfl, rfl⟩
  induction pending generalizing ahead depth index index' with
  | nil =>
    rw [drawBoundary, drawBoundary]
    exact ⟨rfl, rfl, rfl, rfl⟩
  | cons o pending ih =>
    dsimp only
    rw [List.map_cons, drawBoundary_cons, drawBoundary_cons, Outcome.lexeme_shift]
    cases o.lexeme with
    | error failure => exact ⟨rfl, rfl, rfl, rfl⟩
    | ok l =>
      have same := findBoundary_shift k depth [l]
      rw [List.map_singleton] at same
      have view : (ahead ++ [l]).map (Lexeme.shift k) = ahead.map (Lexeme.shift k) ++ [l.shift k] :=
        List.map_append
      simp only [shifted, same, ← view]
      cases findBoundary depth [l] with
      | inl op => exact ⟨rfl, rfl, rfl, rfl⟩
      | inr depth' => exact ih depth' _ _ _

theorem moves_boundary : Moves k id boundary := by
  intro c d moved
  unfold boundary
  rw [moved.ahead, findBoundary_shift]
  cases findBoundary 0 c.ahead with
  | inl op => exact ⟨rfl, moved⟩
  | inr depth => exact moves_drawBoundary depth c d moved

theorem moves_group (depth : Nat) : Moves k (Option.map (List.map (Lexeme.shift k))) (group depth) := by
  intro c d moved
  fun_induction group depth c generalizing d with
  | case1 depth c failure c' taken =>
    obtain ⟨d', taken', moved⟩ := moves_next.step moved taken
    rw [group_eq, taken']
    exact ⟨rfl, moved⟩
  | case2 depth c c' taken =>
    obtain ⟨d', taken', moved⟩ := moves_next.step moved taken
    rw [group_eq, taken']
    exact ⟨rfl, moved⟩
  | case3 depth c l c' taken closes =>
    obtain ⟨d', taken', moved⟩ := moves_next.step moved taken
    rw [group_of_next depth taken', Lexeme.shift_isOp, if_pos closes]
    exact ⟨rfl, moved⟩
  | case4 depth c l c' taken opens inner c'' rest ih =>
    obtain ⟨d', taken', moved⟩ := moves_next.step moved taken
    rw [group_of_next depth taken', Lexeme.shift_isOp, if_neg opens, Lexeme.shift_depthAfter]
    obtain ⟨result, moved⟩ := ih d' moved
    rw [rest] at result moved
    refine ⟨?_, moved⟩
    dsimp only
    rw [result]
    refine shifted_map k (fun found => ?_) inner
    cases found <;> rfl

end Cursor

end Stylesheet

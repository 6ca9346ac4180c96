import Stylesheet.Proofs.Statement.Totality

/-! Where items end. The look-ahead in front of an item finds the first brace or semicolon
outside parentheses, and a declaration that is read ends there. The head of a rule ends at
the first opening brace, in parentheses or not; that is the brace found unless another one
stands in parentheses before it. -/
namespace Stylesheet

namespace Cursor

variable {op : Operator} {depth depth' : Nat} {ls : List Lexeme}

/-- The first boundary outside parentheses among lexemes: what stands before it and behind
it, and that each boundary before it stands in parentheses. -/
structure SplitsAt (ls : List Lexeme) (op : Operator) (before : List Lexeme) (stop : Lexeme) (after : List Lexeme) :
    Prop where
  parts : ls = before ++ stop :: after
  bounds : stop.boundary? = some op
  outside : before.foldl Lexeme.depthAfter 0 = 0
  first : ∀ front l rest, before = front ++ l :: rest → l.boundary? ≠ none → front.foldl Lexeme.depthAfter 0 ≠ 0

theorem parts_of_findBoundary (found : findBoundary depth ls = .inl op) :
    ∃ before stop after, ls = before ++ stop :: after ∧ stop.boundary? = some op ∧
      findBoundary depth before = .inr 0 := by
  fun_induction findBoundary depth ls with
  | case1 => cases found
  | case2 l rest op' bound =>
    cases found
    exact ⟨[], l, rest, rfl, bound, rfl⟩
  | case3 depth l rest inner ih =>
    obtain ⟨before, stop, after, rfl, bounds, inside⟩ := ih found
    refine ⟨l :: before, stop, after, rfl, bounds, ?_⟩
    rw [findBoundary, inside]
    exact inner

theorem depth_of_findBoundary (nothing : findBoundary depth ls = .inr depth') :
    ls.foldl Lexeme.depthAfter depth = depth' ∧
      ∀ front l rest, ls = front ++ l :: rest → l.boundary? ≠ none → front.foldl Lexeme.depthAfter depth ≠ 0 := by
  fun_induction findBoundary depth ls with
  | case1 =>
    cases nothing
    refine ⟨rfl, ?_⟩
    intro front l rest parts
    simp at parts
  | case2 => cases nothing
  | case3 depth l rest inner ih =>
    obtain ⟨behind, first⟩ := ih nothing
    refine ⟨behind, ?_⟩
    intro front l' rest' parts bounds
    cases front with
    | nil =>
      cases parts
      obtain ⟨op, bound⟩ := Option.ne_none_iff_exists'.mp bounds
      exact fun outside => inner op outside bound
    | cons _ front =>
      obtain ⟨rfl, parts'⟩ := List.cons.inj parts
      exact first front l' rest' parts' bounds

end Cursor

namespace Parser

variable {p q r : Parser} {op : Operator} {before after : List Lexeme} {stop l : Lexeme}

/-- What is left in view behind an item that ends at a boundary: a semicolon belongs to the
item, a closing brace does not. -/
def leftBehind (op : Operator) (stop : Lexeme) (after : List Lexeme) : List Lexeme :=
  if op = .semicolon then after else stop :: after

/-- A value ends at the boundary that the look-ahead finds. -/
theorem cutValue_of_boundary {depth : Nat} (inside : Cursor.findBoundary depth before = .inr 0)
    (isEnd : stop.token = .operator op) (ends : op = .semicolon ∨ op = .rightBrace) (after : List Lexeme) :
    cutValue depth (before ++ stop :: after) = some (before, leftBehind op stop after) := by
  fun_induction Cursor.findBoundary depth before with
  | case1 =>
    cases inside
    rcases ends with rfl | rfl <;> simp [cutValue, leftBehind, Lexeme.isOp, isEnd]
  | case2 => cases inside
  | case3 depth l rest inner ih =>
    have within : depth = 0 → l.boundary? = none := fun outside =>
      Option.eq_none_iff_forall_ne_some.mpr fun op => inner op outside
    rw [List.cons_append, cutValue_of_inside within, ih inside]
    rfl

/-- A lexeme that is taken, and is not the one at which the item ends, stands before it. -/
theorem take_before (view : p.cursor.ahead = before ++ stop :: after) (taken : take p = .ok (some l) q)
    (other : l ≠ stop) :
    ∃ rest, before = l :: rest ∧ q.cursor.ahead = rest ++ stop :: after ∧
      ∀ ahead, { q.cursor with ahead } = { p.cursor with ahead } := by
  cases before with
  | nil =>
    obtain ⟨_, taken', -⟩ := take_of_view view
    cases taken.symm.trans taken'
    exact (other rfl).elim
  | cons l' rest =>
    rw [List.cons_append] at view
    obtain ⟨_, taken', cursor, -⟩ := take_of_view view
    cases taken.symm.trans taken'
    exact ⟨rest, rfl, by rw [cursor], fun ahead => by rw [cursor]⟩

/-- A declaration that is read ends at the boundary that the look-ahead finds. -/
theorem declaration_ends {topLevel : Bool} {s : Statement} (inside : Cursor.findBoundary 0 before = .inr 0)
    (isEnd : stop.token = .operator op) (ends : op = .semicolon ∨ op = .rightBrace)
    (view : p.cursor.ahead = before ++ stop :: after) (read : declaration topLevel p = .ok s r) :
    r.cursor = { p.cursor with ahead := leftBehind op stop after } := by
  obtain ⟨p₁, p₂, p₃, l, name, value, cursor, taken, isName, passed, read⟩ := declaration_ok read
  obtain ⟨colon, taken', isColon⟩ := expect_ok passed
  rw [← cursor] at view ⊢
  obtain ⟨rest, rfl, view₂, same⟩ := take_before view taken (by rintro rfl; simp [isName] at isEnd)
  obtain ⟨rest, rfl, view₃, same'⟩ := take_before view₂ taken' (by
    rintro rfl
    rcases ends with rfl | rfl <;> simp [isColon] at isEnd)
  -- The name and the colon open no parentheses, so the value starts outside them too.
  rw [Cursor.findBoundary_cons (by simp [Lexeme.boundary?, Lexeme.depthAfter, Lexeme.isOp, isName]),
    Cursor.findBoundary_cons (by simp [Lexeme.boundary?, Lexeme.depthAfter, Lexeme.isOp, isColon])] at inside
  have cut := cutValue_of_boundary inside isEnd ends after
  rw [← view₃] at cut
  cases (takeValue_of cut).symm.trans read
  exact (same' _).trans (same _)

/-- Lexemes are split at their first opening brace in one way. -/
theorem split_at_brace {head rest : List Lexeme} {brace : Lexeme}
    (same : head ++ brace :: rest = before ++ stop :: after) (isOpen : brace.isOp .leftBrace = true)
    (inside : ∀ l ∈ head, l.isOp .leftBrace = false) (isOpen' : stop.isOp .leftBrace = true)
    (inside' : ∀ l ∈ before, l.isOp .leftBrace = false) : head = before ∧ brace = stop ∧ rest = after := by
  have heads := congrArg (List.takeWhile (!·.isOp .leftBrace)) same
  rw [List.takeWhile_append_of_pos (by simpa using inside), List.takeWhile_append_of_pos (by simpa using inside'),
    List.takeWhile_cons_of_neg (by simp [isOpen]), List.takeWhile_cons_of_neg (by simp [isOpen']), List.append_nil,
    List.append_nil] at heads
  subst heads
  exact ⟨rfl, List.cons.inj (List.append_cancel_left same)⟩

theorem exists_of_run' {x : Parse α} {a : α} (ran : EStateM.run' x p = some a) : ∃ q, x p = .ok a q := by
  unfold EStateM.run' EStateM.run at ran
  split at ran
  · next q read =>
    cases ran
    exact ⟨q, read⟩
  · cases ran

/-- Items end where the look-ahead says. It takes nothing and finds the first boundary
outside parentheses. If that is a semicolon or a closing brace, a declaration that is read
ends there, with the semicolon and before the brace. If it is an opening brace, the head of
a rule is what stands before the first opening brace in view, which is the one found
exactly if no other stands before it. -/
theorem item_ends_at_boundary (searched : reading Cursor.boundary p = .ok (some op) q) :
    ∃ before stop after, Cursor.SplitsAt q.cursor.ahead op before stop after ∧
      q.cursor.stream = p.cursor.stream ∧
      (op = .leftBrace → ∃ head brace rest r,
        q.cursor.ahead = head ++ brace :: rest ∧ brace.isOp .leftBrace = true ∧
        (∀ l ∈ head, l.isOp .leftBrace = false) ∧ r.cursor = { q.cursor with ahead := rest } ∧
        (ruleHead q = if [] ∈ selectorsOf head then
            .error (.error .emptySelector (q.cursor.ahead.head?.bind (·.offset))) r
          else .ok (selectorsOf head) r) ∧
        (head = before ∧ brace = stop ∧ rest = after ↔ ∀ l ∈ before, l.isOp .leftBrace = false)) ∧
      (op ≠ .leftBrace → ∀ topLevel s r, declaration topLevel q = .ok s r →
        r.cursor = { q.cursor with ahead := if op = .semicolon then after else stop :: after }) := by
  have found := Cursor.findBoundary_of_boundary (reading_ok searched)
  obtain ⟨before, stop, after, parts, bounds, inside⟩ := Cursor.parts_of_findBoundary found
  obtain ⟨outside, first⟩ := Cursor.depth_of_findBoundary inside
  obtain ⟨isEnd, ends⟩ := Lexeme.token_of_boundary? bounds
  refine ⟨before, stop, after, ⟨parts, bounds, outside, first⟩, Cursor.boundary_stream (reading_ok searched), ?_, ?_⟩
  · rintro rfl
    have isOpen : stop.isOp .leftBrace = true := Lexeme.isOp_iff.mpr isEnd
    -- The head is cut at the first opening brace of any depth, which may come before `stop`.
    obtain ⟨brace, found⟩ : ∃ brace, q.cursor.ahead.find? (·.isOp .leftBrace) = some brace := by
      rw [← Option.isSome_iff_exists, List.find?_isSome, parts]
      exact ⟨stop, by simp, isOpen⟩
    obtain ⟨isOpen', head, rest, view, none⟩ := List.find?_eq_some_iff_append.mp found
    have noBrace : ∀ l ∈ head, l.isOp .leftBrace = false := by simpa using none
    obtain ⟨r, cursor, -, read⟩ := ruleHead_of_brace isOpen' noBrace view
    refine ⟨head, brace, rest, r, view, isOpen', noBrace, cursor, read, ?_⟩
    constructor
    · rintro ⟨rfl, -, -⟩
      exact noBrace
    · exact split_at_brace (view.symm.trans parts) isOpen' noBrace isOpen
  · intro other topLevel s r read
    exact declaration_ends inside isEnd (ends.resolve_left other) parts read

theorem item_ends_at_semicolon :
    (∃ q, reading Cursor.boundary (ofSource "b: f(\x7b;\x7d) c; d".toList) = .ok (some .semicolon) q ∧
      ∃ before stop after, Cursor.SplitsAt q.cursor.ahead .semicolon before stop after ∧
        ∀ topLevel s r, declaration topLevel q = .ok s r → r.cursor = { q.cursor with ahead := after }) ∧
      (EStateM.run' (reading Cursor.boundary *> declaration false *> take)
        (ofSource "b: f(\x7b;\x7d) c; d".toList)).join.map Lexeme.raw = some "d".toList := by
  refine ⟨?_, by decide +kernel⟩
  obtain ⟨q, searched⟩ := exists_of_run' (x := reading Cursor.boundary) (a := some .semicolon)
    (p := ofSource "b: f(\x7b;\x7d) c; d".toList) (by decide +kernel)
  obtain ⟨before, stop, after, split, -, -, ends⟩ := item_ends_at_boundary searched
  exact ⟨q, searched, before, stop, after, split, ends (by decide)⟩

/-- An opening brace in parentheses ends the head of a rule, though the look-ahead passes
over it. The rest of the head is then read as the body of the rule. -/
theorem ruleHead_ends_in_parentheses :
    EStateM.run' (reading Cursor.boundary) (ofSource "a(\x7b) \x7b b: c; \x7d".toList) = some (some .leftBrace) ∧
      EStateM.run' (reading Cursor.boundary *> ruleHead) (ofSource "a(\x7b) \x7b b: c; \x7d".toList) =
        some ["a(".toList] ∧
      failure? (parse "a(\x7b) \x7b b: c; \x7d".toList).result =
        some (.error (.endBefore .rightBrace .endOfRule) (some 14)) := by
  decide +kernel

end Parser

end Stylesheet

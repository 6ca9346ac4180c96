import Stylesheet.Lexeme.Cursor
import Stylesheet.Lexeme.Expression
import Stylesheet.Proofs.Results

/-! The cursor's steps, unfolded at what comes next, and with more outcomes
pending: a step that gives something looks no further than it has to. -/
namespace Stylesheet

namespace Lexeme

theorem isOp_iff {l : Lexeme} {op : Operator} : l.isOp op = true ↔ l.token = .operator op := beq_iff_eq

theorem token_of_ident? {l : Lexeme} {name : Text} (h : l.ident? = some name) : l.token = .ident name := by
  unfold ident? at h
  split at h
  · next raw token => rw [token, Option.some.inj h]
  · cases h

theorem token_of_boundary? {l : Lexeme} {op : Operator} (h : l.boundary? = some op) :
    l.token = .operator op ∧ (op = .leftBrace ∨ op = .semicolon ∨ op = .rightBrace) := by
  unfold boundary? at h
  split at h
  · next op' token =>
    split at h
    · next bounds =>
      cases h
      exact ⟨token, bounds⟩
    · cases h
  · cases h

end Lexeme

def Cursor.Extends (more : List Outcome) (c d : Cursor) : Prop :=
  ∃ index length, d = ⟨c.ahead, c.pending ++ more, index, length⟩

def Cursor.Clean (c : Cursor) : Prop := ∀ o ∈ c.pending, ∃ l, o.lexeme = .ok l

/-- A step that draws no error on its way to a result, and comes to it with more
outcomes pending as well. -/
def Cursor.Steady (f : Cursor.Step (Option α)) : Prop :=
  ∀ c a c', f c = (.ok (some a), c') → (c'.Clean → c.Clean) ∧
    ∀ more d, c.Extends more d → ∃ d', f d = (.ok (some a), d') ∧ c'.Extends more d'

namespace Cursor

variable {more : List Outcome} {c c' d : Cursor}

theorem drawBoundary_cons (depth : Nat) (ahead : List Lexeme) (o : Outcome) (pending : List Outcome)
    (index length : Nat) : drawBoundary depth ⟨ahead, o :: pending, index, length⟩ =
      match o.lexeme with
      | .error failure => (.error failure, ⟨ahead, pending, o.stop, length⟩)
      | .ok l =>
        match findBoundary depth [l] with
        | .inl op => (.ok (some op), ⟨ahead ++ [l], pending, o.stop, length⟩)
        | .inr depth => drawBoundary depth ⟨ahead ++ [l], pending, o.stop, length⟩ :=
  drawBoundary.eq_def depth ⟨ahead, o :: pending, index, length⟩

theorem group_eq (depth : Nat) (c : Cursor) : c.group depth =
    match c.next with
    | (.error failure, c') => (.error failure, c')
    | (.ok none, c') => (.ok none, c')
    | (.ok (some l), c') =>
      if depth = 0 ∧ l.isOp .rightParen then (.ok (some []), c')
      else
        let (result, c'') := c'.group (l.depthAfter depth)
        (result.map (·.map (l :: ·)), c'') := by
  rw [group.eq_def]
  split <;> next taken => rw [taken]

theorem group_of_next {l : Lexeme} (depth : Nat) (taken : c.next = (.ok (some l), c')) :
    c.group depth =
      if depth = 0 ∧ l.isOp .rightParen then (.ok (some []), c')
      else
        let (result, c'') := c'.group (l.depthAfter depth)
        (result.map (·.map (l :: ·)), c'') := by
  rw [group_eq, taken]

theorem clean_cons {ahead ahead' : List Lexeme} {o : Outcome} {pending : List Outcome}
    {index index' length : Nat} {l : Lexeme} (read : o.lexeme = .ok l)
    (clean : Clean ⟨ahead', pending, index', length⟩) : Clean ⟨ahead, o :: pending, index, length⟩ := by
  intro o' member
  rcases List.mem_cons.mp member with rfl | member
  · exact ⟨l, read⟩
  · exact clean o' member

theorem steady_next : Steady next := by
  rintro ⟨ahead, pending, index, length⟩ l c' taken
  cases ahead with
  | cons l' ahead =>
    obtain ⟨same, rfl⟩ := Prod.mk.inj taken
    refine ⟨id, ?_⟩
    rintro more d ⟨index', length', rfl⟩
    exact ⟨_, Prod.ext same rfl, _, _, rfl⟩
  | nil =>
    cases pending with
    | nil => simp [next, draw] at taken
    | cons o pending =>
      obtain ⟨same, rfl⟩ := Prod.mk.inj taken
      obtain ⟨l', read, -⟩ := map_eq_ok.mp same
      refine ⟨clean_cons read, ?_⟩
      rintro more d ⟨index', length', rfl⟩
      exact ⟨_, Prod.ext same rfl, _, _, rfl⟩

theorem steady_peek : Steady (peek 1) := by
  rintro ⟨ahead, pending, index, length⟩ l c' seen
  rw [peek_one] at seen
  cases ahead with
  | cons l' ahead =>
    obtain ⟨same, rfl⟩ := Prod.mk.inj seen
    refine ⟨id, ?_⟩
    rintro more d ⟨index', length', rfl⟩
    rw [peek_one]
    exact ⟨_, Prod.ext same rfl, _, _, rfl⟩
  | nil =>
    cases pending with
    | nil => simp at seen
    | cons o pending =>
      cases read : o.lexeme with
      | error failure => simp [read] at seen
      | ok l' =>
        simp only [read] at seen
        obtain ⟨same, rfl⟩ := Prod.mk.inj seen
        refine ⟨clean_cons read, ?_⟩
        rintro more d ⟨index', length', rfl⟩
        rw [peek_one]
        simp only [List.cons_append, read]
        exact ⟨_, Prod.ext same rfl, _, _, rfl⟩

theorem steady_drawBoundary (depth : Nat) : Steady (drawBoundary depth) := by
  rintro ⟨ahead, pending, index, length⟩ op c' found
  induction pending generalizing ahead depth index with
  | nil =>
    rw [drawBoundary] at found
    simp at found
  | cons o pending ih =>
    rw [drawBoundary_cons] at found
    cases read : o.lexeme with
    | error failure => simp [read] at found
    | ok l =>
      simp only [read] at found
      cases here : findBoundary depth [l] with
      | inl op' =>
        simp only [here] at found
        obtain ⟨same, rfl⟩ := Prod.mk.inj found
        refine ⟨clean_cons read, ?_⟩
        rintro more d ⟨index', length', rfl⟩
        rw [List.cons_append, drawBoundary_cons]
        simp only [read, here]
        exact ⟨_, Prod.ext same rfl, _, _, rfl⟩
      | inr depth' =>
        simp only [here] at found
        obtain ⟨clean, again⟩ := ih _ _ _ found
        refine ⟨fun c => clean_cons read (clean c), ?_⟩
        rintro more d ⟨index', length', rfl⟩
        rw [List.cons_append, drawBoundary_cons]
        simp only [read, here]
        exact again more _ ⟨_, _, rfl⟩

theorem steady_boundary : Steady boundary := by
  intro c op c' found
  unfold boundary at found
  cases here : findBoundary 0 c.ahead with
  | inl op' =>
    simp only [here] at found
    obtain ⟨same, rfl⟩ := Prod.mk.inj found
    refine ⟨id, ?_⟩
    rintro more d ⟨index', length', rfl⟩
    unfold boundary
    simp only [here]
    exact ⟨_, Prod.ext same rfl, _, _, rfl⟩
  | inr depth =>
    simp only [here] at found
    obtain ⟨clean, again⟩ := steady_drawBoundary depth c op c' found
    refine ⟨clean, ?_⟩
    rintro more d ⟨index', length', rfl⟩
    unfold boundary
    simp only [here]
    exact again more _ ⟨_, _, rfl⟩

theorem steady_group (depth : Nat) : Steady (group depth) := by
  intro c inner c' grouped
  fun_induction group depth c generalizing inner c' with
  | case1 => simp at grouped
  | case2 => simp at grouped
  | case3 depth c l c₁ taken closes =>
    obtain ⟨same, rfl⟩ := Prod.mk.inj grouped
    obtain ⟨clean, again⟩ := steady_next c l c₁ taken
    refine ⟨clean, ?_⟩
    intro more d longer
    obtain ⟨d₁, taken', longer⟩ := again more d longer
    rw [group_of_next depth taken', if_pos closes, same]
    exact ⟨d₁, rfl, longer⟩
  | case4 depth c l c₁ taken opens result c₂ rest ih =>
    obtain ⟨same, rfl⟩ := Prod.mk.inj grouped
    obtain ⟨found, rfl, same⟩ := map_eq_ok.mp same
    cases found with
    | none => cases same
    | some found =>
      obtain ⟨clean, again⟩ := steady_next c l c₁ taken
      obtain ⟨clean', again'⟩ := ih _ _ rest
      refine ⟨fun c => clean (clean' c), ?_⟩
      intro more d longer
      obtain ⟨d₁, taken', longer⟩ := again more d longer
      obtain ⟨d₂, rest', longer⟩ := again' more d₁ longer
      rw [group_of_next depth taken', if_neg opens, rest', ← same]
      exact ⟨d₂, rfl, longer⟩

theorem findBoundary_append (depth : Nat) (ls more : List Lexeme) :
    findBoundary depth (ls ++ more) =
      match findBoundary depth ls with
      | .inl op => .inl op
      | .inr depth' => findBoundary depth' more := by
  fun_induction findBoundary depth ls with
  | case1 depth => rfl
  | case2 l rest op here => rw [List.cons_append, findBoundary]; exact here
  | case3 depth l rest inner ih => rw [List.cons_append, findBoundary, ih]; exact inner

/-- Where no boundary is found, all that is left is in view and has none. -/
theorem drawBoundary_none {depth depth₀ : Nat} (before : findBoundary depth₀ c.ahead = .inr depth)
    (searched : c.drawBoundary depth = (.ok none, c')) :
    c'.pending = [] ∧ ∃ depth', findBoundary depth₀ c'.ahead = .inr depth' := by
  obtain ⟨ahead, pending, index, length⟩ := c
  induction pending generalizing ahead depth index with
  | nil =>
    rw [drawBoundary] at searched
    obtain ⟨-, rfl⟩ := Prod.mk.inj searched
    exact ⟨rfl, depth, before⟩
  | cons o pending ih =>
    rw [drawBoundary_cons] at searched
    cases read : o.lexeme with
    | error failure => simp [read] at searched
    | ok l =>
      simp only [read] at searched
      cases here : findBoundary depth [l] with
      | inl op => simp [here] at searched
      | inr depth' =>
        simp only [here] at searched
        refine ih _ _ ?_ searched
        dsimp only at before ⊢
        rw [findBoundary_append, before]
        exact here

theorem boundary_none (searched : c.boundary = (.ok none, c')) :
    c'.pending = [] ∧ ∃ depth, findBoundary 0 c'.ahead = .inr depth := by
  unfold boundary at searched
  cases here : findBoundary 0 c.ahead with
  | inl op => simp [here] at searched
  | inr depth =>
    simp only [here] at searched
    exact drawBoundary_none here searched

/-- A lexeme that is no boundary and no parenthesis leaves the search as it is. -/
theorem findBoundary_cons {l : Lexeme} (plain : l.boundary? = none ∧ l.depthAfter 0 = 0) (ls : List Lexeme) :
    findBoundary 0 (l :: ls) = findBoundary 0 ls := by
  rw [findBoundary.eq_def]
  simp only [plain.1, plain.2]

theorem findBoundary_of_drawBoundary {depth depth₀ : Nat} {op : Operator}
    (before : findBoundary depth₀ c.ahead = .inr depth) (searched : c.drawBoundary depth = (.ok (some op), c')) :
    findBoundary depth₀ c'.ahead = .inl op := by
  fun_induction drawBoundary depth c with
  | case1 => cases searched
  | case2 => cases searched
  | case3 depth c o pending waiting l read c₁ op' here =>
    obtain ⟨same, rfl⟩ := Prod.mk.inj searched
    cases same
    rw [findBoundary_append, before]
    exact here
  | case4 depth c o pending waiting l read c₁ depth' here ih =>
    refine ih ?_ searched
    rw [findBoundary_append, before]
    exact here

/-- A boundary that has been found is the first one in view. -/
theorem findBoundary_of_boundary {op : Operator} (searched : c.boundary = (.ok (some op), c')) :
    findBoundary 0 c'.ahead = .inl op := by
  unfold boundary at searched
  split at searched
  · next here =>
    cases searched
    exact here
  · next here => exact findBoundary_of_drawBoundary here searched

end Cursor

end Stylesheet

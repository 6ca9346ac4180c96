import Stylesheet.Proofs.Lexeme.Cursor

/-! The groups of lexemes between separators. A list without a separator outside
parentheses is one group; any other is cut at its first one, behind which all parentheses
are closed, so splitting goes on with the rest as with a list of its own. Of balanced
lexemes every group is balanced, as what is in parentheses is passed over as a whole. -/
namespace Stylesheet

namespace Expression

def hasOutside (op : Operator) : Nat → List Lexeme → Bool
  | _, [] => false
  | depth, l :: rest => (depth == 0 && l.isOp op) || hasOutside op (l.depthAfter depth) rest

def countOutside (op : Operator) : Nat → List Lexeme → Nat
  | _, [] => 0
  | depth, l :: rest => (if depth = 0 ∧ l.isOp op then 1 else 0) + countOutside op (l.depthAfter depth) rest

theorem hasOutside_append (op : Operator) (depth : Nat) (ls more : List Lexeme) :
    hasOutside op depth (ls ++ more) =
      (hasOutside op depth ls || hasOutside op (ls.foldl Lexeme.depthAfter depth) more) := by
  induction ls generalizing depth with
  | nil => rw [List.nil_append, List.foldl_nil, hasOutside, Bool.false_or]
  | cons l ls ih => rw [List.cons_append, hasOutside, ih, hasOutside, Bool.or_assoc, List.foldl_cons]

theorem countOutside_append (op : Operator) (depth : Nat) (ls more : List Lexeme) :
    countOutside op depth (ls ++ more) =
      countOutside op depth ls + countOutside op (ls.foldl Lexeme.depthAfter depth) more := by
  induction ls generalizing depth with
  | nil => rw [List.nil_append, List.foldl_nil, countOutside, Nat.zero_add]
  | cons l ls ih => rw [List.cons_append, countOutside, ih, countOutside, Nat.add_assoc, List.foldl_cons]

variable {separator : Operator} {depth : Nat} {ls : List Lexeme}

theorem splitFrom_ne_nil (separator : Operator) (depth : Nat) (ls : List Lexeme) :
    splitFrom separator depth ls ≠ [] := by
  cases ls with
  | nil => exact List.cons_ne_nil _ _
  | cons l rest =>
    unfold splitFrom
    dsimp only
    split
    · exact List.cons_ne_nil _ _
    · split <;> exact List.cons_ne_nil _ _

/-- A lexeme that does not separate goes to the first group behind it. -/
theorem splitFrom_cons {l : Lexeme} (other : ¬(depth = 0 ∧ l.isOp separator = true)) (rest : List Lexeme) :
    splitFrom separator depth (l :: rest) = (splitFrom separator (l.depthAfter depth) rest).modifyHead (l :: ·) := by
  rw [splitFrom, if_neg fun here => other ⟨here.1, here.2.2⟩]
  cases groups : splitFrom separator (l.depthAfter depth) rest with
  | nil => exact absurd groups (splitFrom_ne_nil _ _ _)
  | cons first others => rfl

theorem hasOutside_cons_eq_false {l : Lexeme} : hasOutside separator depth (l :: ls) = false ↔
    ¬(depth = 0 ∧ l.isOp separator = true) ∧ hasOutside separator (l.depthAfter depth) ls = false := by
  rw [hasOutside, Bool.or_eq_false_iff]
  simp

theorem countOutside_of_none (none : hasOutside separator depth ls = false) : countOutside separator depth ls = 0 := by
  induction ls generalizing depth with
  | nil => rfl
  | cons l ls ih =>
    obtain ⟨other, none⟩ := hasOutside_cons_eq_false.mp none
    rw [countOutside, ih none, if_neg other]

/-- Without a separator outside parentheses there is one group. -/
theorem splitFrom_of_none (none : hasOutside separator depth ls = false) : splitFrom separator depth ls = [ls] := by
  induction ls generalizing depth with
  | nil => rfl
  | cons l ls ih =>
    obtain ⟨other, none⟩ := hasOutside_cons_eq_false.mp none
    rw [splitFrom_cons other, ih none, List.modifyHead_cons]

/-- Operators that can separate: all but the parentheses. -/
structure IsSeparator (separator : Operator) : Prop where
  noOpen : separator ≠ .leftParen
  noClose : separator ≠ .rightParen

theorem IsSeparator.comma : IsSeparator .comma := ⟨by decide, by decide⟩

theorem IsSeparator.not_paren (separates : IsSeparator separator) {s : Lexeme} (isSeparator : s.isOp separator = true) :
    s.isOp .leftParen = false ∧ s.isOp .rightParen = false := by
  rw [Lexeme.isOp_iff] at isSeparator
  simp [Lexeme.isOp, isSeparator, separates.noOpen, separates.noClose]

/-- Behind closed parentheses a separator starts another group. -/
theorem splitFrom_append (separates : IsSeparator separator) {s : Lexeme} (isSeparator : s.isOp separator = true)
    (none : hasOutside separator depth ls = false) (closed : ls.foldl Lexeme.depthAfter depth = 0)
    (more : List Lexeme) :
    splitFrom separator depth (ls ++ s :: more) = ls :: splitFrom separator 0 more := by
  induction ls generalizing depth with
  | nil =>
    obtain rfl : depth = 0 := closed
    obtain ⟨noOpen, noClose⟩ := separates.not_paren isSeparator
    rw [List.nil_append, splitFrom]
    simp [isSeparator, noOpen, noClose]
  | cons l ls ih =>
    obtain ⟨other, none⟩ := hasOutside_cons_eq_false.mp none
    rw [List.cons_append, splitFrom_cons other, ih none closed, List.modifyHead_cons]

/-- The first separator outside parentheses stands behind a group that is closed. -/
theorem exists_group (some : hasOutside separator depth ls = true) :
    ∃ group s more, ls = group ++ s :: more ∧ s.isOp separator = true ∧
      hasOutside separator depth group = false ∧ group.foldl Lexeme.depthAfter depth = 0 := by
  induction ls generalizing depth with
  | nil => cases some
  | cons l ls ih =>
    by_cases here : depth = 0 ∧ l.isOp separator = true
    · obtain ⟨rfl, isSeparator⟩ := here
      exact ⟨[], l, ls, rfl, isSeparator, rfl, rfl⟩
    · have later : hasOutside separator (l.depthAfter depth) ls = true := by
        rw [hasOutside, Bool.or_eq_true] at some
        exact some.resolve_left (by simpa using here)
      obtain ⟨group, s, more, rfl, isSeparator, none, closed⟩ := ih later
      exact ⟨l :: group, s, more, rfl, isSeparator, hasOutside_cons_eq_false.mpr ⟨here, none⟩, closed⟩

/-- A list is split as it is cut: group by group, and the last group has no separator
outside parentheses. -/
theorem split_induction (separator : Operator) {motive : List Lexeme → Prop}
    (last : ∀ group, hasOutside separator 0 group = false → motive group)
    (append : ∀ group s more, s.isOp separator = true → hasOutside separator 0 group = false →
      group.foldl Lexeme.depthAfter 0 = 0 → motive more → motive (group ++ s :: more))
    (ls : List Lexeme) : motive ls := by
  cases found : hasOutside separator 0 ls with
  | false => exact last ls found
  | true =>
    obtain ⟨group, s, more, cut, isSeparator, none, closed⟩ := exists_group found
    rw [cut]
    exact append group s more isSeparator none closed (split_induction separator last append more)
termination_by ls.length
decreasing_by
  simp only [cut, List.length_append, List.length_cons]
  omega

theorem length_split (separates : IsSeparator separator) (ls : List Lexeme) :
    (split separator ls).length = countOutside separator 0 ls + 1 := by
  induction ls using split_induction separator with
  | last group none => rw [split, splitFrom_of_none none, countOutside_of_none none, List.length_singleton]
  | append group s more isSeparator none closed ih =>
    have behind : s.depthAfter 0 = 0 := by simp [Lexeme.depthAfter, separates.not_paren isSeparator]
    rw [split] at ih ⊢
    rw [splitFrom_append separates isSeparator none closed, List.length_cons, ih, countOutside_append,
      countOutside_of_none none, closed, countOutside, behind, if_pos ⟨rfl, isSeparator⟩]
    omega

/-- Between each two groups there was a separator. -/
theorem tokens_split (separates : IsSeparator separator) (ls : List Lexeme) :
    List.intercalate [.operator separator] ((split separator ls).map (List.map Lexeme.token)) =
      ls.map Lexeme.token := by
  induction ls using split_induction separator with
  | last group none => rw [split, splitFrom_of_none none, List.map_singleton, List.intercalate_singleton]
  | append group s more isSeparator none closed ih =>
    have whole : split separator (group ++ s :: more) = group :: split separator more :=
      splitFrom_append separates isSeparator none closed more
    have token : s.token = .operator separator := Lexeme.isOp_iff.mp isSeparator
    cases groups : split separator more with
    | nil =>
      have length := length_split separates more
      rw [groups] at length
      cases length
    | cons first others =>
      rw [groups, List.map_cons] at ih
      rw [whole, groups, List.map_cons, List.map_cons, List.intercalate_cons_cons, ih, List.map_append, List.map_cons,
        token, List.append_assoc, List.singleton_append]

theorem hasOutside_of_mem_split (separates : IsSeparator separator) {group : List Lexeme}
    (member : group ∈ split separator ls) : hasOutside separator 0 group = false := by
  induction ls using split_induction separator with
  | last ls none =>
    rw [split, splitFrom_of_none none, List.mem_singleton] at member
    rwa [member]
  | append front s more isSeparator none closed ih =>
    rw [split, splitFrom_append separates isSeparator none closed, List.mem_cons] at member
    rcases member with rfl | member
    · exact none
    · exact ih member

inductive IsBalanced : List Lexeme → Prop where
  | nil : IsBalanced []
  | cons {l : Lexeme} {rest : List Lexeme} (noOpen : l.isOp .leftParen = false) (noClose : l.isOp .rightParen = false)
      (balanced : IsBalanced rest) : IsBalanced (l :: rest)
  | parens {opened closed : Lexeme} {inner rest : List Lexeme} (isOpen : opened.isOp .leftParen = true)
      (isClose : closed.isOp .rightParen = true) (inside : IsBalanced inner) (behind : IsBalanced rest) :
      IsBalanced (opened :: (inner ++ closed :: rest))

/-- Parentheses and what is in them go to the first group behind them, if what is in them
is passed over. -/
theorem splitFrom_parens {opened closed : Lexeme} {inner : List Lexeme} (isOpen : opened.isOp .leftParen = true)
    (isClose : closed.isOp .rightParen = true) (other : ¬(depth = 0 ∧ opened.isOp separator = true))
    (passed : ∀ more, splitFrom separator (depth + 1) (inner ++ more) =
      (splitFrom separator (depth + 1) more).modifyHead (inner ++ ·)) (rest : List Lexeme) :
    splitFrom separator depth (opened :: (inner ++ closed :: rest)) =
      (splitFrom separator depth rest).modifyHead fun group => opened :: (inner ++ closed :: group) := by
  have opens : opened.depthAfter depth = depth + 1 := by simp [Lexeme.depthAfter, isOpen]
  have closes : closed.depthAfter (depth + 1) = depth := by
    simp [Lexeme.depthAfter, Lexeme.isOp, Lexeme.isOp_iff.mp isClose]
  rw [splitFrom_cons other, opens, passed, splitFrom_cons (by simp), closes, List.modifyHead_modifyHead,
    List.modifyHead_modifyHead]
  rfl

/-- Balanced lexemes in parentheses are passed over as a whole. -/
theorem IsBalanced.splitFrom_append (balanced : IsBalanced ls) (depth : Nat) (more : List Lexeme) :
    splitFrom separator (depth + 1) (ls ++ more) = (splitFrom separator (depth + 1) more).modifyHead (ls ++ ·) := by
  induction balanced generalizing depth more with
  | nil => exact (congrFun List.modifyHead_id _).symm
  | @cons l rest noOpen noClose balanced ih =>
    have stays : l.depthAfter (depth + 1) = depth + 1 := by simp [Lexeme.depthAfter, noOpen, noClose]
    rw [List.cons_append, splitFrom_cons (by simp), stays, ih, List.modifyHead_modifyHead]
    rfl
  | @parens opened closed inner rest isOpen isClose balanced behind first second =>
    have whole : opened :: (inner ++ closed :: rest) ++ more = opened :: (inner ++ closed :: (rest ++ more)) := by simp
    rw [whole, splitFrom_parens isOpen isClose (by simp) (first (depth + 1)), second, List.modifyHead_modifyHead]
    simp [Function.comp_def]

theorem mem_modifyHead {f : List Lexeme → List Lexeme} {groups : List (List Lexeme)} {group : List Lexeme}
    (member : group ∈ groups.modifyHead f) : (∃ first ∈ groups, group = f first) ∨ group ∈ groups := by
  cases groups with
  | nil => cases member
  | cons first others =>
    rw [List.modifyHead_cons, List.mem_cons] at member
    rcases member with rfl | member
    · exact .inl ⟨first, List.mem_cons_self, rfl⟩
    · exact .inr (List.mem_cons_of_mem _ member)

theorem isBalanced_of_mem_split (separates : IsSeparator separator) (balanced : IsBalanced ls) {group : List Lexeme}
    (member : group ∈ split separator ls) : IsBalanced group := by
  induction balanced generalizing group with
  | nil =>
    rw [List.mem_singleton.mp member]
    exact .nil
  | @cons l rest noOpen noClose balanced ih =>
    by_cases isSeparator : l.isOp separator = true
    · rw [split, ← List.nil_append (l :: rest), splitFrom_append separates isSeparator rfl rfl, List.mem_cons] at member
      rcases member with rfl | member
      · exact .nil
      · exact ih member
    · have stays : l.depthAfter 0 = 0 := by simp [Lexeme.depthAfter, noOpen, noClose]
      rw [split, splitFrom_cons fun here => isSeparator here.2, stays] at member
      rcases mem_modifyHead member with ⟨first, inside, rfl⟩ | inside
      · exact .cons noOpen noClose (ih inside)
      · exact ih inside
  | @parens opened closed inner rest isOpen isClose balanced behind _ ih =>
    have other : ¬(0 = 0 ∧ opened.isOp separator = true) := by
      rintro ⟨-, isSeparator⟩
      rw [(separates.not_paren isSeparator).1] at isOpen
      cases isOpen
    rw [split, splitFrom_parens isOpen isClose other (balanced.splitFrom_append 0)] at member
    rcases mem_modifyHead member with ⟨first, inside, rfl⟩ | inside
    · exact .parens isOpen isClose balanced (ih inside)
    · exact ih inside

/-- Splitting at a separator loses nothing: one separator between each two groups gives the
tokens back, there is one group more than separators outside parentheses, and a group has
none, so it is one group by itself. Of balanced lexemes every group is balanced. -/
theorem split_exact (separates : IsSeparator separator) (ls : List Lexeme) :
    List.intercalate [.operator separator] ((split separator ls).map (List.map Lexeme.token)) =
        ls.map Lexeme.token ∧
      (split separator ls).length = countOutside separator 0 ls + 1 ∧
      (∀ group ∈ split separator ls, split separator group = [group]) ∧
      (IsBalanced ls → ∀ group ∈ split separator ls, IsBalanced group) := by
  refine ⟨tokens_split separates ls, length_split separates ls, fun group member => ?_, fun balanced group member => ?_⟩
  · exact splitFrom_of_none (hasOutside_of_mem_split separates member)
  · exact isBalanced_of_mem_split separates balanced member

def callBesideName : List Lexeme :=
  [⟨.ident ['f'], some 0⟩, ⟨.operator .leftParen, some 1⟩, ⟨.ident ['a'], some 2⟩, ⟨.operator .comma, some 3⟩,
    ⟨.ident ['b'], some 4⟩, ⟨.operator .rightParen, some 5⟩, ⟨.operator .comma, some 6⟩, ⟨.ident ['c'], some 7⟩]

theorem split_exact_callBesideName :
    IsSeparator .comma ∧ IsBalanced callBesideName ∧ countOutside .comma 0 callBesideName = 1 ∧
      (split .comma callBesideName).length = 2 ∧ ∀ group ∈ split .comma callBesideName, IsBalanced group := by
  have inner : IsBalanced [⟨.ident ['a'], some 2⟩, ⟨.operator .comma, some 3⟩, ⟨.ident ['b'], some 4⟩] :=
    .cons rfl rfl (.cons rfl rfl (.cons rfl rfl .nil))
  have behind : IsBalanced [⟨.operator .comma, some 6⟩, ⟨.ident ['c'], some 7⟩] := .cons rfl rfl (.cons rfl rfl .nil)
  have balanced : IsBalanced callBesideName := .cons rfl rfl (.parens rfl rfl inner behind)
  obtain ⟨-, length, -, groups⟩ := split_exact .comma callBesideName
  exact ⟨.comma, balanced, rfl, length, groups balanced⟩

end Expression

end Stylesheet

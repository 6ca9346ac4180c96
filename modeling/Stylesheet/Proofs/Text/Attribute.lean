import Stylesheet.Proofs.Lexeme.Reading
import Stylesheet.Selector

/-! Attribute tests in selectors. What stands between the brackets of a test is given as a
grammar, and squeezing a text leaves out the blanks of every test that is read from left
to right in it. -/
namespace Stylesheet

namespace Text

def visible (text : Text) : Text := text.filter (!isBlank ·)

theorem visible_append (text more : Text) : visible (text ++ more) = visible text ++ visible more :=
  List.filter_append ..

theorem visible_of_all {p : Char → Bool} {word : Text} (disjoint : ∀ c, p c = true → isBlank c = false)
    (all : word.all p = true) : visible word = word := by
  rw [visible, List.filter_eq_self]
  intro c member
  simp [disjoint c (List.all_eq_true.mp all c member)]

theorem visible_of_blank {gap : Text} (blank : gap.all isBlank = true) : visible gap = [] := by
  rw [visible, List.filter_eq_nil_iff]
  intro c member
  simp [List.all_eq_true.mp blank c member]

end Text

namespace Selector

inductive IsOperator : Text → Prop where
  | plain : IsOperator ['=']
  | matching {c : Char} (matcher : isMatcher c = true) : IsOperator [c, '=']

/-- What stands between the brackets of an attribute test: a name, an operator and a
value, with blanks before and behind each of them. -/
inductive IsTest : Text → Prop where
  | parts {before name between op behind value after : Text} (blank₁ : before.all Text.isBlank = true)
      (named : name ≠ []) (name_all : name.all isNameChar = true) (blank₂ : between.all Text.isBlank = true)
      (operator : IsOperator op) (blank₃ : behind.all Text.isBlank = true) (valued : value ≠ [])
      (value_all : value.all isValueChar = true) (blank₄ : after.all Text.isBlank = true) :
      IsTest (before ++ (name ++ (between ++ (op ++ (behind ++ (value ++ after))))))

theorem isBlank_of_isMatcher {c : Char} (matcher : isMatcher c = true) : Text.isBlank c = false := by
  simp only [isMatcher, Bool.or_eq_true, beq_iff_eq] at matcher
  rcases matcher with (((rfl | rfl) | rfl) | rfl) | rfl <;> rfl

theorem isBlank_of_isNameChar {c : Char} (name : isNameChar c = true) : Text.isBlank c = false := by
  simp only [isNameChar, Bool.and_eq_true, Bool.not_eq_true'] at name
  exact name.1.1.1.1.1.1

theorem isBlank_of_isValueChar {c : Char} (value : isValueChar c = true) : Text.isBlank c = false := by
  simp only [isValueChar, Bool.and_eq_true, Bool.not_eq_true'] at value
  exact value.1

theorem matcher?_of_isOperator {op : Text} (operator : IsOperator op) (rest : Text) :
    matcher? (op ++ rest) = some (op, rest) := by
  cases operator with
  | plain => rfl
  | matching matcher =>
    rw [List.cons_append, List.singleton_append, matcher?.eq_2, if_pos matcher]
    rintro rfl
    cases matcher

theorem matcher?_eq {text op rest : Text} (h : matcher? text = some (op, rest)) : text = op ++ rest := by
  unfold matcher? at h
  split at h
  · cases h
    rfl
  · split at h <;> cases h
    rfl
  · cases h

theorem isOperator_of_matcher? {text op rest : Text} (h : matcher? text = some (op, rest)) : IsOperator op := by
  unfold matcher? at h
  split at h
  · cases h
    exact .plain
  · split at h
    · next matcher =>
      cases h
      exact .matching matcher
    · cases h
  · cases h

/-- No character of a class stands at the front of a text of another class. -/
theorem head?_any_of_all {p q : Char → Bool} {word rest : Text} (disjoint : ∀ c, q c = true → p c = false)
    (nonempty : word ≠ []) (all : word.all q = true) : (word ++ rest).head?.any p = false := by
  obtain ⟨c, tail, rfl⟩ := List.exists_cons_of_ne_nil nonempty
  rw [List.all_cons, Bool.and_eq_true] at all
  simp [disjoint c all.1]

section

variable {before name between op behind value after : Text}

/-- A test is read from its parts where the name goes no further than it is given. -/
theorem attribute?_of_parts (blank₁ : before.all Text.isBlank = true)
    (named : name ≠ []) (name_all : name.all isNameChar = true) (blank₂ : between.all Text.isBlank = true)
    (operator : IsOperator op) (blank₃ : behind.all Text.isBlank = true) (valued : value ≠ [])
    (value_all : value.all isValueChar = true) (blank₄ : after.all Text.isBlank = true)
    (stop : (between ++ op).head?.any isNameChar = false) (rest : Text) :
    attribute? (before ++ (name ++ (between ++ (op ++ (behind ++ (value ++ (after ++ ']' :: rest))))))) =
      some (name ++ op ++ value, rest) := by
  have start (w : Text) : (name ++ w).head?.any Text.isBlank = false :=
    head?_any_of_all (fun _ => isBlank_of_isNameChar) named name_all
  have ends (w : Text) : (between ++ (op ++ w)).head?.any isNameChar = false := by
    cases between with
    | nil => cases operator <;> simpa using stop
    | cons c between => simpa using stop
  have sign (w : Text) : (op ++ w).head?.any Text.isBlank = false := by
    cases operator with
    | plain => rfl
    | matching matcher => simp [isBlank_of_isMatcher matcher]
  have word (w : Text) : (value ++ w).head?.any Text.isBlank = false :=
    head?_any_of_all (fun _ => isBlank_of_isValueChar) valued value_all
  have close : (after ++ ']' :: rest).head?.any isValueChar = false := by
    cases after with
    | nil => rfl
    | cons c after =>
      rw [List.all_cons, Bool.and_eq_true] at blank₄
      simp [isValueChar, blank₄.1]
  have nonempty : (name.isEmpty || value.isEmpty) = false := by simp [named, valued]
  unfold attribute?
  dsimp only
  rw [Scan.dropWhile_stop blank₁ (start _), Scan.takeWhile_stop name_all (ends _),
    Scan.dropWhile_stop name_all (ends _), Scan.dropWhile_stop blank₂ (sign _), matcher?_of_isOperator operator]
  dsimp only
  rw [Scan.dropWhile_stop blank₃ (word _), Scan.takeWhile_stop value_all close, Scan.dropWhile_stop value_all close,
    Scan.dropWhile_stop blank₄ rfl]
  simp [nonempty]

end

theorem visible_operator {op : Text} (operator : IsOperator op) : Text.visible op = op := by
  cases operator with
  | plain => rfl
  | matching matcher => simp [Text.visible, isBlank_of_isMatcher matcher, show Text.isBlank '=' = false from rfl]

/-- Only a dollar sign right behind a name could belong to the name as well as to the
operator. -/
theorem dollar_of_isNameChar {between op : Text} (blank : between.all Text.isBlank = true) (operator : IsOperator op)
    (goesOn : ¬(between ++ op).head?.any isNameChar = false) : between = [] ∧ op = ['$', '='] := by
  cases between with
  | cons c between =>
    rw [List.all_cons, Bool.and_eq_true] at blank
    simp [isNameChar, blank.1] at goesOn
  | nil =>
    refine ⟨rfl, ?_⟩
    cases operator with
    | plain => exact absurd rfl goesOn
    | @matching c matcher =>
      simp only [isMatcher, Bool.or_eq_true, beq_iff_eq] at matcher
      rcases matcher with (((rfl | rfl) | rfl) | rfl) | rfl
      · exact absurd rfl goesOn
      · exact absurd rfl goesOn
      · exact absurd rfl goesOn
      · rfl
      · exact absurd rfl goesOn

/-- A test is read up to its bracket, and its blanks are left out. -/
theorem attribute?_of_isTest {content : Text} (test : IsTest content) (rest : Text) :
    attribute? (content ++ ']' :: rest) = some (Text.visible content, rest) := by
  cases test with
  | @parts before name between op behind value after blank₁ named name_all blank₂ operator blank₃ valued value_all
      blank₄ =>
    simp only [Text.visible_append, Text.visible_of_blank blank₁, Text.visible_of_blank blank₂,
      Text.visible_of_blank blank₃, Text.visible_of_blank blank₄, visible_operator operator,
      Text.visible_of_all (fun _ => isBlank_of_isNameChar) name_all,
      Text.visible_of_all (fun _ => isBlank_of_isValueChar) value_all, List.nil_append, List.append_nil]
    by_cases stop : (between ++ op).head?.any isNameChar = false
    · have read := attribute?_of_parts blank₁ named name_all blank₂ operator blank₃ valued value_all blank₄ stop rest
      simpa using read
    · obtain ⟨rfl, rfl⟩ := dollar_of_isNameChar blank₂ operator stop
      have longer : (name ++ ['$']).all isNameChar = true := by rw [List.all_append, name_all]; rfl
      have read := attribute?_of_parts blank₁ (by simp) longer blank₂ .plain blank₃ valued value_all blank₄ rfl rest
      simpa using read

theorem isTest_of_attribute? {text test rest : Text} (h : attribute? text = some (test, rest)) :
    ∃ content, IsTest content ∧ text = content ++ ']' :: rest := by
  have cut (p : Char → Bool) (t : Text) : t = t.takeWhile p ++ t.dropWhile p := List.takeWhile_append_dropWhile.symm
  unfold attribute? at h
  dsimp only at h
  split at h
  · cases h
  · next op behind matched =>
    split at h
    · next tail close =>
      split at h
      · cases h
      · next nonempty =>
        cases h
        simp only [Bool.or_eq_true, List.isEmpty_iff, not_or] at nonempty
        have gap (t : Text) : (t.takeWhile Text.isBlank).all Text.isBlank = true := List.all_takeWhile
        refine ⟨_, .parts (gap text) nonempty.1 List.all_takeWhile
          (gap ((text.dropWhile Text.isBlank).dropWhile isNameChar)) (isOperator_of_matcher? matched) (gap behind)
          nonempty.2 List.all_takeWhile (gap ((behind.dropWhile Text.isBlank).dropWhile isValueChar)), ?_⟩
        simp only [List.append_assoc]
        rw [← close, ← cut, ← cut, ← cut, ← matcher?_eq matched, ← cut, ← cut, ← cut]
    · cases h

theorem attribute?_eq_some_iff {text test rest : Text} : attribute? text = some (test, rest) ↔
    ∃ content, IsTest content ∧ text = content ++ ']' :: rest ∧ test = Text.visible content := by
  constructor
  · intro h
    obtain ⟨content, isTest, rfl⟩ := isTest_of_attribute? h
    rw [attribute?_of_isTest isTest] at h
    exact ⟨content, isTest, rfl, (Prod.mk.inj (Option.some.inj h)).1.symm⟩
  · rintro ⟨content, isTest, rfl, rfl⟩
    exact attribute?_of_isTest isTest rest

theorem IsTest.close_notMem {content : Text} (test : IsTest content) : ']' ∉ content := by
  have absent {p : Char → Bool} {word : Text} (all : word.all p = true) (not : p ']' = false) : ']' ∉ word := by
    intro member
    rw [List.all_eq_true.mp all ']' member] at not
    cases not
  cases test with
  | parts blank₁ named name_all blank₂ operator blank₃ valued value_all blank₄ =>
    simp only [List.mem_append, not_or]
    refine ⟨absent blank₁ rfl, absent name_all rfl, absent blank₂ rfl, ?_, absent blank₃ rfl, absent value_all rfl,
      absent blank₄ rfl⟩
    cases operator with
    | plain => decide
    | matching matcher =>
      intro member
      rcases List.mem_cons.mp member with rfl | member
      · cases matcher
      · exact absurd member (by decide)

def Unread (text : Text) : Prop := ∀ content rest, text = content ++ ']' :: rest → ¬IsTest content

theorem attribute?_eq_none_iff {text : Text} : attribute? text = none ↔ Unread text := by
  constructor
  · rintro none content rest rfl test
    rw [attribute?_of_isTest test] at none
    cases none
  · intro unread
    rw [Option.eq_none_iff_forall_ne_some]
    rintro ⟨test, rest⟩ found
    obtain ⟨content, isTest, same, -⟩ := attribute?_eq_some_iff.mp found
    exact unread content rest same isTest

theorem squeezeAttributes_test {content : Text} (test : IsTest content) (rest : Text) :
    squeezeAttributes ('[' :: (content ++ ']' :: rest)) =
      '[' :: (Text.visible content ++ ']' :: squeezeAttributes rest) := by
  rw [squeezeAttributes]
  split
  · split
    · next found =>
      rw [attribute?_of_isTest test] at found
      cases found
      rfl
    · next found =>
      rw [attribute?_of_isTest test] at found
      cases found
  · contradiction

theorem squeezeAttributes_cons {c : Char} {text : Text} (unread : c = '[' → Unread text) :
    squeezeAttributes (c :: text) = c :: squeezeAttributes text := by
  rw [squeezeAttributes]
  split
  · next bracket =>
    split
    · next found =>
      rw [attribute?_eq_none_iff.mpr (unread bracket)] at found
      cases found
    · rw [bracket]
  · rfl

/-- A text is read as it is squeezed: test by test, and character by character where no
test starts. -/
theorem squeeze_induction {motive : Text → Prop} (nil : motive [])
    (test : ∀ content rest, IsTest content → motive rest → motive ('[' :: (content ++ ']' :: rest)))
    (cons : ∀ c text, (c = '[' → Unread text) → motive text → motive (c :: text)) (text : Text) : motive text := by
  fun_induction squeezeAttributes text with
  | case1 => exact nil
  | case2 rest inner after found ih =>
    obtain ⟨content, isTest, rfl, -⟩ := attribute?_eq_some_iff.mp found
    exact test content after isTest ih
  | case3 rest found ih => exact cons '[' rest (fun _ => attribute?_eq_none_iff.mp found) ih
  | case4 c rest bracket ih => exact cons c rest (fun same => absurd same bracket) ih

theorem mem_of_squeezeAttributes {text : Text} {c : Char} (member : c ∈ squeezeAttributes text) : c ∈ text := by
  induction text using squeeze_induction with
  | nil => simp [squeezeAttributes] at member
  | test content rest test ih =>
    rw [squeezeAttributes_test test] at member
    simp only [List.mem_cons, List.mem_append] at member ⊢
    rcases member with here | inside | close | behind
    · exact .inl here
    · exact .inr (.inl (List.mem_filter.mp inside).1)
    · exact .inr (.inr (.inl close))
    · exact .inr (.inr (.inr (ih behind)))
  | cons d text unread ih =>
    rw [squeezeAttributes_cons unread] at member
    exact List.mem_cons.mpr ((List.mem_cons.mp member).imp_right ih)

end Selector

end Stylesheet

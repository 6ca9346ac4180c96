import Mathlib.Data.List.TakeWhile
import Stylesheet.Proofs.Text.Spacing

/-! Selectors in normal form. A text is left as it is by squeezing exactly if no attribute
test in it has blanks; but tests are looked for from left to right and only once, so
squeezing one test can turn the bracket around it into another. -/
namespace Stylesheet

namespace Selector

variable {text content outer inner before rest : Text}

/-- Two ways to cut a text behind a closing bracket, of which the first has none before. -/
theorem split_close {a b x y : Text} (inside : ']' ∉ a) (same : a ++ ']' :: x = b ++ ']' :: y) :
    b = a ∧ y = x ∨ ∃ d, b = a ++ ']' :: d ∧ x = d ++ ']' :: y := by
  rcases List.append_eq_append_iff.mp same with ⟨d, rfl, tail⟩ | ⟨d, rfl, tail⟩
  · cases d with
    | nil => exact .inl ⟨by simp, (List.cons.inj tail).2.symm⟩
    | cons c d =>
      obtain ⟨rfl, rfl⟩ := List.cons.inj tail
      exact .inr ⟨d, rfl, rfl⟩
  · cases d with
    | nil => exact .inl ⟨by simp, (List.cons.inj tail).2⟩
    | cons c d =>
      obtain ⟨rfl, -⟩ := List.cons.inj tail
      exact absurd (by simp) inside

/-- Behind its last closing bracket a text is cut at an opening one. -/
theorem split_open {a b d : Text} (inside : ']' ∉ content) (same : a ++ ']' :: d = b ++ '[' :: content) :
    ∃ b', b = a ++ ']' :: b' ∧ d = b' ++ '[' :: content := by
  rcases List.append_eq_append_iff.mp same with ⟨e, rfl, tail⟩ | ⟨e, rfl, tail⟩
  · cases e with
    | nil => cases tail
    | cons c e =>
      obtain ⟨rfl, rfl⟩ := List.cons.inj tail
      exact ⟨e, rfl, rfl⟩
  · cases e with
    | nil => cases tail
    | cons c e =>
      obtain ⟨-, rfl⟩ := List.cons.inj tail
      exact absurd (by simp) inside

/-- A pair of brackets stands within another one at the front, or behind it. -/
theorem brackets_cases {a after : Text} (inside : ']' ∉ a) (closed : ']' ∉ content)
    (same : '[' :: (a ++ ']' :: after) = before ++ '[' :: (content ++ ']' :: rest)) :
    before ++ '[' :: content = '[' :: a ∨
      ∃ before', before = '[' :: (a ++ ']' :: before') ∧ after = before' ++ '[' :: (content ++ ']' :: rest) := by
  have front : ']' ∉ '[' :: a := by simp [inside]
  rw [← List.cons_append, ← List.cons_append, ← List.append_assoc] at same
  rcases split_close front same with ⟨whole, -⟩ | ⟨d, cut, rfl⟩
  · exact .inl whole
  · obtain ⟨before', rfl, rfl⟩ := split_open closed cut.symm
    exact .inr ⟨before', rfl, by simp⟩

/-- Of the brackets that are open, the one before `inner` is the first to start a test. -/
structure IsFirst (outer inner : Text) : Prop where
  isTest : IsTest inner
  unread : ∀ before between, outer = before ++ '[' :: between → ¬IsTest (between ++ '[' :: inner)

theorem IsFirst.tail (front : Text) (first : IsFirst (front ++ outer) inner) : IsFirst outer inner := by
  refine ⟨first.isTest, ?_⟩
  rintro before between rfl
  exact first.unread (front ++ before) between (by simp)

theorem unread_of_not_isTest (inside : ']' ∉ content) (noTest : ¬IsTest content) (rest : Text) :
    Unread (content ++ ']' :: rest) := by
  intro content' rest' same test
  rcases split_close inside same with ⟨rfl, -⟩ | ⟨d, rfl, -⟩
  · exact noTest test
  · exact test.close_notMem (by simp)

/-- Without a test before its closing bracket a text stays as it is up to there. -/
theorem squeezeAttributes_none (inside : ']' ∉ text)
    (none : ∀ before content, text = before ++ '[' :: content → ¬IsTest content) (rest : Text) :
    squeezeAttributes (text ++ ']' :: rest) = text ++ ']' :: squeezeAttributes rest := by
  induction text with
  | nil => exact squeezeAttributes_cons fun bracket => absurd bracket (by decide)
  | cons c text ih =>
    rw [List.mem_cons, not_or] at inside
    rw [List.cons_append, squeezeAttributes_cons, ih inside.2, List.cons_append]
    · rintro before content rfl
      exact none (c :: before) content rfl
    · rintro rfl
      exact unread_of_not_isTest inside.2 (none [] text rfl) rest

/-- Up to the first test a text stays as it is. -/
theorem squeezeAttributes_first (inside : ']' ∉ outer) (first : IsFirst outer inner) (rest : Text) :
    squeezeAttributes (outer ++ '[' :: (inner ++ ']' :: rest)) =
      outer ++ '[' :: (Text.visible inner ++ ']' :: squeezeAttributes rest) := by
  induction outer with
  | nil => exact squeezeAttributes_test first.isTest rest
  | cons c outer ih =>
    rw [List.mem_cons, not_or] at inside
    rw [List.cons_append, squeezeAttributes_cons, ih inside.2 (first.tail [c]), List.cons_append]
    rintro rfl
    have closed : ']' ∉ outer ++ '[' :: inner := by simp [inside.2, first.isTest.close_notMem]
    have unread := unread_of_not_isTest closed (first.unread [] outer rfl) rest
    rwa [List.append_assoc, List.cons_append] at unread

/-- Before a closing bracket there is a first test or none. -/
theorem exists_first (text : Text) :
    (∀ before content, text = before ++ '[' :: content → ¬IsTest content) ∨
      ∃ outer inner, text = outer ++ '[' :: inner ∧ IsFirst outer inner := by
  induction text with
  | nil => exact .inl (by simp)
  | cons c text ih =>
    by_cases here : c = '[' ∧ IsTest text
    · obtain ⟨rfl, test⟩ := here
      exact .inr ⟨[], text, rfl, test, by simp⟩
    · rcases ih with none | ⟨outer, inner, rfl, first⟩
      · left
        intro before content same test
        rcases List.append_eq_cons_iff.mp same.symm with ⟨rfl, same⟩ | ⟨before, rfl, rfl⟩
        · cases same
          exact here ⟨rfl, test⟩
        · exact none before content rfl test
      · refine .inr ⟨c :: outer, inner, rfl, first.isTest, ?_⟩
        intro before between same test
        rcases List.append_eq_cons_iff.mp same.symm with ⟨rfl, same⟩ | ⟨before, rfl, rfl⟩
        · cases same
          exact here ⟨rfl, test⟩
        · exact first.unread before between rfl test

theorem any_visible (text : Text) : (Text.visible text).any Text.isBlank = false := by
  rw [List.any_eq_false]
  intro c member
  simpa using (List.mem_filter.mp member).2

theorem visible_eq_self (visible : text.any Text.isBlank = false) : Text.visible text = text := by
  rw [Text.visible, List.filter_eq_self]
  intro c member
  simpa using List.any_eq_false.mp visible c member

theorem visible_length_lt (blank : text.any Text.isBlank = true) : (Text.visible text).length < text.length := by
  obtain ⟨c, member, blank⟩ := List.any_eq_true.mp blank
  rw [Text.visible, List.length_filter_lt_length_iff_exists]
  exact ⟨c, member, by simp [blank]⟩

theorem squeezeAttributes_test_length_lt (test : IsTest content) (blank : content.any Text.isBlank = true)
    (rest : Text) :
    (squeezeAttributes ('[' :: (content ++ ']' :: rest))).length < ('[' :: (content ++ ']' :: rest)).length := by
  have shorter := visible_length_lt blank
  have rest_le := (respaced_squeezeAttributes rest).length_le
  rw [squeezeAttributes_test test]
  simp only [List.length_cons, List.length_append]
  omega

/-- A test with blanks is shortened, where it stands or in a test around it. -/
theorem squeezeAttributes_length_lt (test : IsTest content) (blank : content.any Text.isBlank = true)
    (whole : text = before ++ '[' :: (content ++ ']' :: rest)) : (squeezeAttributes text).length < text.length := by
  induction text using squeeze_induction generalizing before with
  | nil => simp at whole
  | test outer after outerTest ih =>
    rcases brackets_cases outerTest.close_notMem test.close_notMem whole with within | ⟨before', -, behind⟩
    · refine squeezeAttributes_test_length_lt outerTest ?_ after
      have some : ('[' :: outer).any Text.isBlank = true := by simp [← within, blank]
      exact some
    · have shorter := ih behind
      have visible_le : (Text.visible outer).length ≤ outer.length := List.length_filter_le _ _
      rw [squeezeAttributes_test outerTest]
      simp only [List.length_cons, List.length_append]
      omega
  | cons c text unread ih =>
    rw [squeezeAttributes_cons unread]
    rcases List.append_eq_cons_iff.mp whole.symm with ⟨rfl, same⟩ | ⟨before, rfl, same⟩
    · obtain ⟨rfl, tail⟩ := List.cons.inj same
      exact absurd test (unread rfl content rest tail.symm)
    · exact Nat.succ_lt_succ (ih same)

/-- Squeezing leaves a text as it is exactly if no test in it has blanks. -/
theorem squeezeAttributes_eq_self_iff (text : Text) : squeezeAttributes text = text ↔
    ∀ content, '[' :: (content ++ [']']) <:+: text → IsTest content → content.any Text.isBlank = false := by
  constructor
  · rintro same content ⟨before, rest, rfl⟩ test
    rw [← Bool.not_eq_true]
    intro blank
    have whole : before ++ '[' :: (content ++ [']']) ++ rest = before ++ '[' :: (content ++ ']' :: rest) := by simp
    have shorter := squeezeAttributes_length_lt test blank whole
    rw [same] at shorter
    exact Nat.lt_irrefl _ shorter
  · intro visible
    induction text using squeeze_induction with
    | nil => rw [squeezeAttributes]
    | test content rest test ih =>
      have here := visible content ⟨[], rest, by simp⟩ test
      rw [squeezeAttributes_test test, visible_eq_self here, ih]
      intro content' inside
      exact visible content' (inside.trans ⟨'[' :: (content ++ [']']), [], by simp⟩)
    | cons c text unread ih =>
      rw [squeezeAttributes_cons unread, ih]
      intro content inside
      exact visible content (List.infix_cons inside)

/-- A bracket that starts no test as it stands, but one with blanks when the test inside it
has lost its own. -/
def Reopens (text : Text) : Prop :=
  ∃ before outer inner rest, text = before ++ '[' :: (outer ++ '[' :: (inner ++ ']' :: rest)) ∧
    IsFirst (before ++ '[' :: outer) inner ∧ IsTest (outer ++ '[' :: Text.visible inner) ∧
    outer.any Text.isBlank = true

theorem Reopens.behind (reopens : Reopens rest) (front : Text) : Reopens (front ++ ']' :: rest) := by
  obtain ⟨before, outer, inner, after, rfl, first, test, blank⟩ := reopens
  refine ⟨front ++ ']' :: before, outer, inner, after, by simp, ⟨first.isTest, ?_⟩, test, blank⟩
  intro before' between same isTest
  have inside : ']' ∉ between := fun member => isTest.close_notMem (List.mem_append_left _ member)
  rw [List.append_assoc, List.cons_append] at same
  obtain ⟨b, -, cut⟩ := split_open inside same
  exact first.unread b between cut isTest

theorem Reopens.cons {c : Char} (reopens : Reopens text) (unread : c = '[' → Unread text) : Reopens (c :: text) := by
  obtain ⟨before, outer, inner, after, rfl, first, test, blank⟩ := reopens
  refine ⟨c :: before, outer, inner, after, rfl, ⟨first.isTest, ?_⟩, test, blank⟩
  intro before' between same isTest
  rcases List.append_eq_cons_iff.mp same.symm with ⟨rfl, tail⟩ | ⟨b, rfl, tail⟩
  · obtain ⟨rfl, rfl⟩ := List.cons.inj tail
    exact unread rfl _ after (by simp) isTest
  · exact first.unread b between tail isTest

/-- A bracket that starts a test only once the text behind it is squeezed. -/
theorem reopens_of_unread (unread : Unread text) (squeezed : squeezeAttributes text = content ++ ']' :: rest)
    (test : IsTest content) (blank : content.any Text.isBlank = true) : Reopens ('[' :: text) := by
  have closes : ']' ∈ text := mem_of_squeezeAttributes (by simp [squeezed])
  obtain ⟨front, after, rfl, inside⟩ := List.eq_append_cons_of_mem closes
  rcases exists_first front with none | ⟨outer, inner, rfl, first⟩
  · rw [squeezeAttributes_none inside none] at squeezed
    rcases split_close inside squeezed with ⟨rfl, -⟩ | ⟨d, rfl, -⟩
    · exact absurd test (unread _ after rfl)
    · exact absurd (by simp) test.close_notMem
  · have closed : ']' ∉ outer := fun member => inside (List.mem_append_left _ member)
    have shown : ']' ∉ outer ++ '[' :: Text.visible inner := by
      simp only [List.mem_append, List.mem_cons, not_or]
      exact ⟨closed, by decide, fun member => first.isTest.close_notMem (List.mem_filter.mp member).1⟩
    rw [List.append_assoc, List.cons_append, squeezeAttributes_first closed first, ← List.cons_append,
      ← List.append_assoc] at squeezed
    rcases split_close shown squeezed with ⟨rfl, -⟩ | ⟨d, rfl, -⟩
    · refine ⟨[], outer, inner, after, by simp, ⟨first.isTest, ?_⟩, test, ?_⟩
      · intro before between same isTest
        rcases List.append_eq_cons_iff.mp same.symm with ⟨rfl, tail⟩ | ⟨b, rfl, tail⟩
        · obtain ⟨-, rfl⟩ := List.cons.inj tail
          exact unread _ after rfl isTest
        · exact first.unread b between tail isTest
      · simpa [any_visible, show Text.isBlank '[' = false from rfl] using blank
    · exact absurd (by simp) test.close_notMem

/-- A test with blanks is left in a squeezed text only where a bracket reopens. -/
theorem reopens_of_squeezed (squeezed : squeezeAttributes text = before ++ '[' :: (content ++ ']' :: rest))
    (test : IsTest content) (blank : content.any Text.isBlank = true) : Reopens text := by
  induction text using squeeze_induction generalizing before with
  | nil => simp [squeezeAttributes] at squeezed
  | test outer after outerTest ih =>
    have shown : ']' ∉ Text.visible outer := fun member => outerTest.close_notMem (List.mem_filter.mp member).1
    rw [squeezeAttributes_test outerTest] at squeezed
    rcases brackets_cases shown test.close_notMem squeezed with within | ⟨before', -, behind⟩
    · have none : ('[' :: Text.visible outer).any Text.isBlank = false := any_visible outer
      simp [← within, blank] at none
    · exact (ih behind).behind ('[' :: outer)
  | cons c text unread ih =>
    rw [squeezeAttributes_cons unread] at squeezed
    rcases List.append_eq_cons_iff.mp squeezed.symm with ⟨rfl, same⟩ | ⟨before, rfl, same⟩
    · obtain ⟨rfl, tail⟩ := List.cons.inj same
      exact reopens_of_unread (unread rfl) tail.symm test blank
    · exact (ih same).cons unread

/-- Where a bracket reopens, a test with blanks is left. -/
theorem Reopens.squeezed (reopens : Reopens text) :
    ∃ content, '[' :: (content ++ [']']) <:+: squeezeAttributes text ∧ IsTest content ∧
      content.any Text.isBlank = true := by
  obtain ⟨before, outer, inner, rest, whole, first, test, blank⟩ := reopens
  have closed : ']' ∉ outer := fun member => test.close_notMem (List.mem_append_left _ member)
  have inside : ']' ∉ outer ++ '[' :: inner := by simp [closed, first.isTest.close_notMem]
  refine ⟨outer ++ '[' :: Text.visible inner, ?_, test, by simp [blank]⟩
  induction text using squeeze_induction generalizing before with
  | nil => simp at whole
  | test content after contentTest ih =>
    have regrouped : '[' :: (content ++ ']' :: after) = before ++ '[' :: ((outer ++ '[' :: inner) ++ ']' :: rest) := by
      simp [whole]
    rcases brackets_cases contentTest.close_notMem inside regrouped with within | ⟨before', rfl, behind⟩
    · rw [← List.cons_append, ← List.append_assoc] at within
      rcases List.append_eq_cons_iff.mp within with ⟨empty, -⟩ | ⟨between, front, rfl⟩
      · simp at empty
      · exact absurd contentTest (first.unread [] between front)
    · rw [squeezeAttributes_test contentTest]
      have later := ih before' (by simp [behind]) (IsFirst.tail ('[' :: (content ++ [']'])) (by simpa using first))
      exact later.trans ⟨'[' :: (Text.visible content ++ [']']), [], by simp⟩
  | cons c text unread ih =>
    rw [squeezeAttributes_cons unread]
    rcases List.append_eq_cons_iff.mp whole.symm with ⟨rfl, same⟩ | ⟨before, rfl, same⟩
    · obtain ⟨rfl, rfl⟩ := List.cons.inj same
      rw [squeezeAttributes_first closed (first.tail ['['])]
      exact ⟨[], squeezeAttributes rest, by simp⟩
    · exact List.infix_cons (ih before same (first.tail [c]))

end Selector

namespace Text

variable {word : Bool} {text : Text}

theorem collapse_of_spacedBehind (spaced : spacedBehind word text = true) : collapse text = text := by
  induction text generalizing word with
  | nil => rfl
  | cons c rest ih =>
    rw [collapse.eq_def]
    dsimp only
    split
    · next blank =>
      obtain ⟨rfl, -, others⟩ := (spacedBehind_cons_of_blank blank).mp spaced
      obtain ⟨d, first, visible⟩ := exists_head_of_spacedBehind others
      cases rest with
      | nil => cases first
      | cons e rest =>
        cases first
        rw [ih others]
        simp [visible]
    · next visible =>
      rw [spacedBehind_cons_of_word (Bool.eq_false_iff.mpr visible)] at spaced
      rw [ih spaced]

theorem strip_of_spacedBehind (spaced : spacedBehind false text = true) : strip text = text := by
  have last : text.reverse.dropWhile isBlank = text.reverse := by
    rw [List.dropWhile_eq_self_iff]
    intro nonempty blank
    have ends : text.getLast? = some text.reverse[0] := by
      rw [← List.head?_reverse, List.head?_eq_getElem?, List.getElem?_eq_getElem nonempty]
    obtain ⟨front, whole⟩ := List.getLast?_eq_some_iff.mp ends
    obtain ⟨-, -, d, behind, -⟩ := isSpaced_of_spacedBehind spaced front _ [] whole blank
    cases behind
  have first : text.dropWhile isBlank = text := by
    obtain ⟨d, first, visible⟩ := exists_head_of_spacedBehind spaced
    obtain ⟨rest, rfl⟩ := List.head?_eq_some_iff.mp first
    exact List.dropWhile_cons_of_neg (by simp [visible])
  rw [strip, first, dropEnd, last, List.reverse_reverse]

end Text

namespace Selector

/-- Blanks are collapsed in a normal form already. -/
theorem normalize_normalize (selector : Text) :
    normalize (normalize selector) = squeezeAttributes (normalize selector) := by
  by_cases named : normalize selector = []
  · rw [named]
    rfl
  · have spaced := spacedBehind_normalize named
    rw [normalize, Text.strip_of_spacedBehind spaced, Text.collapse_of_spacedBehind spaced]

/-- What reopens is a bracket inside another one. -/
theorem Reopens.nested {selector : Text} (reopens : Reopens (Text.collapse (Text.strip selector))) :
    ∃ before outer rest, selector = before ++ '[' :: (outer ++ '[' :: rest) ∧ ']' ∉ outer := by
  obtain ⟨before, outer, inner, rest, whole, -, test, -⟩ := reopens
  have closed : ']' ∉ outer := fun member => test.close_notMem (List.mem_append_left _ member)
  have shown : Text.visible selector =
      Text.visible before ++ '[' :: (Text.visible outer ++ '[' :: Text.visible (inner ++ ']' :: rest)) := by
    rw [← (Text.respaced_strip selector).visible_eq, ← (Text.respaced_collapse _).visible_eq, whole]
    simp [Text.visible, show Text.isBlank '[' = false from rfl]
  obtain ⟨before', more, rfl, -, shown⟩ := List.filter_eq_append_iff.mp shown
  obtain ⟨gap, more, rfl, -, -, shown⟩ := List.filter_eq_cons_iff.mp shown
  obtain ⟨outer', more, rfl, same, shown⟩ := List.filter_eq_append_iff.mp shown
  obtain ⟨gap', rest', rfl, blank, -, -⟩ := List.filter_eq_cons_iff.mp shown
  refine ⟨before' ++ gap, outer' ++ gap', rest', by simp, ?_⟩
  rw [List.mem_append]
  rintro (member | member)
  · have kept : ']' ∈ Text.visible outer := same ▸ List.mem_filter.mpr ⟨member, rfl⟩
    exact closed (List.mem_filter.mp kept).1
  · exact blank ']' member rfl

/-- Normalizing a selector again changes nothing exactly if no attribute test is left with
blanks in it, and one is left only where a bracket reopens, which takes a bracket inside
another one. -/
theorem normalize_stable_iff (selector : Text) :
    (normalize (normalize selector) = normalize selector ↔
      ∀ content, '[' :: (content ++ [']']) <:+: normalize selector → IsTest content →
        content.any Text.isBlank = false) ∧
    (normalize (normalize selector) = normalize selector ↔ ¬Reopens (Text.collapse (Text.strip selector))) ∧
    ((∀ before outer rest, selector = before ++ '[' :: (outer ++ '[' :: rest) → ']' ∈ outer) →
      normalize (normalize selector) = normalize selector) := by
  have tests := squeezeAttributes_eq_self_iff (normalize selector)
  rw [← normalize_normalize] at tests
  have stable : normalize (normalize selector) = normalize selector ↔
      ¬Reopens (Text.collapse (Text.strip selector)) := by
    rw [tests]
    constructor
    · intro none reopens
      obtain ⟨content, inside, test, blank⟩ := reopens.squeezed
      rw [none content inside test] at blank
      cases blank
    · rintro closed content ⟨before, rest, whole⟩ test
      apply Bool.eq_false_iff.mpr
      intro blank
      have left : normalize selector = before ++ '[' :: (content ++ ']' :: rest) := by simp [← whole]
      exact closed (reopens_of_squeezed left test blank)
  refine ⟨tests, stable, fun flat => stable.mpr fun reopens => ?_⟩
  obtain ⟨before, outer, rest, whole, closed⟩ := reopens.nested
  exact closed (flat before outer rest whole)

theorem normalize_stable_attribute :
    (∀ before outer rest, "a[ b = c ]".toList = before ++ '[' :: (outer ++ '[' :: rest) → ']' ∈ outer) ∧
      normalize "a[ b = c ]".toList = "a[b=c]".toList ∧
      normalize (normalize "a[ b = c ]".toList) = normalize "a[ b = c ]".toList := by
  have flat (before outer rest : Text) (same : "a[ b = c ]".toList = before ++ '[' :: (outer ++ '[' :: rest)) :
      ']' ∈ outer := by
    have brackets := congrArg (List.count '[') same
    rw [show List.count '[' "a[ b = c ]".toList = 1 by decide] at brackets
    simp only [List.count_append, List.count_cons_self] at brackets
    omega
  exact ⟨flat, by decide +kernel, (normalize_stable_iff _).2.2 flat⟩

/-- A test in a string is squeezed, which opens the one around it to the next round. -/
theorem normalize_unstable :
    normalize "a[ b = \"[ c = d ]\" ]".toList = "a[ b = \"[c=d]\" ]".toList ∧
      normalize (normalize "a[ b = \"[ c = d ]\" ]".toList) ≠ normalize "a[ b = \"[ c = d ]\" ]".toList := by
  decide +kernel

end Selector

end Stylesheet

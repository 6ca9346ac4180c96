import Stylesheet.Proofs.Selector

/-! The spacing of selectors. In normal form the only blanks of a selector are single
spaces, each between two characters that are no blanks: taking the blanks off the ends and
making one space of every run comes to that, and leaving out the blanks of an attribute
test, which starts and ends with a bracket, keeps it. All other characters stay as they
stood. -/
namespace Stylesheet

namespace Text

/-- Every blank is a space with other characters on both sides. -/
def IsSpaced (text : Text) : Prop :=
  ∀ before c after, text = before ++ c :: after → isBlank c = true →
    c = ' ' ∧ (∃ d ∈ before.getLast?, isBlank d = false) ∧ ∃ d ∈ after.head?, isBlank d = false

/-- The same read from left to right, behind a character that is a blank or not, and with
another character at the end. -/
def spacedBehind (word : Bool) : Text → Bool
  | [] => word
  | c :: rest => if isBlank c then c == ' ' && word && spacedBehind false rest else spacedBehind true rest

variable {word : Bool} {text rest : Text} {c : Char}

theorem spacedBehind_cons_of_blank (blank : isBlank c = true) :
    spacedBehind word (c :: rest) = true ↔ c = ' ' ∧ word = true ∧ spacedBehind false rest = true := by
  rw [spacedBehind, if_pos blank, Bool.and_eq_true, Bool.and_eq_true, beq_iff_eq, and_assoc]

theorem spacedBehind_cons_of_word (visible : isBlank c = false) :
    spacedBehind word (c :: rest) = spacedBehind true rest := by
  rw [spacedBehind, if_neg (by simp [visible])]

/-- Behind a blank comes another character. -/
theorem exists_head_of_spacedBehind (spaced : spacedBehind false text = true) :
    ∃ d ∈ text.head?, isBlank d = false := by
  cases text with
  | nil => cases spaced
  | cons c rest =>
    by_cases blank : isBlank c = true
    · exact absurd ((spacedBehind_cons_of_blank blank).mp spaced).2.1 (by simp)
    · exact ⟨c, rfl, Bool.eq_false_iff.mpr blank⟩

theorem getLast?_cons_of_mem {before : Text} {d e : Char} (last : e ∈ before.getLast?) :
    e ∈ (d :: before).getLast? := by
  simp [List.getLast?_cons, Option.mem_def.mp last]

/-- A blank in a spaced text, with what is on both sides of it. On the left may be the
word that the text stands behind. -/
theorem blank_of_spacedBehind {before after : Text} (blank : isBlank c = true)
    (spaced : spacedBehind word (before ++ c :: after) = true) :
    c = ' ' ∧ (before = [] ∧ word = true ∨ ∃ d ∈ before.getLast?, isBlank d = false) ∧
      ∃ d ∈ after.head?, isBlank d = false := by
  induction before generalizing word with
  | nil =>
    obtain ⟨space, here, rest⟩ := (spacedBehind_cons_of_blank blank).mp spaced
    exact ⟨space, .inl ⟨rfl, here⟩, exists_head_of_spacedBehind rest⟩
  | cons d before ih =>
    rw [List.cons_append] at spaced
    by_cases gap : isBlank d = true
    · obtain ⟨space, left, right⟩ := ih ((spacedBehind_cons_of_blank gap).mp spaced).2.2
      rcases left with ⟨-, wrong⟩ | ⟨e, last, visible⟩
      · cases wrong
      · exact ⟨space, .inr ⟨e, getLast?_cons_of_mem last, visible⟩, right⟩
    · have visible := Bool.eq_false_iff.mpr gap
      rw [spacedBehind_cons_of_word visible] at spaced
      obtain ⟨space, left, right⟩ := ih spaced
      refine ⟨space, .inr ?_, right⟩
      rcases left with ⟨rfl, -⟩ | ⟨e, last, shown⟩
      · exact ⟨d, rfl, visible⟩
      · exact ⟨e, getLast?_cons_of_mem last, shown⟩

theorem isSpaced_of_spacedBehind (spaced : spacedBehind false text = true) : IsSpaced text := by
  intro before c after same blank
  subst same
  obtain ⟨space, left, right⟩ := blank_of_spacedBehind blank spaced
  rcases left with ⟨-, wrong⟩ | left
  · cases wrong
  · exact ⟨space, left, right⟩

/-- Behind a word the rest of a spaced text is spaced. -/
theorem spacedBehind_of_append {before : Text} (visible : isBlank c = false)
    (spaced : spacedBehind word (before ++ c :: rest) = true) : spacedBehind true rest = true := by
  induction before generalizing word with
  | nil => rwa [List.nil_append, spacedBehind_cons_of_word visible] at spaced
  | cons d before ih =>
    rw [List.cons_append] at spaced
    by_cases blank : isBlank d = true
    · exact ih ((spacedBehind_cons_of_blank blank).mp spaced).2.2
    · rw [spacedBehind_cons_of_word (Bool.eq_false_iff.mpr blank)] at spaced
      exact ih spaced

theorem spacedBehind_append_of_words {words : Text} (visible : ∀ c ∈ words, isBlank c = false) :
    spacedBehind true (words ++ rest) = spacedBehind true rest := by
  induction words with
  | nil => rfl
  | cons c words ih =>
    rw [List.forall_mem_cons] at visible
    rw [List.cons_append, spacedBehind_cons_of_word visible.1, ih visible.2]

theorem strip_head (text : Text) : ∀ c ∈ (strip text).head?, isBlank c = false := by
  intro c first
  have kept : strip text <+: text.dropWhile isBlank := by
    rw [strip, dropEnd, ← List.reverse_suffix, List.reverse_reverse]
    exact List.dropWhile_suffix _
  obtain ⟨more, whole⟩ := kept
  have here : c ∈ (text.dropWhile isBlank).head? := by
    rw [← whole, List.head?_append, Option.mem_def.mp first]
    rfl
  have stop := Scan.head_dropWhile isBlank text
  rw [Option.mem_def.mp here] at stop
  exact stop

theorem strip_last (text : Text) : ∀ c ∈ (strip text).getLast?, isBlank c = false := by
  intro c last
  have stop := Scan.head_dropWhile isBlank (text.dropWhile isBlank).reverse
  rw [strip, dropEnd, List.getLast?_reverse] at last
  rw [Option.mem_def.mp last] at stop
  exact stop

/-- One space for every run of blanks, where a word stands on both sides of each run. -/
theorem spacedBehind_collapse (ends : ∀ c ∈ text.getLast?, isBlank c = false)
    (starts : word = true ∨ ∃ c ∈ text.head?, isBlank c = false) : spacedBehind word (collapse text) = true := by
  fun_induction collapse text generalizing word with
  | case1 =>
    rcases starts with rfl | ⟨c, first, -⟩
    · rfl
    · cases first
  | case2 c blank =>
    rw [ends c rfl] at blank
    cases blank
  | case3 c blank d tail again ih =>
    rw [List.getLast?_cons_cons] at ends
    have behind : word = true := starts.resolve_right (by simp [blank])
    exact ih ends (.inl behind)
  | case4 c blank d tail once ih =>
    rw [List.getLast?_cons_cons] at ends
    have behind : word = true := starts.resolve_right (by simp [blank])
    apply (spacedBehind_cons_of_blank rfl).mpr
    exact ⟨rfl, behind, ih ends (.inr ⟨d, rfl, Bool.eq_false_iff.mpr once⟩)⟩
  | case5 c rest visible ih =>
    rw [spacedBehind_cons_of_word (Bool.eq_false_iff.mpr visible)]
    apply ih _ (.inl rfl)
    exact fun d last => ends d (getLast?_cons_of_mem last)

end Text

namespace Selector

theorem spacedBehind_squeezeAttributes {word : Bool} {text : Text} (spaced : Text.spacedBehind word text = true) :
    Text.spacedBehind word (squeezeAttributes text) = true := by
  induction text using squeeze_induction generalizing word with
  | nil => rwa [squeezeAttributes]
  | test content rest test ih =>
    have whole : Text.spacedBehind word (('[' :: content) ++ ']' :: rest) = true := spaced
    have behind : Text.spacedBehind true rest = true := Text.spacedBehind_of_append rfl whole
    have visible : ∀ c ∈ Text.visible content, Text.isBlank c = false := by simp [Text.visible]
    rw [squeezeAttributes_test test, Text.spacedBehind_cons_of_word rfl, Text.spacedBehind_append_of_words visible,
      Text.spacedBehind_cons_of_word rfl]
    exact ih behind
  | cons c text unread ih =>
    rw [squeezeAttributes_cons unread]
    by_cases blank : Text.isBlank c = true
    · obtain ⟨space, behind, others⟩ := (Text.spacedBehind_cons_of_blank blank).mp spaced
      exact (Text.spacedBehind_cons_of_blank blank).mpr ⟨space, behind, ih others⟩
    · rw [Text.spacedBehind_cons_of_word (Bool.eq_false_iff.mpr blank)] at spaced ⊢
      exact ih spaced

theorem spacedBehind_normalize {selector : Text} (named : normalize selector ≠ []) :
    Text.spacedBehind false (normalize selector) = true := by
  apply spacedBehind_squeezeAttributes
  apply Text.spacedBehind_collapse (Text.strip_last selector)
  have first := Text.strip_head selector
  cases stripped : Text.strip selector with
  | nil =>
    rw [normalize, stripped] at named
    rw [Text.collapse, squeezeAttributes] at named
    exact absurd rfl named
  | cons c rest =>
    rw [stripped] at first
    exact .inr ⟨c, rfl, first c rfl⟩

/-- A selector in normal form is empty or spaced. -/
theorem isSpaced_normalize {selector : Text} (named : normalize selector ≠ []) :
    Text.IsSpaced (normalize selector) := Text.isSpaced_of_spacedBehind (spacedBehind_normalize named)

/-- Normalizing a selector touches nothing but its blanks: the other characters are the
same in the same order, each blank that is left is a single space between two of them, and
two that touched touch again at the same place. -/
theorem normalize_touches_blanks (selector : Text) :
    Text.visible (normalize selector) = Text.visible selector ∧ Text.IsSpaced (normalize selector) ∧
      ∀ before c d after, selector = before ++ c :: d :: after → Text.isBlank c = false → Text.isBlank d = false →
        ∃ before' after', normalize selector = before' ++ c :: d :: after' ∧
          Text.visible before' = Text.visible before ∧ Text.visible after' = Text.visible after := by
  have respaced := respaced_normalize selector
  refine ⟨respaced.visible_eq, ?_, fun before c d after whole => respaced.touching whole⟩
  by_cases named : normalize selector = []
  · rw [named]
    intro before c after whole
    simp at whole
  · exact isSpaced_normalize named

theorem normalize_touches_blanks_attribute :
    normalize " a\t[ b = c ]  > \n d".toList = "a [b=c] > d".toList ∧
      Text.visible "a [b=c] > d".toList = "a[b=c]>d".toList ∧
      ∃ before' after', normalize " a[ b ^= c ] ".toList = before' ++ '^' :: '=' :: after' ∧
        Text.visible before' = "a[b".toList ∧ Text.visible after' = "c]".toList := by
  obtain ⟨-, -, touching⟩ := normalize_touches_blanks " a[ b ^= c ] ".toList
  obtain ⟨before', after', cut, front, back⟩ := touching " a[ b ".toList '^' '=' " c ] ".toList rfl rfl rfl
  exact ⟨by decide +kernel, by decide +kernel, before', after', cut, front, back⟩

end Selector

end Stylesheet

import Stylesheet.Proofs.Text.Attribute

/-! Texts that differ in their blanks only. A blank may be left out or give way to another
one, but none is put in, so all other characters stay in their order and those that touch
go on touching. Each step towards the normal form of a selector is of this kind. -/
namespace Stylesheet

namespace Text

/-- The second text is the first one with some blanks left out and others exchanged. -/
inductive Respaced : Text → Text → Prop where
  | nil : Respaced [] []
  | keep (c : Char) {text other : Text} (rest : Respaced text other) : Respaced (c :: text) (c :: other)
  | drop {c : Char} {text other : Text} (blank : isBlank c = true) (rest : Respaced text other) :
      Respaced (c :: text) other
  | exchange {c d : Char} {text other : Text} (blank : isBlank c = true) (blank' : isBlank d = true)
      (rest : Respaced text other) : Respaced (c :: text) (d :: other)

namespace Respaced

variable {text other third more more' : Text} {c : Char}

theorem refl (text : Text) : Respaced text text := by
  induction text with
  | nil => exact .nil
  | cons c text ih => exact .keep c ih

theorem trans (first : Respaced text other) (second : Respaced other third) : Respaced text third := by
  induction first generalizing third with
  | nil => exact second
  | keep c _ ih =>
    cases second with
    | keep _ rest => exact .keep c (ih rest)
    | drop blank rest => exact .drop blank (ih rest)
    | exchange blank blank' rest => exact .exchange blank blank' (ih rest)
  | drop blank _ ih => exact .drop blank (ih second)
  | exchange blank blank' _ ih =>
    cases second with
    | keep _ rest => exact .exchange blank blank' (ih rest)
    | drop _ rest => exact .drop blank (ih rest)
    | exchange _ blank'' rest => exact .exchange blank blank'' (ih rest)

theorem append (first : Respaced text other) (second : Respaced more more') :
    Respaced (text ++ more) (other ++ more') := by
  induction first with
  | nil => exact second
  | keep c _ ih => exact .keep c ih
  | drop blank _ ih => exact .drop blank ih
  | exchange blank blank' _ ih => exact .exchange blank blank' ih

theorem nil_of_blank (blank : text.all isBlank = true) : Respaced text [] := by
  induction text with
  | nil => exact .nil
  | cons c text ih =>
    rw [List.all_cons, Bool.and_eq_true] at blank
    exact .drop blank.1 (ih blank.2)

/-- What is made of a text is made of its parts. -/
theorem of_append (respaced : Respaced (text ++ more) other) :
    ∃ front back, other = front ++ back ∧ Respaced text front ∧ Respaced more back := by
  induction text generalizing other with
  | nil => exact ⟨[], other, rfl, .nil, respaced⟩
  | cons c text ih =>
    cases respaced with
    | keep _ rest =>
      obtain ⟨front, back, rfl, first, second⟩ := ih rest
      exact ⟨c :: front, back, rfl, .keep c first, second⟩
    | drop blank rest =>
      obtain ⟨front, back, rfl, first, second⟩ := ih rest
      exact ⟨front, back, rfl, .drop blank first, second⟩
    | @exchange _ d _ _ blank blank' rest =>
      obtain ⟨front, back, rfl, first, second⟩ := ih rest
      exact ⟨d :: front, back, rfl, .exchange blank blank' first, second⟩

/-- What is no blank stays. -/
theorem of_cons (respaced : Respaced (c :: text) other) (visible : isBlank c = false) :
    ∃ rest, other = c :: rest ∧ Respaced text rest := by
  cases respaced with
  | keep _ rest => exact ⟨_, rfl, rest⟩
  | drop blank => simp [visible] at blank
  | exchange blank => simp [visible] at blank

theorem visible_eq (respaced : Respaced text other) : visible other = visible text := by
  unfold visible
  induction respaced with
  | nil => rfl
  | keep c _ ih => rw [List.filter_cons, List.filter_cons, ih]
  | drop blank _ ih => rw [ih, List.filter_cons_of_neg (by simp [blank])]
  | exchange blank blank' _ ih =>
    rw [List.filter_cons_of_neg (by simp [blank']), ih, List.filter_cons_of_neg (by simp [blank])]

theorem length_le (respaced : Respaced text other) : other.length ≤ text.length := by
  induction respaced with
  | nil => exact Nat.le_refl _
  | keep c _ ih => exact Nat.succ_le_succ ih
  | drop _ _ ih => exact Nat.le_succ_of_le ih
  | exchange _ _ _ ih => exact Nat.succ_le_succ ih

/-- Characters that touch go on touching, between the same other characters as before. -/
theorem touching (respaced : Respaced text other) {before after : Text} {d : Char}
    (whole : text = before ++ c :: d :: after) (first : isBlank c = false) (second : isBlank d = false) :
    ∃ before' after', other = before' ++ c :: d :: after' ∧ visible before' = visible before ∧
      visible after' = visible after := by
  subst whole
  obtain ⟨front, _, rfl, here, rest⟩ := respaced.of_append
  obtain ⟨_, rfl, behind⟩ := rest.of_cons first
  obtain ⟨back, rfl, there⟩ := behind.of_cons second
  exact ⟨front, back, rfl, here.visible_eq, there.visible_eq⟩

end Respaced

theorem respaced_visible (text : Text) : Respaced text (visible text) := by
  induction text with
  | nil => exact .nil
  | cons c text ih =>
    unfold visible
    rw [List.filter_cons]
    split
    · exact .keep c ih
    · next blank => exact .drop (by simpa using blank) ih

theorem respaced_strip (text : Text) : Respaced text (strip text) := by
  have front (text : Text) : Respaced text (text.dropWhile isBlank) := by
    have blank : (text.takeWhile isBlank).all isBlank = true := List.all_takeWhile
    have gone := (Respaced.nil_of_blank blank).append (.refl (text.dropWhile isBlank))
    rwa [List.takeWhile_append_dropWhile, List.nil_append] at gone
  have back (text : Text) : Respaced text (dropEnd isBlank text) := by
    have blank : (text.reverse.takeWhile isBlank).reverse.all isBlank = true := by
      rw [List.all_reverse]
      exact List.all_takeWhile
    have gone := (Respaced.refl (dropEnd isBlank text)).append (.nil_of_blank blank)
    rwa [dropEnd, ← List.reverse_append, List.takeWhile_append_dropWhile, List.reverse_reverse,
      List.append_nil] at gone
  exact (front text).trans (back _)

theorem respaced_collapse (text : Text) : Respaced text (collapse text) := by
  fun_induction collapse text with
  | case1 => exact .nil
  | case2 c blank => exact .exchange blank rfl .nil
  | case3 c blank d tail again ih => exact .drop blank ih
  | case4 c blank d tail once ih => exact .exchange blank rfl ih
  | case5 c rest word ih => exact .keep c ih

end Text

namespace Selector

theorem respaced_squeezeAttributes (text : Text) : Text.Respaced text (squeezeAttributes text) := by
  induction text using squeeze_induction with
  | nil =>
    rw [squeezeAttributes]
    exact .nil
  | test content rest test ih =>
    rw [squeezeAttributes_test test]
    exact .keep '[' ((Text.respaced_visible content).append (.keep ']' ih))
  | cons c text unread ih =>
    rw [squeezeAttributes_cons unread]
    exact .keep c ih

theorem respaced_normalize (selector : Text) : Text.Respaced selector (normalize selector) :=
  ((Text.respaced_strip selector).trans (Text.respaced_collapse _)).trans (respaced_squeezeAttributes _)

end Selector

end Stylesheet

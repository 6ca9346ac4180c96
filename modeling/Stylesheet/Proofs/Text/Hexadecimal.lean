import Mathlib.Data.List.TakeWhile
import Stylesheet.Value.Evaluate

/-! Hexadecimal numerals: a word of hexadecimal digits is read digit by digit, each of
which is written again in lower case; a colour of three or six digits has their values
as its channels. -/
namespace Stylesheet

namespace Text

def isHexDigit (c : Char) : Bool := c.isDigit || ('a' ≤ c && c ≤ 'f') || ('A' ≤ c && c ≤ 'F')

/-- A fact about hexadecimal digits is checked digit by digit. -/
theorem forall_hexDigit {P : Char → Bool}
    (check : ∀ n < 128, isHexDigit (Char.ofNat n) = true → P (Char.ofNat n) = true) {c : Char}
    (digit : isHexDigit c = true) : P c = true := by
  have small : c.toNat < 128 := by
    simp only [isHexDigit, Char.isDigit, Bool.or_eq_true, Bool.and_eq_true, decide_eq_true_eq] at digit
    rcases digit with (⟨-, le⟩ | ⟨-, le⟩) | ⟨-, le⟩
    · exact Nat.lt_of_le_of_lt (UInt32.le_iff_toNat_le.mp le) (by decide)
    · exact Nat.lt_of_le_of_lt (UInt32.le_iff_toNat_le.mp le) (by decide)
    · exact Nat.lt_of_le_of_lt (UInt32.le_iff_toNat_le.mp le) (by decide)
  have found := check c.toNat small
  rw [Char.ofNat_toNat] at found
  exact found digit

def hexValue (c : Char) : Nat := (hexDigit? c).getD 0

theorem hexDigit?_eq {c : Char} (digit : isHexDigit c = true) : hexDigit? c = some (hexValue c) := by
  simpa using forall_hexDigit (P := fun c => hexDigit? c == some (hexValue c)) (by decide +kernel) digit

theorem hexValue_lt {c : Char} (digit : isHexDigit c = true) : hexValue c < 16 := by
  simpa using forall_hexDigit (P := fun c => hexValue c < 16) (by decide +kernel) digit

/-- Digits stand for themselves in a numeral. -/
theorem plain_of_hexDigit {c : Char} (digit : isHexDigit c = true) :
    isNumeralBlank c = false ∧ c ≠ '+' ∧ c ≠ '-' ∧ c ≠ '_' ∧ c ≠ '#' := by
  simpa [and_assoc] using forall_hexDigit
    (P := fun c => !isNumeralBlank c && c != '+' && c != '-' && c != '_' && c != '#') (by decide +kernel) digit

theorem digits?_hex {text : Text} (nonempty : text ≠ []) (digits : text.all isHexDigit = true) :
    digits? hexDigit? text = some (text.map hexValue) := by
  induction text with
  | nil => exact absurd rfl nonempty
  | cons c rest ih =>
    rw [List.all_cons, Bool.and_eq_true] at digits
    cases rest with
    | nil => rw [digits?, hexDigit?_eq digits.1]; rfl
    | cons d rest =>
      have plain := plain_of_hexDigit (List.all_eq_true.mp digits.2 d List.mem_cons_self)
      rw [digits?, hexDigit?_eq digits.1, ih (List.cons_ne_nil _ _) digits.2]
      · rfl
      · exact List.cons_ne_nil _ _
      · intro rest' same
        exact absurd (List.cons.inj same).1 plain.2.2.2.1

/-- A word of hexadecimal digits is a numeral. -/
theorem hex?_eq {text : Text} (nonempty : text ≠ []) (digits : text.all isHexDigit = true) :
    hex? text = some (ofDigits 16 (text.map hexValue)) := by
  have plain := fun c member => plain_of_hexDigit (List.all_eq_true.mp digits c member)
  have body : dropEnd isNumeralBlank (text.dropWhile isNumeralBlank) = text := by
    have kept : ∀ text' : Text, (∀ c ∈ text', c ∈ text) → text'.dropWhile isNumeralBlank = text' := fun text' inside =>
      List.dropWhile_eq_self_iff.mpr fun some => Bool.eq_false_iff.mp (plain _ (inside _ (List.getElem_mem some))).1
    rw [kept text fun _ member => member, dropEnd, kept text.reverse fun _ => List.mem_reverse.mp, List.reverse_reverse]
  obtain ⟨c, rest, rfl⟩ := List.exists_cons_of_ne_nil nonempty
  obtain ⟨-, notPlus, notMinus, -, -⟩ := plain c List.mem_cons_self
  unfold hex? integer?
  rw [body]
  dsimp only
  split
  · next same => exact absurd (List.cons.inj same).1 notPlus
  · next same => exact absurd (List.cons.inj same).1 notMinus
  · rw [digits?_hex nonempty digits]
    simp

theorem hexadecimal_digits : ∀ i < 16, ∀ j < 16,
    hexadecimal 2 (i * 16 + j) = [Nat.digitChar i, Nat.digitChar j] := by
  decide +kernel

theorem digitChar_hexValue {c : Char} (digit : isHexDigit c = true) : Nat.digitChar (hexValue c) = c.toLower := by
  simpa using forall_hexDigit (P := fun c => Nat.digitChar (hexValue c) == c.toLower) (by decide +kernel) digit

end Text

namespace Color

open Text

theorem isHexColor_cons (digits : Text) :
    Evaluate.isHexColor ('#' :: digits) = (!digits.isEmpty && digits.all isHexDigit) := rfl

theorem digits_of_isHexColor {raw : Text} (hex : Evaluate.isHexColor raw = true) :
    ∃ digits, raw = '#' :: digits ∧ digits.all isHexDigit = true := by
  unfold Evaluate.isHexColor at hex
  split at hex
  · next digits =>
    rw [Bool.and_eq_true] at hex
    exact ⟨digits, rfl, hex.2⟩
  · cases hex

theorem dropWhile_hash {digits : Text} (all : digits.all isHexDigit = true) :
    ('#' :: digits).dropWhile (· == '#') = digits := by
  rw [List.dropWhile_cons_of_pos (by rfl), List.dropWhile_eq_self_iff]
  intro some
  simpa using (plain_of_hexDigit (List.all_eq_true.mp all _ (List.getElem_mem some))).2.2.2.2

theorem ofHex_three {r g b : Char} (all : [r, g, b].all isHexDigit = true) (offset : Option Int) :
    ofHex ('#' :: [r, g, b]) offset =
      .ok ⟨hexValue r * 17, hexValue g * 17, hexValue b * 17, false, '#' :: [r, g, b]⟩ := by
  have one : ∀ c ∈ [r, g, b], hex? [c] = some (hexValue c : Int) := by
    intro c member
    rw [hex?_eq (List.cons_ne_nil _ _) (by simpa using List.all_eq_true.mp all c member)]
    simp [ofDigits]
  unfold ofHex
  rw [dropWhile_hash all]
  simp [one]
  rfl

theorem ofHex_six {r r' g g' b b' : Char} (all : [r, r', g, g', b, b'].all isHexDigit = true)
    (offset : Option Int) :
    ofHex ('#' :: [r, r', g, g', b, b']) offset =
      .ok ⟨(hexValue r * 16 + hexValue r' : Nat), (hexValue g * 16 + hexValue g' : Nat),
        (hexValue b * 16 + hexValue b' : Nat), false, '#' :: [r, r', g, g', b, b']⟩ := by
  have two : ∀ c d, isHexDigit c = true → isHexDigit d = true →
      hex? [c, d] = some ((hexValue c * 16 + hexValue d : Nat) : Int) := by
    intro c d first second
    rw [hex?_eq (List.cons_ne_nil _ _) (by simp [first, second])]
    simp [ofDigits]
  have digits := all
  simp only [List.all_cons, List.all_nil, Bool.and_true, Bool.and_eq_true] at digits
  obtain ⟨dr, dr', dg, dg', db, db'⟩ := digits
  unfold ofHex
  rw [dropWhile_hash all]
  simp [two _ _ dr dr', two _ _ dg dg', two _ _ db db']
  rfl

end Color

end Stylesheet

import Stylesheet.Proofs.Binary64.Decimal
import Stylesheet.Proofs.Lexeme.Lexed
import Stylesheet.Value.Basic

/-! Computed numbers as tokens. A decimal and a unit behind it are scanned as one number,
whichever unit scanning can give; so is the css of a number that was computed, as long as
it has not too many digits to be written. -/
namespace Stylesheet

namespace Scan

/-- A unit that scanning some source gives a number. -/
def IsScannedUnit (unit : Text) : Prop :=
  ∃ source, ∃ o ∈ Outcome.scan source, ∃ n : Numeral, o.result = .ok (.number n) ∧ n.unit = some unit

/-- The characters of a unit, which cannot continue the digits before it. -/
structure UnitChars (unit : Text) : Prop where
  all : unit.all isUnitChar = true
  head : unit.head?.any isNumberChar = false

theorem IsScannedUnit.chars {unit : Text} (given : IsScannedUnit unit) : unit ≠ [] ∧ UnitChars unit := by
  obtain ⟨source, o, member, n, result, unit_eq⟩ := given
  obtain ⟨⟨c, rest, read⟩, -⟩ := Outcome.exists_read member
  rw [result] at read
  obtain ⟨sign, text, number⟩ := exists_readNumber (Prod.ext read.symm rfl : Scan.read c rest = (.ok (.number n), _))
  obtain ⟨digits, unit', isNumber, -⟩ := readNumber_inv number
  obtain ⟨value, -, same⟩ := isNumber.token_eq
  cases same
  dsimp only at unit_eq
  split at unit_eq
  · cases unit_eq
  · next nonempty =>
    cases unit_eq
    exact ⟨by simpa using nonempty, isNumber.unit_all, isNumber.unit_head⟩

open Binary64 (IsDecimal ofParts)

variable {places : Int} {sign whole fraction : Text}

theorem foldl_eq_ofDigitChars (digits : Text) (init : Nat) :
    digits.foldl (fun n c => n * 10 + (c.toNat - '0'.toNat)) init = Nat.ofDigitChars 10 digits init := by
  simp only [Nat.ofDigitChars_eq_foldl, Nat.mul_comm]

/-- A decimal is read as what its parts denote. -/
theorem decimal?_of_isDecimal (decimal : IsDecimal places sign whole fraction) :
    decimal? (sign ++ (whole ++ fraction)) = some (ofParts sign whole fraction) := by
  have unsigned : ∀ rest, whole ++ fraction = '-' :: rest → False := by
    obtain ⟨c, tail, rfl⟩ := List.exists_cons_of_ne_nil decimal.whole_ne
    rintro rest same
    obtain ⟨rfl, -⟩ := List.cons.inj same
    exact absurd decimal.whole_all (by simp [isDigit])
  have stop : fraction.head?.any isDigit = false := by
    rcases decimal.fraction_eq with rfl | ⟨digits, last, rfl, -⟩ <;> rfl
  have taken := takeWhile_stop decimal.whole_all stop
  have left := dropWhile_stop decimal.whole_all stop
  unfold decimal?
  split
  next negative body same =>
    have split : body = whole ++ fraction ∧ negative = (sign == ['-']) := by
      rcases decimal.sign_eq with rfl | rfl
      · split at same
        · next rest dash => exact (unsigned rest dash).elim
        · cases same
          exact ⟨rfl, rfl⟩
      · cases same
        exact ⟨rfl, rfl⟩
    rw [split.1, split.2, taken, left, ofParts, ← foldl_eq_ofDigitChars]
    rcases decimal.fraction_eq with rfl | ⟨digits, last, rfl, all, -, -⟩
    · simp [decimal.whole_ne]
    · simp [decimal.whole_ne, all]

/-- A decimal with a unit behind it is a number token. -/
theorem isNumber_of_isDecimal (decimal : IsDecimal places sign whole fraction) {unit : Text} (chars : UnitChars unit) :
    IsNumber sign (whole ++ fraction) unit (.number ⟨ofParts sign whole fraction,
      if unit.isEmpty then none else some unit, false, sign ++ (whole ++ fraction) ++ unit⟩) := by
  refine ⟨?_, chars.all, chars.head, _, decimal?_of_isDecimal decimal, rfl⟩
  have number (c : Char) (digit : isDigit c = true) : isNumberChar c = true := by simp [isNumberChar, digit]
  rw [List.all_append, Bool.and_eq_true]
  refine ⟨List.all_eq_true.mpr fun c member => number c (List.all_eq_true.mp decimal.whole_all c member), ?_⟩
  rcases decimal.fraction_eq with rfl | ⟨digits, last, rfl, all, -, -⟩
  · rfl
  · rw [List.all_cons, Bool.and_eq_true]
    exact ⟨rfl, List.all_eq_true.mpr fun c member => number c (List.all_eq_true.mp all c member)⟩

/-- A digit starts nothing but a number. -/
theorem startsNumber_digit {c : Char} (digit : isDigit c = true) (rest : Text) :
    startsNumber (c :: rest) = true ∧ isSpace c = false ∧ Operator.ofChar? c = none ∧ ¬(c = '"' ∨ c = '\'') ∧ c ≠ '/' := by
  have other {d : Char} (no : isDigit d = false) : c ≠ d := by
    rintro rfl
    rw [digit] at no
    cases no
  have percent : c ≠ '%' := other rfl
  have point : c ≠ '.' := other rfl
  have unit := isUnitChar_of_isNumberChar (show isNumberChar c = true by simp [isNumberChar, digit])
  simp only [isUnitChar, isOperator, beq_eq_false_iff_ne.mpr percent, Bool.false_or, Bool.and_eq_true,
    Bool.not_eq_true', Option.isSome_eq_false_iff, Option.isNone_iff_eq_none] at unit
  have starts : startsNumber (c :: rest) = true := by cases rest <;> simp [startsNumber, point, digit]
  exact ⟨starts, unit.1, unit.2, fun quote => quote.elim (other rfl) (other rfl), other rfl⟩

/-- A decimal with a unit behind it is one token, a number with that unit. -/
theorem tokenize_decimal (decimal : IsDecimal places sign whole fraction) {unit : Text} (chars : UnitChars unit) :
    tokenize (sign ++ (whole ++ fraction) ++ unit) = .ok
      [⟨.number ⟨ofParts sign whole fraction, if unit.isEmpty then none else some unit, false,
        sign ++ (whole ++ fraction) ++ unit⟩, some 0⟩] := by
  have number := isNumber_of_isDecimal decimal chars
  obtain ⟨c, tail, rfl⟩ := List.exists_cons_of_ne_nil decimal.whole_ne
  have digits := decimal.whole_all
  rw [List.all_cons, Bool.and_eq_true] at digits
  obtain ⟨starts, space, operator, quote, slash⟩ := startsNumber_digit digits.1 (tail ++ fraction)
  rcases decimal.sign_eq with rfl | rfl
  · exact (reads_number operator quote number starts).isWhole space fun line => slash line.1
  · exact (reads_negative number starts).isWhole rfl fun line => absurd line.1 (by decide)

/-- The units that scanning gives are the words that can follow a digit. -/
theorem isScannedUnit_iff {unit : Text} : IsScannedUnit unit ↔ unit ≠ [] ∧ UnitChars unit := by
  refine ⟨IsScannedUnit.chars, ?_⟩
  rintro ⟨nonempty, chars⟩
  have one : IsDecimal 0 [] ['1'] [] := ⟨.inl rfl, by simp, rfl, by simp, .inl rfl, by simp⟩
  obtain ⟨o, none, outcomes, read⟩ := List.map_eq_cons_iff.mp (map_eq_of_mapM (tokenize_decimal one chars))
  have member : o ∈ Outcome.scan ([] ++ (['1'] ++ []) ++ unit) := outcomes ▸ List.mem_cons_self
  exact ⟨_, o, member, _, (Outcome.result_of_lexeme read.1).1, by simp [nonempty]⟩

/-- No unit, or one that scanning gives. -/
theorem unitChars_getD {unit : Option Text} (given : ∀ text ∈ unit, IsScannedUnit text) :
    UnitChars (unit.getD []) ∧ (if (unit.getD []).isEmpty then none else some (unit.getD [])) = unit := by
  cases unit with
  | none => exact ⟨⟨rfl, rfl⟩, rfl⟩
  | some text =>
    obtain ⟨nonempty, chars⟩ := isScannedUnit_iff.mp (given text rfl)
    exact ⟨chars, by simp [nonempty]⟩

end Scan

open Binary64

theorem Quantity.css_of_computed {q : Quantity} (computed : q.computed = true) (precision : Int) :
    q.css precision = ((q.scalar.spell precision).map (· ++ q.unit.getD [])).mapError .number := by
  rw [css, computed]
  cases q.raw <;> cases q.scalar.spell precision <;> rfl

/-- Whatever the precision, a computed number has a decimal without superfluous zeros and
with no more places than the precision, which is never minus zero. With the unit behind it,
the decimal is one number token with that unit, which is read as the rounded number. It is
what is printed, unless it has a fraction and the precision and the digits before the point,
of which a lone zero is none, come to more than 2147483647 together. Then a zero is printed
in its place, behind a minus if the number is negative; and at a precision of more than
2147483647 nothing is printed at all. -/
theorem Value.css_computed_number {q : Quantity} {negative : Bool} {units : Nat} {precision : Int}
    (computed : q.computed = true) (scalar : q.scalar = .finite negative units) (encoded : IsEncoded q.scalar)
    (unit : ∀ text ∈ q.unit, Scan.IsScannedUnit text) (nonneg : 0 ≤ precision) (compressed : Bool) :
    ∃ rounded sign whole fraction value, q.scalar.round precision = .finite negative rounded ∧
      decimal negative rounded (effectivePlaces precision).toNat = sign ++ (whole ++ fraction) ∧
      IsDecimal precision sign whole fraction ∧
      tokenize (sign ++ (whole ++ fraction) ++ q.unit.getD []) = .ok
        [⟨.number ⟨value, q.unit, false, sign ++ (whole ++ fraction) ++ q.unit.getD []⟩, some 0⟩] ∧
      value.equal (q.scalar.round precision) = true ∧
      (fraction = [] ∨ precision + countedDigits whole ≤ 2147483647 →
        (Value.number q).css precision compressed = .ok (sign ++ (whole ++ fraction) ++ q.unit.getD [])) ∧
      (fraction ≠ [] → precision ≤ 2147483647 → 2147483647 < precision + countedDigits whole →
        (Value.number q).css precision compressed = .ok (sign ++ ['0'] ++ q.unit.getD [])) ∧
      (fraction ≠ [] → 2147483647 < precision →
        (Value.number q).css precision compressed = .error (.number .places)) := by
  rw [Value.css, Quantity.css_of_computed computed, scalar]
  rw [scalar] at encoded
  obtain ⟨chars, unit_eq⟩ := Scan.unitChars_getD unit
  obtain ⟨rounded, sign, whole, fraction, round_eq, isDecimal, decimal_eq, denotes, printed, lost, refused⟩ :=
    spell_decimal encoded nonneg
  have token := Scan.tokenize_decimal isDecimal chars
  rw [unit_eq] at token
  refine ⟨rounded, sign, whole, fraction, _, round_eq, decimal_eq, isDecimal, token, by rw [round_eq, denotes], ?_, ?_, ?_⟩
  · intro fits
    rw [printed fits]
    rfl
  · intro some few many
    rw [lost some few many]
    rfl
  · intro some beyond
    rw [refused some beyond]
    rfl

/-- Minus one half, in pixels. -/
theorem Value.css_computed_number_half :
    (Value.number (.computedOf (.finite true (Nat.pow 2 1073)) (some ['p', 'x']))).css 5 false =
        .ok "-0.5px".toList ∧
      ∃ rounded sign whole fraction value, round (.finite true (Nat.pow 2 1073)) 5 = .finite true rounded ∧
        decimal true rounded 5 = sign ++ (whole ++ fraction) ∧ IsDecimal 5 sign whole fraction ∧
        tokenize (sign ++ (whole ++ fraction) ++ ['p', 'x']) = .ok
          [⟨.number ⟨value, some ['p', 'x'], false, sign ++ (whole ++ fraction) ++ ['p', 'x']⟩, some 0⟩] ∧
        value.equal (round (.finite true (Nat.pow 2 1073)) 5) = true := by
  have encoded : IsEncoded (.finite true (Nat.pow 2 1073)) := ⟨0xbfe0000000000000, by decide +kernel⟩
  have unit : ∀ text ∈ some ['p', 'x'], Scan.IsScannedUnit text := by
    rintro text ⟨⟩
    exact Scan.isScannedUnit_iff.mpr ⟨by simp, rfl, rfl⟩
  refine ⟨eq_ok_of_toOption (by decide +kernel), ?_⟩
  obtain ⟨rounded, sign, whole, fraction, value, round_eq, decimal_eq, isDecimal, token, denotes, -⟩ :=
    css_computed_number (q := .computedOf (.finite true (Nat.pow 2 1073)) (some ['p', 'x'])) rfl rfl encoded unit
      (by decide : (0 : Int) ≤ 5) false
  exact ⟨rounded, sign, whole, fraction, value, round_eq, decimal_eq, isDecimal, token, denotes⟩

/-- With too many digits minus one and a half is minus zero, and with too many places one
half has no text. -/
theorem Value.css_beyond_digits :
    (Value.number (.computedOf (.finite true (3 * Nat.pow 2 1073)) none)).css 2147483647 false =
        .ok "-0".toList ∧
      (Value.number (.computedOf (.finite false (Nat.pow 2 1073)) none)).css 2147483648 false =
        .error (.number .places) :=
  ⟨eq_ok_of_toOption (by decide +kernel), eq_error_of_failure? (by decide +kernel)⟩

end Stylesheet

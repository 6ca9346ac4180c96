import Stylesheet.Binary64.Decimal
import Stylesheet.Lexeme.Scan
import Stylesheet.Proofs.Binary64
import Stylesheet.Proofs.Lexeme.Reading

/-! Decimal writing of binary64 numbers. Rounding to nearest is off by half a step at most,
from which follows that the number read back from a rounded decimal rounds to the same
decimal again. So what is written is an integer, or has a fraction that does not end with
zero, and denotes the rounded number. -/
namespace Stylesheet

namespace Binary64

/-- Rounding is off by half of the divisor at most. -/
theorem divNearest_bounds {d : Nat} (positive : 0 < d) (n : Nat) :
    2 * n ≤ 2 * (divNearest n d * d) + d ∧ 2 * (divNearest n d * d) ≤ 2 * n + d := by
  have split : n / d * d + n % d = n := Nat.div_add_mod' n d
  have small := Nat.mod_lt n positive
  have up : (n / d + 1) * d = n / d * d + d := Nat.succ_mul _ _
  unfold divNearest
  dsimp only
  split
  · omega
  · split
    · omega
    · have even : n / d % 2 = 0 ∨ n / d % 2 = 1 := Nat.mod_two_eq_zero_or_one _
      rcases even with even | odd
      · rw [even, Nat.add_zero]
        omega
      · rw [odd]
        omega

/-- What is nearer than half of the divisor is what is rounded to. -/
theorem divNearest_eq {n d k : Nat} (above : 2 * n < 2 * (k * d) + d) (below : 2 * (k * d) < 2 * n + d) :
    divNearest n d = k := by
  have positive : 0 < d := by omega
  obtain ⟨low, high⟩ := divNearest_bounds positive n
  rcases Nat.lt_trichotomy (divNearest n d) k with less | same | greater
  · have far : (divNearest n d + 1) * d ≤ k * d := Nat.mul_le_mul_right d less
    rw [Nat.succ_mul] at far
    omega
  · exact same
  · have far : (k + 1) * d ≤ divNearest n d * d := Nat.mul_le_mul_right d greater
    rw [Nat.succ_mul] at far
    omega

theorem divNearest_le {n d k : Nat} (positive : 0 < d) (most : n ≤ k * d) : divNearest n d ≤ k := by
  apply Nat.le_of_not_lt
  intro more
  have far : (k + 1) * d ≤ divNearest n d * d := Nat.mul_le_mul_right d more
  have near := (divNearest_bounds positive n).2
  rw [Nat.succ_mul] at far
  omega

theorem le_divNearest {n d k : Nat} (positive : 0 < d) (least : k * d ≤ n) : k ≤ divNearest n d := by
  apply Nat.le_of_not_lt
  intro less
  have far : (divNearest n d + 1) * d ≤ k * d := Nat.mul_le_mul_right d less
  have near := (divNearest_bounds positive n).1
  rw [Nat.succ_mul] at far
  omega

theorem spacing_pos (q : Nat) : 0 < spacing q := Nat.pow_pos Nat.zero_lt_two

theorem spacing_le (q : Nat) : spacing q ≤ q + 1 := by
  by_cases zero : q = 0
  · subst zero
    decide
  · calc spacing q ≤ 2 ^ q.log2 := Nat.pow_le_pow_right Nat.zero_lt_two (by omega)
      _ ≤ q := Nat.log2_self_le zero
      _ ≤ q + 1 := Nat.le_succ q

theorem pow_dvd_or (i j : Nat) : Nat.pow 2 i ∣ Nat.pow 2 j ∨ Nat.pow 2 j ∣ Nat.pow 2 i := by
  rcases Nat.le_total i j with le | ge
  · exact .inl (Nat.pow_dvd_pow 2 le)
  · exact .inr (Nat.pow_dvd_pow 2 ge)

/-- Of the spacing and one, the smaller divides the greater. -/
theorem spacing_dvd_or (q : Nat) : spacing q ∣ oneUnits ∨ oneUnits ∣ spacing q := by
  unfold oneUnits
  generalize 1074 = e
  exact pow_dvd_or _ e

theorem oneUnits_dvd_pow {e : Nat} (high : 1074 ≤ e) : oneUnits ∣ Nat.pow 2 e := by
  unfold oneUnits
  revert high
  generalize 1074 = low
  exact fun high => Nat.pow_dvd_pow 2 high

theorem pow_le_oneUnits {e : Nat} (low : e ≤ 1074) : Nat.pow 2 e ≤ oneUnits := by
  unfold oneUnits
  revert low
  generalize 1074 = high
  exact fun low => Nat.pow_le_pow_right Nat.zero_lt_two low

theorem spacing_dvd_nearestUnits (n d : Nat) : spacing (n / d) ∣ nearestUnits n d := Nat.dvd_mul_left _ _

/-- Rounding to a binary64 number is off by half of its spacing at most. -/
theorem nearestUnits_bounds {d : Nat} (positive : 0 < d) (n : Nat) :
    2 * n ≤ 2 * (nearestUnits n d * d) + d * spacing (n / d) ∧
      2 * (nearestUnits n d * d) ≤ 2 * n + d * spacing (n / d) := by
  have bounds := divNearest_bounds (Nat.mul_pos positive (spacing_pos (n / d))) n
  have same : nearestUnits n d * d = divNearest n (d * spacing (n / d)) * (d * spacing (n / d)) := by
    rw [nearestUnits, Nat.mul_assoc, Nat.mul_comm (spacing _) d]
  rwa [same]

/-- An integer is rounded to an integer. -/
theorem oneUnits_dvd_nearestUnits (k : Nat) : oneUnits ∣ nearestUnits (k * oneUnits) 1 := by
  rcases spacing_dvd_or (k * oneUnits) with fine | coarse
  · rw [nearestUnits_of_dvd (Nat.dvd_trans fine (Nat.dvd_mul_left _ _))]
    exact Nat.dvd_mul_left _ _
  · have stands := spacing_dvd_nearestUnits (k * oneUnits) 1
    rw [Nat.div_one] at stands
    exact Nat.dvd_trans coarse stands

/-- A number that is less than half of a spacing below another one is on that spacing too. -/
theorem spacing_dvd_of_close {u q : Nat} (own : spacing u ∣ u) (close : 2 * q < 2 * u + spacing q) :
    spacing q ∣ u := by
  by_cases fine : q.log2 + 1 - 53 ≤ u.log2 + 1 - 53
  · exact Nat.dvd_trans (Nat.pow_dvd_pow 2 fine) own
  by_cases zero : u = 0
  · rw [zero]
    exact Nat.dvd_zero _
  -- The other number is at least a power of two that the first one is below, so by the first
  -- one's own spacing, which is half of the other's.
  exfalso
  obtain ⟨e, exponent⟩ : ∃ e, q.log2 + 1 - 53 = e + 1 := ⟨q.log2 - 53, by omega⟩
  have reached : Nat.pow 2 q.log2 ≤ q := Nat.log2_self_le (by rintro rfl; simp at exponent)
  have below : u < Nat.pow 2 q.log2 := (Nat.log2_lt zero).mp (by omega)
  have step : spacing q = Nat.pow 2 e * 2 := by rw [spacing, exponent]; rfl
  have near : Nat.pow 2 (q.log2 - 1) ≤ u := by
    have double : Nat.pow 2 q.log2 = Nat.pow 2 (q.log2 - 1) * 2 := (Nat.two_pow_pred_mul_two (by omega)).symm
    have small : Nat.pow 2 e ≤ Nat.pow 2 (q.log2 - 1) := Nat.pow_le_pow_right Nat.zero_lt_two (by omega)
    omega
  have half : spacing u = Nat.pow 2 e := by
    have low : q.log2 - 1 ≤ u.log2 := (Nat.le_log2 zero).mpr near
    have high : u.log2 < q.log2 := (Nat.log2_lt zero).mpr below
    have same : u.log2 + 1 - 53 = e := by omega
    rw [spacing, same]
  have gap : Nat.pow 2 e ∣ Nat.pow 2 q.log2 - u := Nat.dvd_sub (Nat.pow_dvd_pow 2 (by omega)) (half ▸ own)
  have far := Nat.le_of_dvd (Nat.sub_pos_of_lt below) gap
  omega

/-- What is nearer than half of the spacing is what is rounded to. -/
theorem nearestUnits_eq {n d u : Nat} (own : spacing u ∣ u)
    (above : 2 * n < 2 * (u * d) + d * spacing (n / d)) (below : 2 * (u * d) < 2 * n + d * spacing (n / d)) :
    nearestUnits n d = u := by
  have grid : spacing (n / d) ∣ u := by
    apply spacing_dvd_of_close own
    apply Nat.lt_of_mul_lt_mul_right (a := d)
    have whole := Nat.div_mul_le_self n d
    calc 2 * (n / d) * d = 2 * (n / d * d) := Nat.mul_assoc _ _ _
      _ ≤ 2 * n := Nat.mul_le_mul_left 2 whole
      _ < 2 * (u * d) + d * spacing (n / d) := above
      _ = (2 * u + spacing (n / d)) * d := by rw [Nat.add_mul, Nat.mul_assoc, Nat.mul_comm d]
  obtain ⟨step, step_eq⟩ : ∃ step, step = spacing (n / d) := ⟨_, rfl⟩
  rw [← step_eq] at grid above below
  obtain ⟨k, rfl⟩ := grid
  have moved : step * k * d = k * (d * step) := by rw [Nat.mul_comm step k, Nat.mul_assoc, Nat.mul_comm step d]
  rw [moved] at above below
  rw [nearestUnits, ← step_eq, divNearest_eq above below, Nat.mul_comm]

/-- What is rounded to is on its own spacing. -/
theorem spacing_dvd_self {d : Nat} (positive : 0 < d) (n : Nat) : spacing (nearestUnits n d) ∣ nearestUnits n d := by
  obtain ⟨e, exponent⟩ : ∃ e, e = (n / d).log2 + 1 - 53 := ⟨_, rfl⟩
  obtain ⟨m, m_eq⟩ : ∃ m, m = divNearest n (d * Nat.pow 2 e) := ⟨_, rfl⟩
  have read : nearestUnits n d = m * Nat.pow 2 e := by rw [m_eq, exponent]; rfl
  have most : m ≤ Nat.pow 2 53 := by
    rw [m_eq]
    apply divNearest_le (Nat.mul_pos positive (Nat.pow_pos Nat.zero_lt_two))
    calc n ≤ d * (n / d + 1) := Nat.le_of_lt (Nat.lt_mul_div_succ n positive)
      _ ≤ d * 2 ^ (53 + e) := by
        apply Nat.mul_le_mul_left
        exact Nat.le_trans Nat.lt_log2_self (Nat.pow_le_pow_right Nat.zero_lt_two (by omega))
      _ = Nat.pow 2 53 * (d * Nat.pow 2 e) := by rw [Nat.pow_add, Nat.mul_left_comm]; rfl
  rw [read]
  rcases Nat.lt_or_eq_of_le most with less | rfl
  · exact spacing_dvd less e
  · have carried : Nat.pow 2 53 * Nat.pow 2 e = Nat.pow 2 52 * Nat.pow 2 (e + 1) := by
      have up : Nat.pow 2 (e + 1) = Nat.pow 2 e * 2 := rfl
      have bits : Nat.pow 2 53 = Nat.pow 2 52 * 2 := rfl
      rw [up, bits, Nat.mul_assoc, Nat.mul_comm 2]
    rw [carried]
    exact spacing_dvd (by decide) (e + 1)

/-- The magnitude that is nearest to the decimal of a scale that is nearest to the given
one. -/
def roundedUnits (units scale : Nat) : Nat := nearestUnits (divNearest (units * scale) oneUnits * oneUnits) scale

variable {negative : Bool} {units : Nat} {places : Int}

/-- A number that is a decimal of the scale is its own rounding to it. -/
theorem roundedUnits_eq {scale : Nat} (positive : 0 < scale) (encoded : IsEncoded (.finite negative units))
    (exact : oneUnits ∣ units * scale) : roundedUnits units scale = units := by
  have scaled := nearestUnits_mul positive units 1
  rw [Nat.one_mul] at scaled
  rw [roundedUnits, divNearest_of_dvd oneUnits_pos exact, Nat.div_mul_cancel exact, scaled, encoded.nearestUnits_eq.1]

/-- Rounding does not go far. -/
theorem roundedUnits_le {scale : Nat} (positive : 0 < scale) (units : Nat) :
    roundedUnits units scale ≤ 2 * units + oneUnits + 1 := by
  obtain ⟨n, n_eq⟩ : ∃ n, n = divNearest (units * scale) oneUnits * oneUnits := ⟨_, rfl⟩
  have near := (divNearest_bounds oneUnits_pos (units * scale)).2
  have bound := (nearestUnits_bounds positive n).2
  have step : scale * spacing (n / scale) ≤ n + scale := by
    calc scale * spacing (n / scale) ≤ scale * (n / scale + 1) := Nat.mul_le_mul_left scale (spacing_le _)
      _ = scale * (n / scale) + scale := Nat.mul_succ _ _
      _ ≤ n + scale := Nat.add_le_add_right (Nat.mul_div_le n scale) _
  have ones : oneUnits ≤ oneUnits * scale := Nat.le_mul_of_pos_right _ positive
  have spread : (2 * units + oneUnits + 1) * scale = 2 * (units * scale) + oneUnits * scale + scale := by
    rw [Nat.add_mul, Nat.add_mul, Nat.mul_assoc, Nat.one_mul]
  rw [roundedUnits, ← n_eq]
  rw [← n_eq] at near
  apply Nat.le_of_mul_le_mul_right _ positive
  omega

theorem pow_ten_pos (p : Nat) : 0 < Nat.pow 10 p := Nat.pow_pos (by decide)

/-- With places, one is no multiple of the last of them in units. -/
theorem oneUnits_ne_mul {p : Nat} (positive : 0 < p) (step : Nat) : oneUnits ≠ Nat.pow 10 p * step := by
  intro same
  have five : 5 ∣ oneUnits := by
    obtain ⟨k, rfl⟩ : ∃ k, p = k + 1 := ⟨p - 1, by omega⟩
    have ten : Nat.pow 10 (k + 1) = Nat.pow 10 k * 10 := rfl
    rw [same, ten]
    exact Nat.dvd_trans (Nat.dvd_trans (by decide : 5 ∣ 10) (Nat.dvd_mul_left _ _)) (Nat.dvd_mul_right _ _)
  exact absurd (Nat.mod_eq_zero_of_dvd five) (by decide +kernel)

/-- Rounding twice gives the same decimal. Either the spacing at the decimal is less than
its last place, and then it is the decimal nearest to what is read back; or the spacing is
more than that, and then the decimal is read back as the number it came from. -/
theorem divNearest_roundedUnits {p : Nat} (positive : 0 < p) (encoded : IsEncoded (.finite negative units)) :
    divNearest (roundedUnits units (Nat.pow 10 p) * Nat.pow 10 p) oneUnits =
      divNearest (units * Nat.pow 10 p) oneUnits := by
  have different := oneUnits_ne_mul positive
  have scale_pos := pow_ten_pos p
  generalize Nat.pow 10 p = scale at *
  obtain ⟨n, n_eq⟩ : ∃ n, n = divNearest (units * scale) oneUnits := ⟨_, rfl⟩
  obtain ⟨step, step_eq⟩ : ∃ step, step = spacing (n * oneUnits / scale) := ⟨_, rfl⟩
  have near := divNearest_bounds oneUnits_pos (units * scale)
  have bounds := nearestUnits_bounds scale_pos (n * oneUnits)
  rw [← n_eq] at near
  rw [← step_eq] at bounds
  by_cases fine : scale * step < oneUnits
  · rw [roundedUnits, ← n_eq]
    exact divNearest_eq (by omega) (by omega)
  · have coarse : oneUnits < scale * step := Nat.lt_of_le_of_ne (Nat.le_of_not_lt fine) (different step)
    have same : roundedUnits units scale = units := by
      rw [roundedUnits, ← n_eq]
      apply nearestUnits_eq encoded.spacing_dvd
      · rw [← step_eq]
        omega
      · rw [← step_eq]
        omega
    rw [same]

/-- Without places only integers are rounded to. -/
theorem places_of_fraction {p : Nat} (fraction : ¬oneUnits ∣ roundedUnits units (Nat.pow 10 p)) : 0 < p := by
  apply Nat.pos_of_ne_zero
  rintro rfl
  exact fraction (oneUnits_dvd_nearestUnits _)

/-- A decimal that is read as no integer is not written as one. -/
theorem fraction_ne_zero {p : Nat} (fraction : ¬oneUnits ∣ roundedUnits units (Nat.pow 10 p)) :
    divNearest (units * Nat.pow 10 p) oneUnits % Nat.pow 10 p ≠ 0 := by
  intro whole
  obtain ⟨k, written⟩ := Nat.dvd_of_mod_eq_zero whole
  apply fraction
  have integer := nearestUnits_mul (pow_ten_pos p) (k * oneUnits) 1
  rw [Nat.one_mul] at integer
  rw [roundedUnits, written, Nat.mul_assoc, Nat.mul_comm (Nat.pow 10 p), integer]
  exact oneUnits_dvd_nearestUnits k

/-- A number that is no integer is far from the largest ones. -/
theorem IsEncoded.units_lt (encoded : IsEncoded (.finite negative units)) (fraction : ¬oneUnits ∣ units) :
    units < Nat.pow 2 53 * oneUnits := by
  obtain ⟨bits, read⟩ := encoded
  obtain ⟨m, e, bound, -, rfl⟩ := units_of_ofBits read
  have low : e < 1074 := by
    apply Nat.lt_of_not_le
    intro high
    exact fraction (Nat.dvd_trans (oneUnits_dvd_pow high) (Nat.dvd_mul_left _ _))
  calc m * Nat.pow 2 e ≤ m * oneUnits := Nat.mul_le_mul_left m (pow_le_oneUnits (Nat.le_of_lt low))
    _ < Nat.pow 2 53 * oneUnits := Nat.mul_lt_mul_of_pos_right bound oneUnits_pos

/-- The places that rounding and writing come down to. -/
theorem effectivePlaces_eq (nonneg : 0 ≤ places) :
    ∃ p : Nat, effectivePlaces places = p ∧ (p : Int) ≤ places := by
  refine ⟨(effectivePlaces places).toNat, ?_, ?_⟩ <;> unfold effectivePlaces <;> omega

theorem roundedUnits_lt (encoded : IsEncoded (.finite negative units)) (p : Nat) :
    roundedUnits units (Nat.pow 10 p) < overflowUnits := by
  have positive := pow_ten_pos p
  by_cases integer : oneUnits ∣ units
  · rw [roundedUnits_eq positive encoded (Nat.dvd_trans integer (Nat.dvd_mul_right _ _))]
    exact encoded.nearestUnits_eq.2
  · have room : 2 * (Nat.pow 2 53 * oneUnits) + oneUnits + 1 < overflowUnits := by decide +kernel
    have bound := roundedUnits_le positive units
    have low := encoded.units_lt integer
    omega

/-- Rounding keeps a number finite. -/
theorem round_finite (encoded : IsEncoded (.finite negative units)) {p : Nat} (effective : effectivePlaces places = p) :
    round (.finite negative units) places = .finite negative (roundedUnits units (Nat.pow 10 p)) := by
  have places_eq : effectivePlaces places = .ofNat p := effective
  unfold round
  rw [places_eq]
  dsimp only
  rw [ofDecimal, ofUnits_eq (roundedUnits.eq_def _ _).symm (roundedUnits_lt encoded p)]

/-- An integer is written with these digits, and so are the digits of a fraction. -/
theorem toDigits_all (n : Nat) : (Nat.toDigits 10 n).all Scan.isDigit = true := by
  rw [List.all_eq_true]
  intro c member
  have digit := Nat.isDigit_of_mem_toDigits (by decide) (by decide) member
  simpa [Char.isDigit, Scan.isDigit, Char.le_def] using digit

/-- No zero stands at the front, but for zero. -/
theorem head?_toDigits {n : Nat} (positive : 0 < n) : (Nat.toDigits 10 n).head? ≠ some '0' := by
  induction n using Nat.strongRecOn with
  | ind n ih =>
    rw [Nat.toDigits_eq_if (by decide)]
    split
    · next small =>
      have nonzero : ∀ n < 10, 0 < n → Nat.digitChar n ≠ '0' := by decide
      simpa using nonzero n small positive
    · next large =>
      obtain ⟨c, rest, digits⟩ := List.exists_cons_of_ne_nil (Nat.toDigits_ne_nil (n := n / 10) (b := 10))
      have head := ih (n / 10) (by omega) (by omega)
      rwa [digits] at head ⊢

/-- The parts of a decimal as it is written: a sign, an integer without superfluous zeros,
and behind a point at most so many digits, the last of which is not zero. Minus zero is
none. -/
structure IsDecimal (places : Int) (sign whole fraction : Text) : Prop where
  sign_eq : sign = [] ∨ sign = ['-']
  whole_ne : whole ≠ []
  whole_all : whole.all Scan.isDigit = true
  lead : whole.head? = some '0' → whole = ['0']
  fraction_eq : fraction = [] ∨ ∃ digits last, fraction = '.' :: (digits ++ [last]) ∧
    (digits ++ [last]).all Scan.isDigit = true ∧ last ≠ '0' ∧ ((digits ++ [last]).length : Int) ≤ places
  nonzero : ¬(sign = ['-'] ∧ whole = ['0'] ∧ fraction = [])

/-- What the parts of a decimal denote: the nearest number. -/
def ofParts (sign whole fraction : Text) : Binary64 :=
  ofDecimal (sign == ['-']) (Nat.ofDigitChars 10 (whole ++ fraction.tail) 0) fraction.tail.length

theorem lead_toDigits {n : Nat} (zero : (Nat.toDigits 10 n).head? = some '0') : Nat.toDigits 10 n = ['0'] := by
  rcases Nat.eq_zero_or_pos n with rfl | positive
  · rfl
  · exact absurd zero (head?_toDigits positive)

theorem fractionDigits_length {p n : Nat} (below : n < Nat.pow 10 p) (positive : 0 < p) : (fractionDigits p n).length = p := by
  have short := (Nat.length_toDigits_le_iff (by decide) positive).mpr below
  simp only [fractionDigits, List.length_append, List.length_replicate]
  omega

theorem ofDigitChars_fractionDigits {p n : Nat} (below : n < Nat.pow 10 p) (positive : 0 < p) (init : Nat) :
    Nat.ofDigitChars 10 (fractionDigits p n) init = Nat.pow 10 p * init + n := by
  rw [Nat.ofDigitChars_eq_ofDigitChars_zero, fractionDigits_length below positive, fractionDigits,
    Nat.ofDigitChars_append, Nat.ofDigitChars_replicate_zero, Nat.mul_zero, Nat.ofDigitChars_ten_toDigits]
  rfl

theorem fractionDigits_all (p n : Nat) : (fractionDigits p n).all Scan.isDigit = true := by
  rw [fractionDigits, List.all_append, toDigits_all, Bool.and_true, List.all_eq_true]
  intro c member
  rw [(List.mem_replicate.mp member).2]
  rfl

theorem exists_fractionDigits {n : Nat} (positive : 0 < n) (p : Nat) : ∃ c ∈ fractionDigits p n, c ≠ '0' := by
  have head := head?_toDigits positive
  obtain ⟨c, rest, digits⟩ := List.exists_cons_of_ne_nil (Nat.toDigits_ne_nil (n := n) (b := 10))
  rw [digits] at head
  refine ⟨c, ?_, by simpa using head⟩
  rw [fractionDigits, digits]
  simp

end Binary64

namespace Text

/-- The last character that is not dropped from the end. -/
theorem exists_last {p : Char → Bool} {text : Text} (some : ∃ c ∈ text, p c = false) :
    ∃ front last dropped, text = front ++ last :: dropped ∧ p last = false ∧ dropped.all p = true := by
  induction text with
  | nil => simp at some
  | cons d rest ih =>
    by_cases all : rest.all p = true
    · obtain ⟨c, member, kept⟩ := some
      rcases List.mem_cons.mp member with rfl | member
      · exact ⟨[], c, rest, rfl, kept, all⟩
      · rw [List.all_eq_true.mp all c member] at kept
        cases kept
    · rw [List.all_eq_true] at all
      have later : ∃ c ∈ rest, p c = false := by simpa using all
      obtain ⟨front, last, dropped, rfl, kept, ends⟩ := ih later
      exact ⟨d :: front, last, dropped, rfl, kept, ends⟩

theorem dropEnd_eq (p : Char → Bool) {front dropped : Text} {last : Char} (kept : p last = false)
    (all : dropped.all p = true) : dropEnd p (front ++ last :: dropped) = front ++ [last] := by
  have reversed : (front ++ last :: dropped).reverse = dropped.reverse ++ (last :: front.reverse) := by simp
  rw [dropEnd, reversed, Scan.dropWhile_stop (by rwa [List.all_reverse]) (by simp [kept])]
  simp

end Text

namespace Binary64

variable {negative : Bool} {units : Nat} {places : Int}

/-- The digits of a fraction are those up to the last that is not zero, and zeros. -/
theorem fractionDigits_split {p n : Nat} (nonzero : n ≠ 0) (below : n < Nat.pow 10 p) (positive : 0 < p) :
    ∃ digits last zeros, fractionDigits p n = (digits ++ [last]) ++ List.replicate zeros '0' ∧
      (digits ++ [last]).all Scan.isDigit = true ∧ last ≠ '0' ∧ (digits ++ [last]).length + zeros = p := by
  have some : ∃ c ∈ fractionDigits p n, (c == '0') = false := by
    obtain ⟨c, member, other⟩ := exists_fractionDigits (Nat.pos_of_ne_zero nonzero) p
    exact ⟨c, member, by simpa using other⟩
  obtain ⟨digits, last, dropped, split, kept, all⟩ := Text.exists_last some
  have zeros : dropped = List.replicate dropped.length '0' :=
    List.eq_replicate_iff.mpr ⟨rfl, fun c member => beq_iff_eq.mp (List.all_eq_true.mp all c member)⟩
  have length := fractionDigits_length below positive
  have isDigit := fractionDigits_all p n
  rw [split, List.length_append, List.length_cons] at length
  rw [split, List.all_append, List.all_cons, Bool.and_eq_true, Bool.and_eq_true] at isDigit
  refine ⟨digits, last, dropped.length, ?_, by simp [isDigit], by simpa using kept, ?_⟩
  · rw [← zeros, split, List.append_assoc, List.singleton_append]
  · rw [List.length_append, List.length_singleton]
    omega

/-- Rounding to a fraction keeps the integer before the point. -/
theorem whole_of_fraction {p scaled : Nat} (scaled_eq : scaled = divNearest (units * Nat.pow 10 p) oneUnits)
    (fraction : scaled % Nat.pow 10 p ≠ 0) : scaled / Nat.pow 10 p = units / oneUnits := by
  have positive := pow_ten_pos p
  have low : units / oneUnits * Nat.pow 10 p ≤ scaled := by
    rw [scaled_eq]
    apply le_divNearest oneUnits_pos
    rw [Nat.mul_right_comm]
    exact Nat.mul_le_mul_right _ (Nat.div_mul_le_self units oneUnits)
  have high : scaled ≤ (units / oneUnits + 1) * Nat.pow 10 p := by
    rw [scaled_eq]
    apply divNearest_le oneUnits_pos
    rw [Nat.mul_right_comm, Nat.mul_comm (units / oneUnits + 1)]
    exact Nat.mul_le_mul_right _ (Nat.le_of_lt (Nat.lt_mul_div_succ units oneUnits_pos))
  have carried : scaled ≠ (units / oneUnits + 1) * Nat.pow 10 p := by
    intro same
    rw [same, Nat.mul_mod_left] at fraction
    exact fraction rfl
  exact Nat.div_eq_of_lt_le low (Nat.lt_of_le_of_ne high carried)

/-- A fraction is written with its last digit that is not zero at the end. With the zeros
behind it the digits are those of the decimal. -/
theorem fixed_trimmed {p scaled : Nat} (scaled_eq : scaled = divNearest (units * Nat.pow 10 p) oneUnits)
    (fraction : scaled % Nat.pow 10 p ≠ 0) (positive : 0 < p) :
    ∃ digits last zeros, (digits ++ [last]).all Scan.isDigit = true ∧ last ≠ '0' ∧
      (digits ++ [last]).length + zeros = p ∧
      Nat.ofDigitChars 10 (Nat.toDigits 10 (units / oneUnits) ++ (digits ++ [last])) 0 * Nat.pow 10 zeros = scaled ∧
      Text.dropEnd (· == '.') (Text.dropEnd (· == '0') (fixed units p)) =
        Nat.toDigits 10 (units / oneUnits) ++ '.' :: (digits ++ [last]) := by
  have below := Nat.mod_lt scaled (pow_ten_pos p)
  obtain ⟨digits, last, zeros, split, all, nonzero, length⟩ := fractionDigits_split fraction below positive
  rw [← whole_of_fraction scaled_eq fraction]
  refine ⟨digits, last, zeros, all, nonzero, length, ?_, ?_⟩
  · have whole : Nat.ofDigitChars 10 (Nat.toDigits 10 (scaled / Nat.pow 10 p) ++
        fractionDigits p (scaled % Nat.pow 10 p)) 0 = scaled := by
      rw [Nat.ofDigitChars_append, Nat.ofDigitChars_ten_toDigits, ofDigitChars_fractionDigits below positive,
        Nat.div_add_mod]
    rwa [split, ← List.append_assoc, Nat.ofDigitChars_append, Nat.ofDigitChars_replicate_zero, Nat.mul_comm] at whole
  · have written : fixed units p =
        (Nat.toDigits 10 (scaled / Nat.pow 10 p) ++ '.' :: digits) ++ last :: List.replicate zeros '0' := by
      rw [fixed, ← scaled_eq, split]
      simp
    have point : (last == '.') = false := by
      apply beq_eq_false_iff_ne.mpr
      rintro rfl
      simp [Scan.isDigit] at all
    rw [written, Text.dropEnd_eq (· == '0') (beq_eq_false_iff_ne.mpr nonzero) (by simp),
      Text.dropEnd_eq (· == '.') point rfl]
    simp

theorem equal_finite (sign : Bool) (units : Nat) : equal (.finite sign units) (.finite sign units) = true := by
  simp [equal]

theorem isDecimal_integer {n : Nat} (positive : 0 < n) {sign : Text} (signs : sign = [] ∨ sign = ['-']) :
    IsDecimal places sign (Nat.toDigits 10 n) [] := by
  have head := head?_toDigits positive
  refine ⟨signs, Nat.toDigits_ne_nil, toDigits_all _, fun zero => absurd zero head, .inl rfl, ?_⟩
  rintro ⟨-, zero, -⟩
  rw [zero] at head
  exact head rfl

/-- The digits of an integer denote it. -/
theorem ofParts_integer (sign : Text) (own : spacing units ∣ units) (small : units < overflowUnits)
    (integer : oneUnits ∣ units) :
    ofParts sign (Nat.toDigits 10 (units / oneUnits)) [] = .finite (sign == ['-']) units := by
  have exact : nearestUnits (units / oneUnits * oneUnits) (Nat.pow 10 0) = units := by
    rw [Nat.div_mul_cancel integer]
    exact nearestUnits_of_dvd own
  rw [ofParts, List.tail_nil, List.append_nil, Nat.ofDigitChars_ten_toDigits, ofDecimal, List.length_nil,
    ofUnits_eq exact small]

/-- The zeros that are left out make no difference to what the digits denote. -/
theorem ofParts_fraction (sign whole : Text) {digits : Text} {p zeros : Nat} (length : digits.length + zeros = p)
    (value : Nat.ofDigitChars 10 (whole ++ digits) 0 * Nat.pow 10 zeros = divNearest (units * Nat.pow 10 p) oneUnits)
    (small : roundedUnits units (Nat.pow 10 p) < overflowUnits) :
    ofParts sign whole ('.' :: digits) = .finite (sign == ['-']) (roundedUnits units (Nat.pow 10 p)) := by
  have denotes : nearestUnits (Nat.ofDigitChars 10 (whole ++ digits) 0 * oneUnits) (Nat.pow 10 digits.length) =
      roundedUnits units (Nat.pow 10 p) := by
    have scale : Nat.pow 10 p = Nat.pow 10 digits.length * Nat.pow 10 zeros := by
      rw [← length]
      exact Nat.pow_add 10 _ _
    rw [roundedUnits, ← value, scale, Nat.mul_right_comm, nearestUnits_mul (pow_ten_pos zeros)]
  rw [ofParts, List.tail_cons, ofDecimal, ofUnits_eq denotes small]

/-- How many digits of an integer count: zero alone has none. -/
def countedDigits (whole : Text) : Nat := if whole = ['0'] then 0 else whole.length

theorem countedDigits_toDigits (units : Nat) :
    countedDigits (Nat.toDigits 10 (units / oneUnits)) = wholeDigits units := by
  unfold countedDigits wholeDigits
  by_cases small : units < oneUnits
  · rw [if_pos small, Nat.div_eq_of_lt small]
    rfl
  · have positive : 0 < units / oneUnits := Nat.div_pos (Nat.le_of_not_lt small) oneUnits_pos
    have head := head?_toDigits positive
    rw [if_neg small, if_neg]
    intro zero
    rw [zero] at head
    exact head rfl

/-- What the parts of the decimal of a number say about it: it is denoted by them, it is an
integer if there is no fraction, and else they show its sign and the integer before the
point. -/
structure Decimal (negative : Bool) (units : Nat) (sign whole fraction : Text) : Prop where
  denotes : equal (ofParts sign whole fraction) (.finite negative units) = true
  integer : oneUnits ∣ units ↔ fraction = []
  signed : fraction ≠ [] → sign = if negative then ['-'] else []
  digits : fraction ≠ [] → countedDigits whole = wholeDigits units

/-- The decimal of a rounded number has the parts of one and denotes the number. -/
theorem decimal_parts (encoded : IsEncoded (.finite negative units)) {p : Nat} (within : (p : Int) ≤ places) :
    ∃ sign whole fraction, IsDecimal places sign whole fraction ∧
      decimal negative (roundedUnits units (Nat.pow 10 p)) p = sign ++ (whole ++ fraction) ∧
      Decimal negative (roundedUnits units (Nat.pow 10 p)) sign whole fraction := by
  have positive := pow_ten_pos p
  have small := roundedUnits_lt encoded p
  obtain ⟨sign, sign_eq⟩ : ∃ sign : Text, sign = if negative then ['-'] else [] := ⟨_, rfl⟩
  have signs : sign = [] ∨ sign = ['-'] := by cases negative <;> simp [sign_eq]
  have reads : (sign == ['-']) = negative := by cases negative <;> simp [sign_eq]
  unfold decimal
  rw [← sign_eq]
  split
  · next zero =>
    -- Minus zero is written without its sign, and equals zero.
    refine ⟨[], ['0'], [], ⟨.inl rfl, by simp, rfl, fun _ => rfl, .inl rfl, by simp⟩, rfl, ?_, ?_, by simp, by simp⟩
    · rw [zero]
      cases negative <;> decide +kernel
    · rw [zero]
      exact iff_of_true (Nat.dvd_zero _) rfl
  · next nonzero =>
    split
    · next integer =>
      have divides := Nat.dvd_of_mod_eq_zero integer
      have whole : 0 < roundedUnits units (Nat.pow 10 p) / oneUnits :=
        Nat.div_pos (Nat.le_of_dvd (Nat.pos_of_ne_zero nonzero) divides) oneUnits_pos
      have own : spacing (roundedUnits units (Nat.pow 10 p)) ∣ roundedUnits units (Nat.pow 10 p) :=
        spacing_dvd_self positive _
      refine ⟨sign, _, [], isDecimal_integer whole signs, by rw [List.append_nil], ?_,
        iff_of_true divides rfl, by simp, by simp⟩
      rw [ofParts_integer sign own small divides, reads]
      exact equal_finite _ _
    · next fraction =>
      have notInteger : ¬oneUnits ∣ roundedUnits units (Nat.pow 10 p) := fun integer =>
        fraction (Nat.mod_eq_zero_of_dvd integer)
      have some := places_of_fraction notInteger
      obtain ⟨digits, last, zeros, all, nonzero, length, value, trimmed⟩ :=
        fixed_trimmed (divNearest_roundedUnits some encoded).symm (fraction_ne_zero notInteger) some
      refine ⟨sign, _, '.' :: (digits ++ [last]), ⟨signs, Nat.toDigits_ne_nil, toDigits_all _, lead_toDigits,
        .inr ⟨digits, last, rfl, all, nonzero, by omega⟩, by simp⟩, by rw [trimmed], ?_,
        iff_of_false notInteger (List.cons_ne_nil _ _), fun _ => sign_eq, fun _ => countedDigits_toDigits _⟩
      rw [ofParts_fraction sign _ length value small, reads]
      exact equal_finite _ _

/-- Whatever the places, a number has a decimal, which denotes its rounding. It is written
if it is an integer or has few digits enough. With more digits a number with a fraction is
written as zero, with its sign, and with more places it is not written at all. -/
theorem spell_decimal (encoded : IsEncoded (.finite negative units)) (nonneg : 0 ≤ places) :
    ∃ rounded sign whole fraction, round (.finite negative units) places = .finite negative rounded ∧
      IsDecimal places sign whole fraction ∧
      decimal negative rounded (effectivePlaces places).toNat = sign ++ (whole ++ fraction) ∧
      equal (ofParts sign whole fraction) (.finite negative rounded) = true ∧
      (fraction = [] ∨ places + countedDigits whole ≤ mostPlaces →
        spell (.finite negative units) places = .ok (sign ++ (whole ++ fraction))) ∧
      (fraction ≠ [] → places ≤ mostPlaces → mostPlaces < places + countedDigits whole →
        spell (.finite negative units) places = .ok (sign ++ ['0'])) ∧
      (fraction ≠ [] → mostPlaces < places → spell (.finite negative units) places = .error .places) := by
  obtain ⟨p, effective, within⟩ := effectivePlaces_eq nonneg
  obtain ⟨sign, whole, fraction, isDecimal, written, parts⟩ := decimal_parts encoded within
  have rounded := round_finite encoded effective
  have places_eq : (effectivePlaces places).toNat = p := by rw [effective, Int.toNat_natCast]
  refine ⟨_, sign, whole, fraction, rounded, isDecimal, by rw [places_eq, written], parts.denotes, ?_, ?_, ?_⟩
  all_goals
    unfold spell
    rw [rounded]
    dsimp only
  · intro fits
    rw [if_pos, places_eq, written]
    by_cases integer : fraction = []
    · exact .inl (Nat.mod_eq_zero_of_dvd (parts.integer.mpr integer))
    · rw [← parts.digits integer]
      exact .inr (fits.resolve_left integer)
  · intro some few many
    have noInteger : ¬roundedUnits units (Nat.pow 10 p) % oneUnits = 0 := fun integer =>
      some (parts.integer.mp (Nat.dvd_of_mod_eq_zero integer))
    rw [parts.digits some] at many
    rw [if_neg (by omega), if_pos few, parts.signed some]
    cases negative <;> rfl
  · intro some beyond
    have noInteger : ¬roundedUnits units (Nat.pow 10 p) % oneUnits = 0 := fun integer =>
      some (parts.integer.mp (Nat.dvd_of_mod_eq_zero integer))
    rw [if_neg (by omega), if_neg (by omega)]

end Binary64

end Stylesheet

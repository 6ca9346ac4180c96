import Stylesheet.Binary64.Bits

/-! Exactness of binary64 arithmetic. Rounding depends on the quotient alone, and a number
that has an encoding is its own rounding. So a product with minus one is exact, and the
sign of a product may be taken from either factor. -/
namespace Stylesheet.Binary64

/-- A number with an encoding, as all numbers have that are read or computed. -/
def IsEncoded (x : Binary64) : Prop := ∃ bits, ofBits bits = x

theorem divNearest_mul {k : Nat} (positive : 0 < k) (n d : Nat) : divNearest (n * k) (d * k) = divNearest n d := by
  have scaled (a b : Nat) : a * k < b * k ↔ a < b := Nat.mul_lt_mul_right positive
  simp only [divNearest, Nat.mul_div_mul_right _ _ positive, Nat.mul_mod_mul_right, ← Nat.mul_assoc, scaled]

theorem nearestUnits_mul {k : Nat} (positive : 0 < k) (n d : Nat) :
    nearestUnits (n * k) (d * k) = nearestUnits n d := by
  simp only [nearestUnits, Nat.mul_div_mul_right _ _ positive, Nat.mul_right_comm d k, divNearest_mul positive]

theorem divNearest_of_dvd {n d : Nat} (positive : 0 < d) (divides : d ∣ n) : divNearest n d = n / d := by
  rw [divNearest, Nat.mod_eq_zero_of_dvd divides]
  exact if_pos positive

theorem nearestUnits_of_dvd {n : Nat} (divides : spacing n ∣ n) : nearestUnits n 1 = n := by
  have positive : 0 < spacing n := Nat.pow_pos Nat.zero_lt_two
  simp only [nearestUnits, Nat.div_one, Nat.one_mul]
  rw [divNearest_of_dvd positive divides, Nat.div_mul_cancel divides]

/-- At most 53 bits stand on the spacing of their magnitude. -/
theorem spacing_dvd {m : Nat} (bound : m < Nat.pow 2 53) (e : Nat) : spacing (m * Nat.pow 2 e) ∣ m * Nat.pow 2 e := by
  have exponent : (m * Nat.pow 2 e).log2 + 1 - 53 ≤ e := by
    by_cases zero : m * Nat.pow 2 e = 0
    · rw [zero, Nat.log2_zero]
      omega
    · have small : m * Nat.pow 2 e < 2 ^ (53 + e) := by
        rw [Nat.pow_add]
        exact Nat.mul_lt_mul_of_pos_right bound (Nat.pow_pos Nat.zero_lt_two)
      have := (Nat.log2_lt zero).mpr small
      omega
  exact Nat.dvd_trans (Nat.pow_dvd_pow 2 exponent) (Nat.dvd_mul_left _ _)

/-- The magnitude of an encoded number: at most 53 bits, in place. -/
theorem units_of_ofBits {bits : Nat} {negative : Bool} {units : Nat} (read : ofBits bits = .finite negative units) :
    ∃ m e, m < Nat.pow 2 53 ∧ e ≤ 2045 ∧ units = m * Nat.pow 2 e := by
  have fraction : bits % Nat.pow 2 52 < Nat.pow 2 52 := Nat.mod_lt _ (Nat.pow_pos Nat.zero_lt_two)
  have exponent : bits / Nat.pow 2 52 % Nat.pow 2 11 < Nat.pow 2 11 := Nat.mod_lt _ (Nat.pow_pos Nat.zero_lt_two)
  have doubled : Nat.pow 2 53 = 2 * Nat.pow 2 52 := rfl
  have limit : Nat.pow 2 11 = 2048 := rfl
  simp only [ofBits] at read
  split at read
  · split at read <;> cases read
  · split at read
    · cases read
      exact ⟨_, 0, by omega, by omega, (Nat.mul_one _).symm⟩
    · cases read
      exact ⟨_, _, by omega, by omega, rfl⟩

theorem IsEncoded.spacing_dvd {negative : Bool} {units : Nat} (encoded : IsEncoded (.finite negative units)) :
    spacing units ∣ units := by
  obtain ⟨bits, read⟩ := encoded
  obtain ⟨m, e, bound, -, rfl⟩ := units_of_ofBits read
  exact Binary64.spacing_dvd bound e

/-- An encoded number is its own rounding. -/
theorem IsEncoded.nearestUnits_eq {negative : Bool} {units : Nat} (encoded : IsEncoded (.finite negative units)) :
    nearestUnits units 1 = units ∧ units < overflowUnits := by
  refine ⟨nearestUnits_of_dvd encoded.spacing_dvd, ?_⟩
  obtain ⟨bits, read⟩ := encoded
  obtain ⟨m, e, bound, exponent, rfl⟩ := units_of_ofBits read
  calc m * Nat.pow 2 e < Nat.pow 2 53 * Nat.pow 2 e :=
        Nat.mul_lt_mul_of_pos_right bound (Nat.pow_pos Nat.zero_lt_two)
    _ = Nat.pow 2 (53 + e) := (Nat.pow_add 2 53 e).symm
    _ ≤ overflowUnits := Nat.pow_le_pow_right Nat.zero_lt_two (by omega)

theorem ofUnits_eq {n d units : Nat} (rounds : nearestUnits n d = units) (small : units < overflowUnits)
    (sign : Bool) : ofUnits sign n d = .finite sign units := by
  rw [ofUnits, rounds, if_pos small]

theorem IsEncoded.rounded {negative : Bool} {units : Nat} (encoded : IsEncoded (.finite negative units))
    (sign : Bool) : ofUnits sign units 1 = .finite sign units := by
  obtain ⟨same, small⟩ := encoded.nearestUnits_eq
  exact ofUnits_eq same small sign

theorem oneUnits_pos : 0 < oneUnits := by decide +kernel

theorem mul_comm (x y : Binary64) : mul x y = mul y x := by
  cases x with
  | nan => cases y <;> rfl
  | infinite s =>
    cases y with
    | nan => rfl
    | infinite t => simp only [mul, Bool.xor_comm s t]
    | finite t n => rfl
  | finite s m =>
    cases y with
    | nan | infinite => rfl
    | finite t n => simp only [mul, Bool.xor_comm s t, Nat.mul_comm m n]

/-- A sign moves from one factor to the other. -/
theorem neg_mul (x y : Binary64) : mul (neg x) y = mul x (neg y) := by
  cases x <;> cases y <;> simp [mul, neg]

/-- A product with minus one is exact. -/
theorem mul_minusOne {x : Binary64} (encoded : IsEncoded x) : mul x minusOne = neg x := by
  cases x with
  | nan => rfl
  | infinite s =>
    have units : ¬ oneUnits = 0 := Nat.ne_of_gt oneUnits_pos
    simp [mul, minusOne, neg, units]
  | finite s m =>
    have scaled : nearestUnits (m * oneUnits) oneUnits = nearestUnits m 1 := by
      simpa only [Nat.one_mul] using nearestUnits_mul oneUnits_pos m 1
    calc mul (.finite s m) minusOne = ofUnits (!s) (m * oneUnits) oneUnits := by simp only [mul, minusOne, Bool.xor_true]
      _ = ofUnits (!s) m 1 := by simp only [ofUnits, scaled]
      _ = .finite (!s) m := encoded.rounded !s

end Stylesheet.Binary64

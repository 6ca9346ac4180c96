import Stylesheet.Proofs.Binary64
import Stylesheet.Proofs.Value.Deferred

/-! The minus sign behind an operator. A sign is read as a factor of minus one, and the
factor is put on hold like any other operand. Behind a plus or a minus it waits for the
operand of the sign. Behind an operator of a product it is the right operand of that
operator: a product comes to the same number, a quotient and a remainder do not. -/
namespace Stylesheet

/-- The lexemes `( a op - ( b ) )`, each at its offset. -/
def signedOperand (offset : Nat → Option Int) (op : Operator) (a b : Numeral) : List Lexeme :=
  [⟨.operator .leftParen, offset 0⟩, ⟨.number a, offset 1⟩, ⟨.operator op, offset 2⟩, ⟨.operator .minus, offset 3⟩,
    ⟨.operator .leftParen, offset 4⟩, ⟨.number b, offset 5⟩, ⟨.operator .rightParen, offset 6⟩,
    ⟨.operator .rightParen, offset 7⟩]

/-- The value is a number of the same scalar and unit, or there is none on either side. -/
def SameOutcome : Except Failure Value → Except Failure Quantity → Prop
  | .ok (.number p), .ok q => p.scalar = q.scalar ∧ p.unit = q.unit
  | .error _, .error _ => True
  | _, _ => False

theorem sameOutcome_of_ok {x y : Except Failure Quantity}
    (forward : ∀ p, x = .ok p → ∃ q, y = .ok q ∧ p.scalar = q.scalar ∧ p.unit = q.unit)
    (backward : ∀ q, y = .ok q → ∃ p, x = .ok p) : SameOutcome (x.map .number) y := by
  cases x with
  | ok p =>
    obtain ⟨q, rfl, same⟩ := forward p rfl
    exact same
  | error e =>
    cases y with
    | ok q =>
      obtain ⟨p, made⟩ := backward q rfl
      cases made
    | error e' => trivial

theorem not_sameOutcome {p q : Quantity} (apart : p.scalar ≠ q.scalar) :
    ¬ SameOutcome ((Except.ok p).map .number) (.ok q) :=
  fun same => apart same.1

namespace Quantity

variable {a b a' b' q : Quantity} {offset : Option Int}

/-- The operator on a number and another one with its sign changed, at the offsets of the
operator and of the sign. -/
def combineNegated (op : Operator) (a b : Quantity) (offset signOffset : Option Int) : Except Failure Quantity := do
  combine op a (← combine .star .minusOne b signOffset) offset

/-- The operator on a number and minus one, and the product of that with another number. -/
def combineFactor (op : Operator) (a b : Quantity) (offset signOffset : Option Int) : Except Failure Quantity := do
  combine .star (← combine op a .minusOne offset) b signOffset

/-- A product depends on the product of the scalars and on the units. -/
theorem combine_star_of_units (made : combine .star a b offset = .ok q) (first : a'.unit = a.unit)
    (second : b'.unit = b.unit) (scalar : a'.scalar.mul b'.scalar = a.scalar.mul b.scalar) (elsewhere : Option Int) :
    ∃ q', combine .star a' b' elsewhere = .ok q' ∧ q.scalar = q'.scalar ∧ q.unit = q'.unit := by
  rw [combine] at made
  obtain ⟨unit, found, made⟩ := bind_eq_ok.mp made
  rw [combine, resultUnit_of_units found first second elsewhere]
  cases made
  exact ⟨_, rfl, scalar.symm, rfl⟩

/-- The number with its sign changed keeps its unit. -/
theorem combine_minusOne (q : Quantity) (offset : Option Int) :
    ∃ r, combine .star .minusOne q offset = .ok r ∧ r.unit = q.unit ∧ r.scalar = Binary64.minusOne.mul q.scalar :=
  ⟨_, rfl, rfl, rfl⟩

theorem combine_star_minusOne (named : q.unit ≠ some []) (offset : Option Int) :
    ∃ r, combine .star q .minusOne offset = .ok r ∧ r.unit = q.unit ∧ r.scalar = q.scalar.mul .minusOne := by
  have unit : resultUnit .star q .minusOne offset = .ok q.unit := by
    cases present : q.unit with
    | none => simp [resultUnit, present, minusOne]
    | some u =>
      have written : u ≠ [] := fun empty => named (empty ▸ present)
      simp [resultUnit, present, minusOne, written]
  rw [combine, unit]
  exact ⟨_, rfl, rfl, rfl⟩

/-- In a product the sign may be on either number. -/
theorem sameOutcome_star (named : a.unit ≠ some []) (first : a.scalar.IsEncoded) (second : b.scalar.IsEncoded)
    (offset signOffset : Option Int) :
    SameOutcome ((combineFactor .star a b offset signOffset).map .number) (combineNegated .star a b offset signOffset) := by
  obtain ⟨a', left, leftUnit, leftScalar⟩ := combine_star_minusOne named offset
  obtain ⟨b', right, rightUnit, rightScalar⟩ := combine_minusOne b signOffset
  have scalar : a'.scalar.mul b.scalar = a.scalar.mul b'.scalar := by
    rw [leftScalar, rightScalar, Binary64.mul_minusOne first, Binary64.mul_comm .minusOne,
      Binary64.mul_minusOne second, Binary64.neg_mul]
  rw [combineFactor, combineNegated, left, right]
  apply sameOutcome_of_ok
  · intro p made
    exact combine_star_of_units made leftUnit.symm rightUnit scalar.symm offset
  · intro q made
    obtain ⟨p, made, -⟩ := combine_star_of_units made leftUnit rightUnit.symm scalar signOffset
    exact ⟨p, made⟩

end Quantity

section

variable {scope : Scope} (offsets : Nat → Option Int) {op : Operator} (a b : Numeral)

def Formula.signed (scope : Scope) (offsets : Nat → Option Int) (b : Numeral) : Formula scope .operand :=
  .sign (offsets 3) (.group (offsets 4) (.term (.factor (.number b (offsets 5)))) (offsets 6))

theorem evaluate_additive_sign (adds : op.isAdditive = true) :
    (evaluate scope (signedOperand offsets op a b)).result =
      (Quantity.combineNegated op a.quantity b.quantity (offsets 2) (offsets 3)).map .number := by
  have stays : op.appliesBefore .star = false := Operator.not_appliesBefore adds rfl
  have applied := Value.apply_numbers (Operator.isArithmetic_of_isAdditive adds)
  refine (evaluate_group (.plus (.term (.factor (.number a (offsets 1)))) op adds (offsets 2)
    (.factor (.signed scope offsets b))) (offsets 0) (offsets 7)).trans ?_
  simp only [Formula.outcome, Formula.signed, Formula.read, Standing.hold, Held.applyWhile, Held.settle, Held.apply,
    pure_bind, stays, Bool.false_eq_true, if_false, bind_pure]
  rw [Value.apply_numbers rfl]
  simp only [bind_assoc, pure_bind, applied, map_eq_bind, Quantity.combineNegated]

theorem evaluate_multiplicative_sign (multiplies : op.isMultiplicative = true) :
    (evaluate scope (signedOperand offsets op a b)).result =
      (Quantity.combineFactor op a.quantity b.quantity (offsets 2) (offsets 3)).map .number := by
  have goes : op.appliesBefore .star = true := Operator.appliesBefore_of_isMultiplicative multiplies
  have applied := Value.apply_numbers (Operator.isArithmetic_of_isMultiplicative multiplies)
  have star : Operator.star.isArithmetic = true := rfl
  refine (evaluate_group (.term (.times (.factor (.number a (offsets 1))) op multiplies (offsets 2)
    (.signed scope offsets b))) (offsets 0) (offsets 7)).trans ?_
  simp only [Formula.outcome, Formula.signed, Formula.read, Standing.hold, Held.applyWhile, Held.settle, Held.apply,
    pure_bind, goes, if_true, applied, bind_assoc, Value.apply_numbers star, map_eq_bind, Quantity.combineFactor]

end

def Numeral.ofDigit (n : Nat) : Numeral := ⟨.finite false (n * Binary64.oneUnits), none, false, Nat.toDigits 10 n⟩

theorem isEncoded_six : (Numeral.ofDigit 6).value.IsEncoded := ⟨0x4018000000000000, by decide +kernel⟩

theorem isEncoded_four : (Numeral.ofDigit 4).value.IsEncoded := ⟨0x4010000000000000, by decide +kernel⟩

/-- The quotient and the remainder of six and minus four are not what is evaluated. -/
theorem not_sameOutcome_sign (scope : Scope) {op : Operator} (divides : op = .slash ∨ op = .percent) :
    ¬ SameOutcome (evaluate scope (signedOperand (fun _ => none) op (.ofDigit 6) (.ofDigit 4))).result
      (Quantity.combineNegated op (Numeral.ofDigit 6).quantity (Numeral.ofDigit 4).quantity none none) := by
  rcases divides with rfl | rfl
  · have quotient : Quantity.combineNegated .slash (Numeral.ofDigit 6).quantity (Numeral.ofDigit 4).quantity none none =
        .ok (.computedOf (.finite true (3 * Binary64.oneUnits / 2)) none) := by decide +kernel
    have evaluated : Quantity.combineFactor .slash (Numeral.ofDigit 6).quantity (Numeral.ofDigit 4).quantity none none =
        .ok (.computedOf (.finite true (24 * Binary64.oneUnits)) none) := by decide +kernel
    rw [evaluate_multiplicative_sign _ _ _ rfl, quotient, evaluated]
    exact not_sameOutcome (by decide +kernel)
  · have remainder : Quantity.combineNegated .percent (Numeral.ofDigit 6).quantity (Numeral.ofDigit 4).quantity none none =
        .ok (.computedOf (.finite false (2 * Binary64.oneUnits)) none) := by decide +kernel
    have evaluated : Quantity.combineFactor .percent (Numeral.ofDigit 6).quantity (Numeral.ofDigit 4).quantity none none =
        .ok (.computedOf .zero none) := by decide +kernel
    rw [evaluate_multiplicative_sign _ _ _ rfl, remainder, evaluated]
    exact not_sameOutcome (by decide +kernel)

/-- A minus sign behind an operator: what is evaluated, and behind which operators this is
the operator applied to the operand with its sign changed. -/
theorem evaluate_sign_iff (scope : Scope) {op : Operator} (arithmetic : op.isArithmetic = true) :
    (∀ offsets a b, (evaluate scope (signedOperand offsets op a b)).result =
      (if op.isAdditive then Quantity.combineNegated op a.quantity b.quantity (offsets 2) (offsets 3)
        else Quantity.combineFactor op a.quantity b.quantity (offsets 2) (offsets 3)).map .number) ∧
    ((∀ offsets (a b : Numeral), a.unit ≠ some [] → a.value.IsEncoded → b.value.IsEncoded →
      SameOutcome (evaluate scope (signedOperand offsets op a b)).result
        (Quantity.combineNegated op a.quantity b.quantity (offsets 2) (offsets 3))) ↔
      op ≠ .slash ∧ op ≠ .percent) := by
  constructor
  · intro offsets a b
    by_cases adds : op.isAdditive = true
    · rw [if_pos adds, evaluate_additive_sign offsets a b adds]
    · have multiplies : op.isMultiplicative = true := by
        cases op with
        | plus | minus => exact absurd rfl adds
        | star | slash | percent => rfl
        | _ => cases arithmetic
      rw [if_neg adds, evaluate_multiplicative_sign offsets a b multiplies]
  · constructor
    · intro same
      by_contra other
      have divides : op = .slash ∨ op = .percent := by tauto
      apply not_sameOutcome_sign scope divides
      exact same (fun _ => none) (.ofDigit 6) (.ofDigit 4) (by simp [Numeral.ofDigit]) isEncoded_six isEncoded_four
    · rintro ⟨notSlash, notPercent⟩ offsets a b named first second
      cases op with
      | plus | minus =>
        rw [evaluate_additive_sign offsets a b rfl]
        exact sameOutcome_of_ok (fun q made => ⟨q, made, rfl, rfl⟩) fun q made => ⟨q, made⟩
      | star =>
        rw [evaluate_multiplicative_sign offsets a b rfl]
        exact Quantity.sameOutcome_star named first second _ _
      | slash => exact absurd rfl notSlash
      | percent => exact absurd rfl notPercent
      | _ => cases arithmetic

/-- The product `2 * -(3)`. -/
theorem evaluate_sign_product : Operator.star.isArithmetic = true ∧
    SameOutcome (evaluate (.empty 5) (signedOperand (fun _ => none) .star (.ofDigit 2) (.ofDigit 3))).result
      (Quantity.combineNegated .star (Numeral.ofDigit 2).quantity (Numeral.ofDigit 3).quantity none none) ∧
    Quantity.combineNegated .star (Numeral.ofDigit 2).quantity (Numeral.ofDigit 3).quantity none none =
      .ok (.computedOf (.finite true (6 * Binary64.oneUnits)) none) := by
  have two : (Numeral.ofDigit 2).value.IsEncoded := ⟨0x4000000000000000, by decide +kernel⟩
  have three : (Numeral.ofDigit 3).value.IsEncoded := ⟨0x4008000000000000, by decide +kernel⟩
  have named : (Numeral.ofDigit 2).unit ≠ some [] := by simp [Numeral.ofDigit]
  exact ⟨rfl, (evaluate_sign_iff (.empty 5) rfl).2.mpr (by decide) _ _ _ named two three, by decide +kernel⟩

def quotientOffsets (n : Nat) : Option Int := some (if n < 2 then n else if n = 2 then 3 else n + 2)

/-- The quotient `6 / -(2)` is evaluated as six, divided by minus one and times two. -/
theorem evaluate_sign_quotient :
    tokenize "(6 / -(2))".toList = .ok (signedOperand quotientOffsets .slash (.ofDigit 6) (.ofDigit 2)) ∧
    (evaluate (.empty 5) (signedOperand quotientOffsets .slash (.ofDigit 6) (.ofDigit 2))).result =
      .ok (.number (.computedOf (.finite true (12 * Binary64.oneUnits)) none)) ∧
    Quantity.combineNegated .slash (Numeral.ofDigit 6).quantity (Numeral.ofDigit 2).quantity (quotientOffsets 2)
        (quotientOffsets 3) = .ok (.computedOf (.finite true (3 * Binary64.oneUnits)) none) := by
  have evaluated : Quantity.combineFactor .slash (Numeral.ofDigit 6).quantity (Numeral.ofDigit 2).quantity
      (quotientOffsets 2) (quotientOffsets 3) = .ok (.computedOf (.finite true (12 * Binary64.oneUnits)) none) := by decide +kernel
  refine ⟨by decide +kernel, ?_, by decide +kernel⟩
  rw [evaluate_multiplicative_sign _ _ _ rfl, evaluated]
  rfl

end Stylesheet

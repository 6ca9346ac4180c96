import Stylesheet.Proofs.Value.Formula

/-! Precedence. In parentheses a formula without signs has the value of its tree: operands
from left to right, and every operator as soon as both its operands have their values. A
product is finished before anything that is no part of it is applied, and a sum is all
that is on hold in its parentheses. -/
namespace Stylesheet

variable {scope : Scope} {level : Level}

namespace Formula

def isUnsigned : {level : Level} → Formula scope level → Bool
  | _, .number .. => true
  | _, .reference .. => true
  | _, .group _ inner _ => inner.isUnsigned
  | _, .sign .. => false
  | _, .factor f => f.isUnsigned
  | _, .times left _ _ _ right => left.isUnsigned && right.isUnsigned
  | _, .term f => f.isUnsigned
  | _, .plus left _ _ _ right => left.isUnsigned && right.isUnsigned

/-- The value of the tree that a formula is: each operator behind its operands, the left
one first. -/
def value : {level : Level} → Formula scope level → Except Failure Quantity
  | _, .number numeral _ => return numeral.quantity
  | _, .reference _ _ q _ => return q
  | _, .group _ inner _ => inner.value
  | _, .sign offset signed => do Quantity.combine .star .minusOne (← signed.value) offset
  | _, .factor f => f.value
  | _, .times left op _ offset right => do Quantity.combine op (← left.value) (← right.value) offset
  | _, .term f => f.value
  | _, .plus left op _ offset right => do Quantity.combine op (← left.value) (← right.value) offset

end Formula

/-- In parentheses every operator calculates with two numbers. -/
theorem Value.apply_numbers {op : Operator} (arithmetic : op.isArithmetic = true) (a b : Quantity)
    (offset : Option Int) (precision : Int) :
    Value.apply op (.number a) (.number b) true offset precision =
      Quantity.combine op a b offset >>= fun q => return .number q := by
  have calculated : Value.calculate op (.number a) (.number b) offset precision =
      Quantity.combine op a b offset >>= fun q => return .number q := by
    rw [Value.calculate, if_pos arithmetic]
    rfl
  rw [Value.apply, calculated]
  split <;> rfl

namespace Operator

variable {pending next : Operator}

theorem appliesBefore_of_isMultiplicative (multiplies : pending.isMultiplicative = true) :
    pending.appliesBefore next = true := by
  cases pending <;> first | rfl | cases multiplies

theorem appliesBefore_of_isAdditive (arithmetic : pending.isArithmetic = true) (adds : next.isAdditive = true) :
    pending.appliesBefore next = true := by
  cases next with
  | plus | minus => cases pending <;> first | rfl | cases arithmetic
  | _ => cases adds

theorem not_appliesBefore (adds : pending.isAdditive = true) (multiplies : next.isMultiplicative = true) :
    pending.appliesBefore next = false := by
  simp [appliesBefore, adds, multiplies]

end Operator

/-- When a formula at the level has been read behind operators on hold, applying
operators while they satisfy `p` applies all of its own and comes to the others only
then. -/
def Level.Closes (p : Operator → Bool) (held : List Held) : Level → Prop
  | .operand => True
  | .product => (∀ op, op.isMultiplicative = true → p op = true) ∧ ∀ h ∈ held.head?, h.op.isAdditive = true
  | .sum => (∀ op, op.isArithmetic = true → p op = true) ∧ held = []

namespace Formula

variable {p : Operator → Bool} {held : List Held}

/-- Reading the formula and applying operators behind it is applying them behind its
value. -/
def ReadsAsValue (f : Formula scope level) : Prop :=
  ∀ p held, level.Closes p held →
    (f.read true held >>= fun s => Held.applyWhile scope.precision true p s.held s.value) =
      f.value >>= fun q => Held.applyWhile scope.precision true p held (.number q)

/-- Two parts with an operator between them, where the operator is put on hold behind the
first part and applied behind the second. -/
theorem ReadsAsValue.binary {left right : Level} {f : Formula scope left} {g : Formula scope right}
    (first : f.ReadsAsValue) (second : g.ReadsAsValue) {op : Operator} (arithmetic : op.isArithmetic = true)
    (offset : Option Int) (before : left.Closes (·.appliesBefore op) held)
    (stops : ∀ h ∈ held.head?, h.op.appliesBefore op = false)
    (behind : ∀ q, right.Closes p (⟨.number q, op, arithmetic, offset⟩ :: held)) (applies : p op = true) :
    ((do
      let s ← f.read true held
      let held ← s.hold scope.precision true op arithmetic offset
      g.read true held) >>= fun s => Held.applyWhile scope.precision true p s.held s.value) =
      (do Quantity.combine op (← f.value) (← g.value) offset) >>= fun q =>
        Held.applyWhile scope.precision true p held (.number q) := by
  have held_eq : (f.read true held >>= fun s => s.hold scope.precision true op arithmetic offset) =
      f.value >>= fun q => return ⟨.number q, op, arithmetic, offset⟩ :: held := by
    simp only [Standing.hold]
    rw [← bind_assoc, first _ _ before, bind_assoc]
    apply bind_congr
    intro q
    rw [Held.applyWhile_none stops, pure_bind]
  rw [← bind_assoc, held_eq]
  simp only [bind_assoc, pure_bind]
  apply bind_congr
  intro a
  rw [second _ _ (behind a)]
  apply bind_congr
  intro b
  rw [Held.applyWhile, if_pos applies, Held.apply, Value.apply_numbers arithmetic, bind_assoc]
  rfl

theorem ReadsAsValue.outcome_eq {f : Formula scope .sum} (reads : f.ReadsAsValue) :
    f.outcome true = f.value >>= fun q => return .number q := by
  have all (op : Operator) (_ : op.isArithmetic = true) : (fun _ => true) op = true := rfl
  have whole := reads (fun _ => true) [] ⟨all, rfl⟩
  simp only [Held.applyWhile_all all, Held.settle, pure_bind] at whole
  have value := congrArg (· >>= fun s : Standing => pure s.value) whole
  simpa only [outcome, bind_assoc, pure_bind, bind_pure] using value

/-- A formula without signs is read as the value of its tree. -/
theorem readsAsValue_of_isUnsigned (f : Formula scope level) (unsigned : f.isUnsigned = true) :
    f.ReadsAsValue := by
  induction f with
  | number numeral offset => exact fun p held _ => rfl
  | reference name offset q bound => exact fun p held _ => rfl
  | group opened f closed ih =>
    intro p held _
    rw [read_group, (ih unsigned).outcome_eq]
    simp only [bind_assoc, pure_bind]
    rfl
  | sign offset f ih => cases unsigned
  | factor f ih => exact fun p held _ => ih unsigned p held trivial
  | term f ih =>
    rintro p held ⟨all, rfl⟩
    refine ih unsigned p [] ⟨fun op multiplies => all op ?_, by simp⟩
    exact Operator.isArithmetic_of_isMultiplicative multiplies
  | times f op multiplies offset g first second =>
    rw [isUnsigned, Bool.and_eq_true] at unsigned
    rintro p held ⟨all, newest⟩
    have stops : ∀ h ∈ held.head?, h.op.appliesBefore op = false :=
      fun h here => Operator.not_appliesBefore (newest h here) multiplies
    have before : Level.product.Closes (·.appliesBefore op) held :=
      ⟨fun _ multiplies => Operator.appliesBefore_of_isMultiplicative multiplies, newest⟩
    exact (first unsigned.1).binary (second unsigned.2) _ offset before stops (fun _ => trivial) (all op multiplies)
  | plus f op adds offset g first second =>
    rw [isUnsigned, Bool.and_eq_true] at unsigned
    rintro p held ⟨all, rfl⟩
    have before : Level.sum.Closes (·.appliesBefore op) [] :=
      ⟨fun _ arithmetic => Operator.appliesBefore_of_isAdditive arithmetic adds, rfl⟩
    have multiplied (op : Operator) (multiplies : op.isMultiplicative = true) : p op = true :=
      all op (Operator.isArithmetic_of_isMultiplicative multiplies)
    have arithmetic := Operator.isArithmetic_of_isAdditive adds
    exact (first unsigned.1).binary (second unsigned.2) arithmetic offset before (by simp)
      (fun _ => ⟨multiplied, by simpa using adds⟩) (all op arithmetic)

end Formula

/-- In parentheses arithmetic follows the grammar: evaluating the lexemes of a sum gives
the value of its tree, or its first error. -/
theorem evaluate_parenthesized (f : Formula scope .sum) (unsigned : f.isUnsigned = true)
    (opened closed : Option Int) :
    (evaluate scope (⟨.operator .leftParen, opened⟩ :: (f.lexemes ++ [⟨.operator .rightParen, closed⟩]))).result =
      f.value.map .number := by
  rw [evaluate_group, (f.readsAsValue_of_isUnsigned unsigned).outcome_eq, map_eq_bind]

def dividedSum : Formula (.empty 5) .sum :=
  let numeral (n : Nat) (unit : Option Text) (raw : Text) : Numeral := ⟨.finite false (n * Binary64.oneUnits), unit, false, raw⟩
  let three : Formula (.empty 5) .sum :=
    .plus (.term (.factor (.number (numeral 1 none ['1']) (some 12)))) .plus rfl (some 14)
      (.factor (.number (numeral 2 none ['2']) (some 16)))
  .plus (.term (.factor (.number (numeral 8 (some "px".toList) "8px".toList) (some 1)))) .minus rfl (some 5)
    (.times (.times (.factor (.number (numeral 6 none ['6']) (some 7))) .slash rfl (some 9)
      (.group (some 11) three (some 17))) .star rfl (some 19) (.number (numeral 3 none ['3']) (some 21)))

theorem evaluate_dividedSum : dividedSum.isUnsigned = true ∧
    tokenize "(8px - 6 / (1 + 2) * 3)".toList =
      .ok (⟨.operator .leftParen, some 0⟩ :: (dividedSum.lexemes ++ [⟨.operator .rightParen, some 22⟩])) ∧
    (evaluate (.empty 5) (⟨.operator .leftParen, some 0⟩ ::
      (dividedSum.lexemes ++ [⟨.operator .rightParen, some 22⟩]))).result = dividedSum.value.map .number ∧
    dividedSum.value = .ok (.computedOf (.finite false (2 * Binary64.oneUnits)) (some "px".toList)) :=
  ⟨rfl, by decide +kernel, evaluate_parenthesized dividedSum rfl (some 0) (some 22), by decide +kernel⟩

end Stylesheet

import Stylesheet.Lexeme.Scan
import Stylesheet.Proofs.Value.Faults
import Stylesheet.Proofs.Value.Stacks

/-! How evaluation treats its stacks. Before each part of an expression and behind the
last, the stacks are in order, and what the next part takes from them without asking is
there; and only arithmetic operators are ever applied. All of it holds of any lexemes
in any order, also where operands or parentheses are missing. -/
namespace Stylesheet

namespace Evaluate

/-- While it evaluates the expression the machine is in this state, behind some of the
parts and before the others. -/
def Passes (scope : Scope) (e : Expression) (m : Machine) : Prop :=
  ∃ read, read <+: pieces (Expression.withoutComments e) ∧
    (read.foldlM (step (evaluate scope) scope) Machine.start).result = .ok m

namespace Machine

/-- The order of the stacks: open parentheses and arithmetic operators on hold, each
open parenthesis with a record of a height that is still reached; values and commas; and
on top a value, unless an operator was read last. -/
structure InOrder (m : Machine) : Prop where
  operators : ∀ op ∈ m.operators, op.op = .leftParen ∨ op.op.isArithmetic = true
  parens : m.operators.countP (·.op == .leftParen) = m.parens.length
  heights : ∀ paren ∈ m.parens, paren.height ≤ m.values.length
  entries : ∀ item ∈ m.values, (∃ v, item = .value v) ∨ item = .separator .comma
  top : m.afterOperator = false → EndsInValue m.values

/-- What is taken from the stacks without a look is there. A value, or a parenthesis,
that follows a value finds it, with or without applying the operators before it. A
closing parenthesis finds the one that opened its group on top of the operators, the
entries from before the group, and among them the value that the group is to join. -/
structure Provides (precision : Int) (m : Machine) : Prop where
  left : m.afterOperator = false →
    ∀ m', m' = m ∨ (m.reduceToParen precision).result = .ok m' → EndsInValue m'.values
  opened : ∀ paren parens, m.parens = paren :: parens → ∀ m', (m.reduceToParen precision).result = .ok m' →
    (∃ op operators, m'.operators = op :: operators ∧ op.op = .leftParen) ∧
      paren.height ≤ m'.values.length ∧
      (paren.joins = true → EndsInValue (m'.values.drop (m'.values.length - paren.height)))

variable {m : Machine}

theorem Sound.inOrder (sound : m.Sound IsEntry) : m.InOrder := by
  refine ⟨sound.stacked.operators_arithmetic, sound.stacked.count_parens, sound.stacked.heights_le, ?_, sound.top⟩
  intro item member
  have entry := sound.entries item member
  cases item with
  | value v => exact .inl ⟨v, rfl⟩
  | separator op => exact .inr (congrArg Item.separator entry)

theorem Sound.provides {precision : Int} (sound : m.Sound IsEntry) : m.Provides precision := by
  have closed := closed_isEntry precision
  constructor
  · rintro after m' (rfl | reduced)
    · exact sound.top after
    · obtain ⟨sound, -, same, -⟩ := sound.reduceToParen closed reduced
      exact sound.top (same.trans after)
  · intro paren parens inside m' reduced
    obtain ⟨op, operators, inner, outer, top, opens, split, height, joined, -⟩ := sound.opened closed inside reduced
    have count : m'.values.length - paren.height = inner.length := by
      rw [split, List.length_append]
      omega
    refine ⟨⟨op, operators, top, opens⟩, ?_, ?_⟩
    · rw [split, List.length_append]
      omega
    · intro joins
      rw [count, split, List.drop_left]
      exact joined joins

end Machine

theorem Passes.sound {scope : Scope} {e : Expression} {m : Machine} (passes : Passes scope e m) :
    m.Sound IsEntry := by
  obtain ⟨read, -, ran⟩ := passes
  exact sound_of_parts (closed_isEntry _) (fun part _ => supplies_isEntry part) ran

/-- A value is what the machine finishes with once all parts are read. -/
theorem reads_of_evaluate {scope : Scope} {e : Expression} {v : Value}
    (evaluated : (evaluate scope e).result = .ok v) :
    ∃ m offset, ((pieces (Expression.withoutComments e)).foldlM (step (evaluate scope) scope) .start).result = .ok m ∧
      (m.finish scope.precision offset).result = .ok v := by
  rw [evaluate_eq_run] at evaluated
  simp only [run] at evaluated
  split at evaluated
  · cases evaluated
  · next l rest uncommented =>
    rw [Traced.result_bind] at evaluated
    obtain ⟨m, ran, finished⟩ := bind_eq_ok.mp evaluated
    exact ⟨m, l.offset, uncommented ▸ ran, finished⟩

theorem passes_of_evaluate {scope : Scope} {e : Expression} {v : Value}
    (evaluated : (evaluate scope e).result = .ok v) :
    ∃ m offset, Passes scope e m ∧ (m.finish scope.precision offset).result = .ok v := by
  obtain ⟨m, offset, ran, finished⟩ := reads_of_evaluate evaluated
  exact ⟨m, offset, ⟨_, List.prefix_rfl, ran⟩, finished⟩

end Evaluate

/-- A failure other than the application of what is no arithmetic operator. -/
def Failure.IsNoMisuse (failure : Failure) : Prop := ∀ op offset, failure ≠ .error (.notArithmetic op) offset

theorem Failure.admits_isNoMisuse (precision : Int) : Admits IsNoMisuse (fun _ => True) precision where
  error own _ := by
    intro op offset same
    cases same
    cases own
  nowhere := trivial
  spelled _ _ _ := by simp [IsNoMisuse]
  shown _ _ _ := by simp [IsNoMisuse]
  converted _ := by simp [IsNoMisuse]

open Evaluate in
/-- The stacks are never misused. In every state that an evaluation passes through, on the
way to its value or to an error, they are in order and provide what is taken from them,
and no operator but an arithmetic one is applied. -/
theorem stacks_in_order (scope : Scope) (e : Expression) :
    (∀ m, Passes scope e m → m.InOrder ∧ m.Provides scope.precision) ∧
      (∀ v, (evaluate scope e).result = .ok v →
        ∃ m offset, Passes scope e m ∧ (m.finish scope.precision offset).result = .ok v) ∧
      ∀ op offset, (evaluate scope e).result ≠ .error (.error (.notArithmetic op) offset) := by
  refine ⟨?_, ?_, ?_⟩
  · intro m passes
    exact ⟨passes.sound.inOrder, passes.sound.provides⟩
  · intro v evaluated
    exact passes_of_evaluate evaluated
  · intro op offset failed
    exact failsAs_evaluate (Failure.admits_isNoMisuse _) e _ failed op offset rfl

-- The plus lacks its right operand and takes the `1` from outside the group.
example : ((do (← (evaluate (.empty 5) (← tokenize "1 (2 + )".toList)).result).css 5 false).toOption) =
    some ['3'] := by
  decide +kernel

end Stylesheet

import Stylesheet.Proofs.Results
import Stylesheet.Value.Evaluate

/-! The stacks of the machine that evaluates an expression. Whatever the order of the
lexemes, there are entries enough for the operators on hold, so that what is popped is
there. An operator without its right operand, just before a closing parenthesis, takes
an entry from outside its group; it puts its result in the place of that entry, so
outside no entry is missing either. -/
namespace Stylesheet

namespace Evaluate

def EndsInValue (values : List Item) : Prop := ∃ v rest, values = .value v :: rest

/-- There are entries for every operator on hold, and `spare` more. The operators of an
open group have the entries of the group to themselves; a group that is to join the
value before it finds a value there. -/
inductive Stacked : List Pending → List Paren → List Item → Nat → Prop where
  | base {values : List Item} {spare : Nat} (enough : spare ≤ values.length) : Stacked [] [] values spare
  | hold {op : Pending} {operators : List Pending} {parens : List Paren} {values : List Item} {spare : Nat}
      (arithmetic : op.op.isArithmetic = true) (below : Stacked operators parens values (spare + 1)) :
      Stacked (op :: operators) parens values spare
  | group {op : Pending} {operators : List Pending} {paren : Paren} {parens : List Paren}
      {values outer : List Item} {spare : Nat} (inner : List Item) (opens : op.op = .leftParen)
      (split : values = inner ++ outer) (height : outer.length = paren.height)
      (joined : paren.joins = true → EndsInValue outer) (enough : spare ≤ inner.length)
      (below : Stacked operators parens outer paren.joins.toNat) :
      Stacked (op :: operators) (paren :: parens) values spare

namespace Stacked

variable {operators : List Pending} {parens : List Paren} {values : List Item} {spare : Nat}

theorem mono {fewer : Nat} (stacked : Stacked operators parens values spare) (le : fewer ≤ spare) :
    Stacked operators parens values fewer := by
  induction stacked generalizing fewer with
  | base enough => exact .base (Nat.le_trans le enough)
  | hold arithmetic below ih => exact .hold arithmetic (ih (Nat.succ_le_succ le))
  | group inner opens split height joined enough below =>
    exact .group inner opens split height joined (Nat.le_trans le enough) below

theorem push (stacked : Stacked operators parens values spare) (item : Item) :
    Stacked operators parens (item :: values) (spare + 1) := by
  induction stacked with
  | base enough => exact .base (Nat.succ_le_succ enough)
  | hold arithmetic below ih => exact .hold arithmetic ih
  | group inner opens split height joined enough below =>
    refine .group (item :: inner) opens ?_ height joined (Nat.succ_le_succ enough) below
    rw [split, List.cons_append]

/-- A value may stand in the place of the newest entry. -/
theorem replace {item : Item} (stacked : Stacked operators parens (item :: values) spare) (v : Value) :
    Stacked operators parens (.value v :: values) spare := by
  generalize whole : item :: values = entries at stacked
  induction stacked generalizing item values with
  | base enough =>
    subst whole
    exact .base enough
  | hold arithmetic below ih => exact .hold arithmetic (ih whole)
  | group inner opens split height joined enough below ih =>
    subst split
    rcases List.cons_eq_append_iff.mp whole with ⟨rfl, rfl⟩ | ⟨inner, rfl, rfl⟩
    · exact .group [] opens rfl height (fun _ => ⟨v, values, rfl⟩) enough (ih rfl)
    · exact .group (.value v :: inner) opens rfl height joined enough below

/-- Two entries become one. If the older one stands outside the innermost group, it is
the newest there, and the result takes its place. -/
theorem apply {right left : Item} (stacked : Stacked operators parens (right :: left :: values) (spare + 1))
    (result : Value) : Stacked operators parens (.value result :: values) spare := by
  generalize whole : right :: left :: values = entries at stacked
  generalize more : spare + 1 = count at stacked
  induction stacked generalizing spare with
  | base enough =>
    subst whole more
    exact .base (Nat.le_of_succ_le_succ enough)
  | hold arithmetic below ih => exact .hold arithmetic (ih whole (congrArg (· + 1) more))
  | group inner opens split height joined enough below ih =>
    subst split more
    rcases List.cons_eq_append_iff.mp whole with ⟨rfl, -⟩ | ⟨inner, rfl, rest⟩
    · cases enough
    rcases List.cons_eq_append_iff.mp rest with ⟨rfl, rfl⟩ | ⟨inner, rfl, rfl⟩
    · refine .group [] opens rfl height (fun _ => ⟨result, values, rfl⟩) ?_ (below.replace result)
      exact Nat.le_of_succ_le_succ enough
    · refine .group (.value result :: inner) opens rfl height joined ?_ below
      exact Nat.le_of_succ_le_succ enough

theorem operators_arithmetic (stacked : Stacked operators parens values spare) :
    ∀ op ∈ operators, op.op = .leftParen ∨ op.op.isArithmetic = true := by
  induction stacked with
  | base => simp
  | hold arithmetic below ih => exact List.forall_mem_cons.mpr ⟨.inr arithmetic, ih⟩
  | group inner opens split height joined enough below ih => exact List.forall_mem_cons.mpr ⟨.inl opens, ih⟩

theorem count_parens (stacked : Stacked operators parens values spare) :
    operators.countP (·.op == .leftParen) = parens.length := by
  induction stacked with
  | base => rfl
  | hold arithmetic below ih =>
    rw [List.countP_cons_of_neg, ih]
    intro opens
    rw [eq_of_beq opens] at arithmetic
    cases arithmetic
  | group inner opens split height joined enough below ih =>
    rw [List.countP_cons_of_pos (by rw [opens]; rfl), ih, List.length_cons]

theorem heights_le (stacked : Stacked operators parens values spare) :
    ∀ paren ∈ parens, paren.height ≤ values.length := by
  induction stacked with
  | base => simp
  | hold arithmetic below ih => exact ih
  | group inner opens split height joined enough below ih =>
    subst split
    rw [List.length_append]
    refine List.forall_mem_cons.mpr ⟨by omega, ?_⟩
    intro paren member
    exact Nat.le_trans (ih paren member) (Nat.le_add_left _ _)

end Stacked

section

variable {precision : Int} {inParens : Bool} {p : Operator → Bool}

theorem applyTop_ok {op : Pending} {values values' : List Item}
    (ran : (applyTop precision inParens op values).result = .ok values') :
    ∃ right left rest result, values = .value right :: .value left :: rest ∧
      Value.apply op.op left right inParens op.offset precision = .ok result ∧
      values' = .value result :: rest := by
  simp only [applyTop] at ran
  split at ran
  · next right left rest =>
    rw [Traced.result_bind] at ran
    obtain ⟨result, applied, ran⟩ := bind_eq_ok.mp ran
    obtain rfl := Except.ok.inj ran
    exact ⟨right, left, rest, result, rfl, applied, rfl⟩
  · cases ran

variable {Q : Item → Prop}

/-- A property of entries that everything the machine makes of entries has again. -/
structure Closed (precision : Int) (Q : Item → Prop) : Prop where
  comma : Q (.separator .comma)
  sign : Q (.value (.number .minusOne))
  applied {op : Operator} {left right result : Value} {inParens : Bool} {offset : Option Int} :
    Q (.value left) → Q (.value right) → Value.apply op left right inParens offset precision = .ok result →
      Q (.value result)
  listed (items : List Item) : (∀ item ∈ items, Q item) → Q (.value (.list (items.flatMap Item.spread)))

theorem Closed.concat (closed : Closed precision Q) {left : Item} {v : Value} (first : Q left)
    (second : Q (.value v)) : Q (.value (left.concat (.value v))) := by
  have both := closed.listed [left, .value v] (by simp [first, second])
  simpa [Item.concat] using both

theorem Closed.fold (closed : Closed precision Q) {offset : Option Int} {items : List Item} {v : Value}
    (each : ∀ item ∈ items, Q item) (folded : Machine.fold offset items = .ok v) : Q (.value v) := by
  simp only [Machine.fold] at folded
  split at folded
  · cases folded
  · cases folded
    exact each _ List.mem_cons_self
  · cases folded
  · cases folded
    exact closed.listed _ each

/-- Applying operators keeps the stacks in order, and ends at one that is not to be
applied. -/
theorem applyWhile_keeps (closed : Closed precision Q) (noParen : p .leftParen = false)
    {operators operators' : List Pending} {parens : List Paren} {values values' : List Item} {spare : Nat}
    (stacked : Stacked operators parens values spare) (each : ∀ item ∈ values, Q item)
    (ran : (applyWhile precision inParens p operators values).result = .ok (operators', values')) :
    Stacked operators' parens values' spare ∧ (∀ item ∈ values', Q item) ∧
      (EndsInValue values → EndsInValue values') ∧ ∀ op ∈ operators'.head?, p op.op = false := by
  induction operators generalizing values with
  | nil =>
    cases ran
    exact ⟨stacked, each, id, by simp⟩
  | cons op operators ih =>
    simp only [applyWhile] at ran
    split at ran
    · next applies =>
      rw [Traced.result_bind] at ran
      obtain ⟨between, top, ran⟩ := bind_eq_ok.mp ran
      obtain ⟨right, left, rest, result, rfl, applied, rfl⟩ := applyTop_ok top
      simp only [List.forall_mem_cons] at each
      obtain ⟨rightGood, leftGood, others⟩ := each
      have good : ∀ item ∈ .value result :: rest, Q item :=
        List.forall_mem_cons.mpr ⟨closed.applied leftGood rightGood applied, others⟩
      cases stacked with
      | hold arithmetic below =>
        obtain ⟨stacked, each, top, stops⟩ := ih (below.apply result) good ran
        exact ⟨stacked, each, fun _ => top ⟨result, rest, rfl⟩, stops⟩
      | group inner opens =>
        rw [opens, noParen] at applies
        cases applies
    · next stays =>
      cases ran
      exact ⟨stacked, each, id, by simpa using stays⟩

namespace Machine

variable {m m' : Machine}

/-- The stacks are in order, a value is the newest entry unless an operator was read
last, and every entry is as `Q` says. -/
structure Sound (Q : Item → Prop) (m : Machine) : Prop where
  stacked : Stacked m.operators m.parens m.values (!m.afterOperator).toNat
  top : m.afterOperator = false → EndsInValue m.values
  entries : ∀ item ∈ m.values, Q item

theorem sound_start : start.Sound Q := ⟨.base (Nat.le_refl _), by simp [start], by simp [start]⟩

theorem reduceWhile_ok (ran : (m.reduceWhile precision p).result = .ok m') :
    ∃ operators values, (applyWhile precision m.inParens p m.operators m.values).result = .ok (operators, values) ∧
      m' = { m with operators, values } := by
  rw [reduceWhile, Traced.result_bind] at ran
  obtain ⟨⟨operators, values⟩, applied, ran⟩ := bind_eq_ok.mp ran
  exact ⟨operators, values, applied, (Except.ok.inj ran).symm⟩

namespace Sound

theorem reduceToParen (closed : Closed precision Q) (sound : m.Sound Q)
    (ran : (m.reduceToParen precision).result = .ok m') :
    m'.Sound Q ∧ m'.parens = m.parens ∧ m'.afterOperator = m.afterOperator ∧
      ∀ op ∈ m'.operators.head?, op.op = .leftParen := by
  obtain ⟨operators, values, applied, rfl⟩ := reduceWhile_ok ran
  obtain ⟨stacked, each, top, stops⟩ := applyWhile_keeps closed rfl sound.stacked sound.entries applied
  refine ⟨⟨stacked, fun after => top (sound.top after), each⟩, rfl, rfl, ?_⟩
  intro op first
  simpa using stops op first

/-- The same where operators are applied under a condition only. -/
theorem reduceIf (closed : Closed precision Q) (sound : m.Sound Q) {c : Bool}
    (ran : (if c then m.reduceToParen precision else pure m).result = .ok m') :
    m'.Sound Q ∧ m'.afterOperator = m.afterOperator := by
  cases c with
  | true =>
    obtain ⟨sound, -, same, -⟩ := sound.reduceToParen closed ran
    exact ⟨sound, same⟩
  | false =>
    cases ran
    exact ⟨sound, rfl⟩

/-- A group that is being closed was opened, and stands on what was there before. -/
theorem opened (closed : Closed precision Q) (sound : m.Sound Q) {paren : Paren} {parens : List Paren}
    (inside : m.parens = paren :: parens) (ran : (m.reduceToParen precision).result = .ok m') :
    ∃ op operators inner outer, m'.operators = op :: operators ∧ op.op = .leftParen ∧
      m'.values = inner ++ outer ∧ outer.length = paren.height ∧
      (paren.joins = true → EndsInValue outer) ∧ Stacked operators parens outer paren.joins.toNat := by
  obtain ⟨reduced, same, -, stops⟩ := sound.reduceToParen closed ran
  have stacked := reduced.stacked
  rw [same, inside] at stacked
  generalize operatorsEq : m'.operators = operators at stacked stops
  generalize valuesEq : m'.values = values at stacked
  cases stacked with
  | hold arithmetic below =>
    rw [stops _ rfl] at arithmetic
    cases arithmetic
  | group inner opens split height joined enough below =>
    exact ⟨_, _, inner, _, rfl, opens, split, height, joined, below⟩

theorem push (closed : Closed precision Q) (sound : m.Sound Q) {v : Value} (good : Q (.value v))
    (ran : (m.push precision v).result = .ok m') : m'.Sound Q := by
  simp only [Machine.push] at ran
  split at ran
  · next after =>
    cases ran
    have stacked := sound.stacked
    rw [after] at stacked
    exact ⟨stacked.push _, fun _ => ⟨v, m.values, rfl⟩, List.forall_mem_cons.mpr ⟨good, sound.entries⟩⟩
  · next after =>
    rw [Bool.not_eq_true] at after
    rw [Traced.ite_bind, Traced.result_bind] at ran
    obtain ⟨m₁, reduced, ran⟩ := bind_eq_ok.mp ran
    cases ran
    obtain ⟨sound, same⟩ := sound.reduceIf closed reduced
    rw [after] at same
    obtain ⟨left, rest, values⟩ := sound.top same
    obtain ⟨stacked, -, each⟩ := sound
    rw [same, values] at stacked
    rw [values, List.forall_mem_cons] at each
    rw [values]
    refine ⟨stacked.replace _, fun _ => ⟨_, rest, rfl⟩, ?_⟩
    exact List.forall_mem_cons.mpr ⟨closed.concat each.1 good, each.2⟩

theorem openParen (closed : Closed precision Q) (sound : m.Sound Q) {offset : Option Int}
    (ran : (m.openParen precision offset).result = .ok m') : m'.Sound Q := by
  simp only [Machine.openParen] at ran
  rw [Traced.ite_bind, Traced.result_bind] at ran
  obtain ⟨m₁, reduced, ran⟩ := bind_eq_ok.mp ran
  cases ran
  obtain ⟨⟨stacked, top, each⟩, same⟩ := sound.reduceIf closed reduced
  rw [same] at stacked top
  refine ⟨?_, by simp, each⟩
  refine .group [] rfl rfl rfl ?_ (Nat.le_refl _) stacked
  intro joins
  apply top
  simpa using joins

theorem closeParen (closed : Closed precision Q) (sound : m.Sound Q) {offset : Option Int}
    (ran : (m.closeParen precision offset).result = .ok m') : m'.Sound Q := by
  simp only [Machine.closeParen] at ran
  split at ran
  · cases ran
  next paren parens inside =>
  rw [Traced.result_bind] at ran
  obtain ⟨m₁, reduced, ran⟩ := bind_eq_ok.mp ran
  obtain ⟨op, operators, inner, outer, operatorsEq, -, split, height, joined, below⟩ :=
    sound.opened closed inside reduced
  have each := (sound.reduceToParen closed reduced).1.entries
  have count : m₁.values.length - paren.height = inner.length := by
    rw [split, List.length_append]
    omega
  rw [count, split, List.take_left, List.drop_left, operatorsEq] at ran
  rw [split, List.forall_mem_append] at each
  rw [Traced.ite_bind, Traced.result_bind] at ran
  obtain ⟨v, folded, ran⟩ := bind_eq_ok.mp ran
  cases ran
  have good : Q (.value v) := by
    split at folded
    · cases folded
      exact closed.listed [] (by simp)
    · refine closed.fold ?_ folded
      intro item member
      exact each.1 item (List.mem_reverse.mp member)
  dsimp only [List.tail_cons]
  cases joins : paren.joins with
  | false =>
    rw [joins] at below
    exact ⟨below.push _, fun _ => ⟨v, outer, rfl⟩, List.forall_mem_cons.mpr ⟨good, each.2⟩⟩
  | true =>
    rw [joins] at below
    obtain ⟨left, rest, rfl⟩ := joined joins
    refine ⟨below.replace _, fun _ => ⟨_, rest, rfl⟩, ?_⟩
    rw [List.forall_mem_cons] at each
    exact List.forall_mem_cons.mpr ⟨closed.concat each.2.1 good, each.2.2⟩

theorem comma (closed : Closed precision Q) (sound : m.Sound Q) {offset : Option Int}
    (ran : (m.comma precision offset).result = .ok m') : m'.Sound Q := by
  simp only [Machine.comma] at ran
  split at ran
  · cases ran
  · rw [Traced.result_bind] at ran
    obtain ⟨m₁, reduced, ran⟩ := bind_eq_ok.mp ran
    cases ran
    obtain ⟨⟨stacked, -, each⟩, -⟩ := sound.reduceToParen closed reduced
    refine ⟨(stacked.push _).mono (Nat.zero_le _), by simp, ?_⟩
    exact List.forall_mem_cons.mpr ⟨closed.comma, each⟩

/-- An operator is put on hold with an entry to spare, which is its left operand. -/
theorem hold (closed : Closed precision Q) {op : Operator} (arithmetic : op.isArithmetic = true)
    {offset : Option Int} (stacked : Stacked m.operators m.parens m.values 1) (each : ∀ item ∈ m.values, Q item)
    (ran : (m.hold precision op offset).result = .ok m') : m'.Sound Q := by
  rw [Machine.hold, Traced.result_bind] at ran
  obtain ⟨m₁, reduced, ran⟩ := bind_eq_ok.mp ran
  cases ran
  obtain ⟨operators, values, applied, rfl⟩ := reduceWhile_ok reduced
  obtain ⟨stacked, each, -, -⟩ := applyWhile_keeps closed rfl stacked each applied
  exact ⟨.hold arithmetic stacked, by simp, each⟩

theorem arithmetic (closed : Closed precision Q) (sound : m.Sound Q) {op : Operator}
    (arithmetic : op.isArithmetic = true) {offset : Option Int}
    (ran : (m.arithmetic precision op offset).result = .ok m') : m'.Sound Q := by
  obtain ⟨stacked, -, each⟩ := sound
  simp only [Machine.arithmetic] at ran
  split at ran
  · next after =>
    rw [after] at stacked
    exact hold closed arithmetic stacked each ran
  split at ran
  · have signed := stacked.push (.value (.number .minusOne))
    refine hold closed rfl (signed.mono (Nat.succ_le_succ (Nat.zero_le _))) ?_ ran
    exact List.forall_mem_cons.mpr ⟨closed.sign, each⟩
  · cases ran

theorem operator (closed : Closed precision Q) (sound : m.Sound Q) {op : Operator} {offset : Option Int}
    (ran : (m.operator precision op offset).result = .ok m') : m'.Sound Q := by
  cases op with
  | leftBrace | rightBrace | semicolon | colon => cases ran
  | leftParen => exact sound.openParen closed ran
  | rightParen => exact sound.closeParen closed ran
  | comma => exact sound.comma closed ran
  | plus | minus | star | slash | percent => exact sound.arithmetic closed rfl ran

theorem finish (closed : Closed precision Q) (sound : m.Sound Q) {offset : Option Int} {v : Value}
    (ran : (m.finish precision offset).result = .ok v) : Q (.value v) := by
  rw [Machine.finish, Traced.result_bind] at ran
  obtain ⟨m₁, reduced, ran⟩ := bind_eq_ok.mp ran
  have each := (sound.reduceToParen closed reduced).1.entries
  split at ran
  · cases ran
  · refine closed.fold ?_ ran
    intro item member
    exact each item (List.mem_reverse.mp member)

end Sound

end Machine

end

section

variable {evaluate : List Lexeme → Traced Value} {scope : Scope} {Q : Item → Prop}

def Supplies (evaluate : List Lexeme → Traced Value) (scope : Scope) (Q : Item → Prop) : Piece → Prop
  | .lexeme l => ∀ v, lexemeValue scope l = .ok v → Q (.value v)
  | .call name arguments offset => ∀ v, (call evaluate scope name arguments offset).result = .ok v → Q (.value v)
  | .unclosed _ => True

theorem Machine.Sound.step (closed : Closed scope.precision Q) {m m' : Machine} (sound : m.Sound Q) {part : Piece}
    (supplies : Supplies evaluate scope Q part) (ran : (step evaluate scope m part).result = .ok m') :
    m'.Sound Q := by
  cases part with
  | call name arguments offset =>
    rw [Evaluate.step, Traced.result_bind] at ran
    obtain ⟨v, called, ran⟩ := bind_eq_ok.mp ran
    exact sound.push closed (supplies v called) ran
  | unclosed offset => cases ran
  | lexeme l =>
    simp only [Evaluate.step] at ran
    split at ran
    · exact sound.operator closed ran
    · rw [Traced.result_bind] at ran
      obtain ⟨v, read, ran⟩ := bind_eq_ok.mp ran
      exact sound.push closed (supplies v read) ran

def IsEntry : Item → Prop
  | .value _ => True
  | .separator op => op = .comma

theorem closed_isEntry (precision : Int) : Closed precision IsEntry :=
  ⟨rfl, trivial, fun _ _ _ => trivial, fun _ _ => trivial⟩

theorem supplies_isEntry (part : Piece) : Supplies evaluate scope IsEntry part := by
  cases part with
  | lexeme | call => exact fun _ _ => trivial
  | unclosed => trivial

/-- However many parts are read, the stacks stay in order. -/
theorem sound_of_parts (closed : Closed scope.precision Q) {parts : List Piece} {m : Machine}
    (supplies : ∀ part ∈ parts, Supplies evaluate scope Q part)
    (ran : (parts.foldlM (step evaluate scope) Machine.start).result = .ok m) : m.Sound Q := by
  refine Traced.foldlM_invariant ?_ Machine.sound_start ran
  intro m part m' member sound stepped
  exact sound.step closed (supplies part member) stepped

end

end Evaluate

end Stylesheet

import Stylesheet.Proofs.Value.Nesting
import Stylesheet.Proofs.Value.Sequence

/-! Arithmetic formulas, and what evaluation makes of their lexemes. Within a formula
every operator on hold has its left operand, so the two stacks of the machine are one
stack of operators that wait for their right operand. A formula is read with that one
stack as the machine reads its lexemes with two, on top of whatever else they hold. -/
namespace Stylesheet

inductive Level where
  | operand
  | product
  | sum

/-- A formula of numbers and of variables that the scope binds to numbers, at a level of
the grammar. Operators of one level stand in a row and bind to the left. -/
inductive Formula (scope : Scope) : Level → Type where
  | number (numeral : Numeral) (offset : Option Int) : Formula scope .operand
  | reference (name : Text) (offset : Option Int) (q : Quantity)
      (bound : scope.value? ('$' :: name) = some (.number q)) : Formula scope .operand
  | group (opened : Option Int) (inner : Formula scope .sum) (closed : Option Int) : Formula scope .operand
  | sign (offset : Option Int) (signed : Formula scope .operand) : Formula scope .operand
  | factor (f : Formula scope .operand) : Formula scope .product
  | times (left : Formula scope .product) (op : Operator) (multiplies : op.isMultiplicative = true)
      (offset : Option Int) (right : Formula scope .operand) : Formula scope .product
  | term (f : Formula scope .product) : Formula scope .sum
  | plus (left : Formula scope .sum) (op : Operator) (adds : op.isAdditive = true)
      (offset : Option Int) (right : Formula scope .product) : Formula scope .sum

theorem Operator.isArithmetic_of_isMultiplicative {op : Operator} (multiplies : op.isMultiplicative = true) :
    op.isArithmetic = true := by
  cases op <;> first | rfl | cases multiplies

theorem Operator.isArithmetic_of_isAdditive {op : Operator} (adds : op.isAdditive = true) :
    op.isArithmetic = true := by
  cases op <;> first | rfl | cases adds

theorem Operator.ne_leftParen (op : Operator) (arithmetic : op.isArithmetic = true) : (op != .leftParen) = true := by
  cases op <;> first | rfl | cases arithmetic

def Numeral.quantity (n : Numeral) : Quantity := ⟨n.value, n.unit, n.computed, some n.raw, false⟩

/-- An arithmetic operator on hold, with its left operand. -/
structure Held where
  left : Value
  op : Operator
  arithmetic : op.isArithmetic = true
  offset : Option Int

/-- Operators on hold, newest first, and the value behind the newest. -/
structure Standing where
  held : List Held
  value : Value

namespace Held

def pending (h : Held) : Evaluate.Pending := ⟨h.op, h.offset⟩

def apply (precision : Int) (inParens : Bool) (h : Held) (right : Value) : Except Failure Value :=
  Value.apply h.op h.left right inParens h.offset precision

def applyWhile (precision : Int) (inParens : Bool) (p : Operator → Bool) :
    List Held → Value → Except Failure Standing
  | [], v => return ⟨[], v⟩
  | h :: held, v =>
    if p h.op then do applyWhile precision inParens p held (← h.apply precision inParens v)
    else return ⟨h :: held, v⟩

def settle (precision : Int) (inParens : Bool) : List Held → Value → Except Failure Value
  | [], v => return v
  | h :: held, v => do settle precision inParens held (← h.apply precision inParens v)

variable {precision : Int} {inParens : Bool} {p : Operator → Bool} {held : List Held} {v : Value} {s : Standing}

/-- What stays on hold was on hold, and the newest of it is not to be applied. -/
theorem applyWhile_held (applied : applyWhile precision inParens p held v = .ok s) :
    s.held <:+ held ∧ ∀ h ∈ s.held.head?, p h.op = false := by
  induction held generalizing v with
  | nil =>
    cases applied
    exact ⟨List.suffix_refl _, by simp⟩
  | cons h held ih =>
    rw [applyWhile] at applied
    split at applied
    · obtain ⟨v', -, applied⟩ := bind_eq_ok.mp applied
      obtain ⟨kept, stops⟩ := ih applied
      exact ⟨kept.trans (List.suffix_cons h held), stops⟩
    · next stays =>
      cases applied
      exact ⟨List.suffix_refl _, by simpa using stays⟩

/-- Where every operator is to be applied, none stays on hold. -/
theorem applyWhile_all (all : ∀ op, op.isArithmetic = true → p op = true) (held : List Held) (v : Value) :
    applyWhile precision inParens p held v = settle precision inParens held v >>= fun v => return ⟨[], v⟩ := by
  induction held generalizing v with
  | nil => rfl
  | cons h held ih =>
    rw [applyWhile, settle, if_pos (all h.op h.arithmetic), bind_assoc]
    exact bind_congr fun v' => ih v'

/-- Nothing is applied where the newest operator is not to be. -/
theorem applyWhile_none (stops : ∀ h ∈ held.head?, p h.op = false) (v : Value) :
    applyWhile precision inParens p held v = return ⟨held, v⟩ := by
  cases held with
  | nil => rfl
  | cons h held => rw [applyWhile, if_neg (by simp [stops h rfl])]

end Held

/-- An operator is put on hold behind the value, after those that go first. -/
def Standing.hold (precision : Int) (inParens : Bool) (op : Operator) (arithmetic : op.isArithmetic = true)
    (offset : Option Int) (s : Standing) : Except Failure (List Held) := do
  let s ← Held.applyWhile precision inParens (·.appliesBefore op) s.held s.value
  return ⟨s.value, op, arithmetic, offset⟩ :: s.held

namespace Formula

variable {scope : Scope} {level : Level}

def lexemes : {level : Level} → Formula scope level → List Lexeme
  | _, .number numeral offset => [⟨.number numeral, offset⟩]
  | _, .reference name offset _ _ => [⟨.ident ('$' :: name), offset⟩]
  | _, .group opened inner closed =>
    ⟨.operator .leftParen, opened⟩ :: (inner.lexemes ++ [⟨.operator .rightParen, closed⟩])
  | _, .sign offset signed => ⟨.operator .minus, offset⟩ :: signed.lexemes
  | _, .factor f => f.lexemes
  | _, .times left op _ offset right => left.lexemes ++ ⟨.operator op, offset⟩ :: right.lexemes
  | _, .term f => f.lexemes
  | _, .plus left op _ offset right => left.lexemes ++ ⟨.operator op, offset⟩ :: right.lexemes

/-- Reads a formula behind operators on hold. A sign is a factor of minus one. -/
def read (inParens : Bool) : {level : Level} → Formula scope level → List Held → Except Failure Standing
  | _, .number numeral _, held => return ⟨held, .number numeral.quantity⟩
  | _, .reference _ _ q _, held => return ⟨held, .number q⟩
  | _, .group _ inner _, held => do
    let s ← inner.read true []
    return ⟨held, ← Held.settle scope.precision true s.held s.value⟩
  | _, .sign offset signed, held => do
    let held ← Standing.hold scope.precision inParens .star rfl offset ⟨held, .number .minusOne⟩
    signed.read inParens held
  | _, .factor f, held => f.read inParens held
  | _, .times left op multiplies offset right, held => do
    let s ← left.read inParens held
    let held ← s.hold scope.precision inParens op (Operator.isArithmetic_of_isMultiplicative multiplies) offset
    right.read inParens held
  | _, .term f, held => f.read inParens held
  | _, .plus left op adds offset right, held => do
    let s ← left.read inParens held
    let held ← s.hold scope.precision inParens op (Operator.isArithmetic_of_isAdditive adds) offset
    right.read inParens held

def outcome (inParens : Bool) (f : Formula scope level) : Except Failure Value := do
  let s ← f.read inParens []
  Held.settle scope.precision inParens s.held s.value

theorem read_group (inParens : Bool) (opened closed : Option Int) (inner : Formula scope .sum) (held : List Held) :
    (group opened inner closed).read inParens held = inner.outcome true >>= fun v => return ⟨held, v⟩ := by
  simp only [read, outcome, bind_assoc]

/-- In parentheses a formula has the value that it has inside them. -/
theorem outcome_group (opened closed : Option Int) (inner : Formula scope .sum) :
    (group opened inner closed).outcome false = inner.outcome true := by
  simp only [outcome, read_group, bind_assoc, pure_bind, Held.settle, bind_pure]

end Formula

namespace Evaluate

namespace Machine

/-- The machine with operators on hold on top of its stacks, before an operand. -/
def awaiting (m : Machine) (held : List Held) : Machine where
  values := held.map (.value ·.left) ++ m.values
  operators := held.map Held.pending ++ m.operators
  parens := m.parens
  afterOperator := true

def standing (m : Machine) (s : Standing) : Machine where
  values := .value s.value :: (s.held.map (.value ·.left) ++ m.values)
  operators := s.held.map Held.pending ++ m.operators
  parens := m.parens
  afterOperator := false

/-- No operator of an expression is on hold since the last parenthesis was opened. -/
def AtOpening (m : Machine) : Prop := ∀ op ∈ m.operators.head?, op.op = .leftParen

end Machine

section

variable {precision : Int} {inParens : Bool} {p : Operator → Bool} {m : Machine}

theorem applyTop_result (op : Pending) (left right : Value) (values : List Item) :
    (applyTop precision inParens op (.value right :: .value left :: values)).result =
      Value.apply op.op left right inParens op.offset precision >>= fun v => return .value v :: values := by
  rw [applyTop, Traced.result_bind]
  rfl

/-- Operators are applied on two stacks as on one. -/
theorem applyWhile_result (held : List Held) (v : Value) (operators : List Pending) (values : List Item)
    (stops : ∀ op ∈ operators.head?, p op.op = false) :
    (applyWhile precision inParens p (held.map Held.pending ++ operators)
        (.value v :: (held.map (.value ·.left) ++ values))).result =
      Held.applyWhile precision inParens p held v >>= fun s =>
        return (s.held.map Held.pending ++ operators, .value s.value :: (s.held.map (.value ·.left) ++ values)) := by
  induction held generalizing v with
  | nil =>
    cases operators with
    | nil => rfl
    | cons op operators =>
      have stay : ¬ p op.op = true := by simp [stops op rfl]
      simp only [List.map_nil, List.nil_append, applyWhile, if_neg stay]
      rfl
  | cons h held ih =>
    by_cases goes : p h.op = true
    · have goes' : p h.pending.op = true := goes
      simp only [List.map_cons, List.cons_append, applyWhile, if_pos goes', Traced.result_bind, applyTop_result,
        Held.applyWhile, if_pos goes, bind_assoc, pure_bind, ih]
      rfl
    · have stays : ¬ p h.pending.op = true := goes
      simp only [List.map_cons, List.cons_append, applyWhile, if_neg stays, Held.applyWhile, if_neg goes, pure_bind]
      rfl

namespace Machine

theorem reduceWhile_standing (opening : m.AtOpening) (noParen : p .leftParen = false) (s : Standing) :
    ((m.standing s).reduceWhile precision p).result =
      Held.applyWhile precision m.inParens p s.held s.value >>= fun s => return m.standing s := by
  have stops : ∀ op ∈ m.operators.head?, p op.op = false := by
    intro op first
    rw [opening op first, noParen]
  have applied : (applyWhile precision (m.standing s).inParens p (m.standing s).operators (m.standing s).values).result =
      Held.applyWhile precision m.inParens p s.held s.value >>= fun s =>
        return ((m.standing s).operators, (m.standing s).values) :=
    applyWhile_result s.held s.value m.operators m.values stops
  rw [reduceWhile, Traced.result_bind, applied, bind_assoc]
  rfl

theorem reduceToParen_standing (opening : m.AtOpening) (s : Standing) :
    ((m.standing s).reduceToParen precision).result =
      Held.settle precision m.inParens s.held s.value >>= fun v => return m.standing ⟨[], v⟩ := by
  rw [reduceToParen, reduceWhile_standing opening rfl, Held.applyWhile_all Operator.ne_leftParen, bind_assoc]
  rfl

theorem hold_standing (opening : m.AtOpening) {op : Operator} (arithmetic : op.isArithmetic = true)
    (offset : Option Int) (s : Standing) :
    ((m.standing s).hold precision op offset).result =
      s.hold precision m.inParens op arithmetic offset >>= fun held => return m.awaiting held := by
  rw [hold, Traced.result_bind, reduceWhile_standing opening rfl, Standing.hold, bind_assoc, bind_assoc]
  rfl

/-- Between two operands an operator is put on hold. -/
theorem operator_standing (opening : m.AtOpening) {op : Operator} (arithmetic : op.isArithmetic = true)
    (offset : Option Int) (s : Standing) :
    ((m.standing s).operator precision op offset).result =
      s.hold precision m.inParens op arithmetic offset >>= fun held => return m.awaiting held := by
  rw [← hold_standing opening arithmetic]
  cases op <;> first | rfl | cases arithmetic

/-- Before an operand a minus is a factor and a star. -/
theorem operator_sign (opening : m.AtOpening) (offset : Option Int) (held : List Held) :
    ((m.awaiting held).operator precision .minus offset).result =
      Standing.hold precision m.inParens .star rfl offset ⟨held, .number .minusOne⟩ >>= fun held =>
        return m.awaiting held := by
  rw [← hold_standing opening rfl]
  simp only [operator, arithmetic, awaiting, hold, reduceWhile, standing, bind_assoc]
  rfl

def opened (m : Machine) (offset : Option Int) (held : List Held) : Machine where
  values := (m.awaiting held).values
  operators := ⟨.leftParen, offset⟩ :: (m.awaiting held).operators
  parens := ⟨(m.awaiting held).values.length, false⟩ :: m.parens
  afterOperator := true

theorem atOpening_opened (offset : Option Int) (held : List Held) : (m.opened offset held).AtOpening := by
  intro op first
  cases first
  rfl

theorem operator_open (offset : Option Int) (held : List Held) :
    ((m.awaiting held).operator precision .leftParen offset).result = .ok ((m.opened offset held).awaiting []) := rfl

/-- A group is closed with the value of what was read in it. -/
theorem operator_close (offset closed : Option Int) (held : List Held) (s : Standing) :
    (((m.opened offset held).standing s).operator precision .rightParen closed).result =
      Held.settle precision true s.held s.value >>= fun v => return m.standing ⟨held, v⟩ := by
  have parens : ((m.opened offset held).standing s).parens =
      ⟨(m.awaiting held).values.length, false⟩ :: m.parens := rfl
  simp only [operator, closeParen, parens]
  rw [Traced.result_bind, reduceToParen_standing (m.atOpening_opened offset held), bind_assoc]
  apply bind_congr
  intro v
  have one : ((m.opened offset held).standing ⟨[], v⟩).values.length - (m.awaiting held).values.length = 1 := by
    simp [standing, opened]
  rw [pure_bind, one]
  rfl

theorem start_eq_awaiting : start = start.awaiting [] := rfl

theorem atOpening_start : start.AtOpening := by
  intro op first
  cases first

/-- At the end of an expression the value of what was read is left. -/
theorem finish_standing (offset : Option Int) (s : Standing) :
    ((start.standing s).finish precision offset).result = Held.settle precision false s.held s.value := by
  rw [finish, Traced.result_bind, reduceToParen_standing atOpening_start, bind_assoc]
  exact bind_pure _

end Machine

end

section

variable {inner : List Lexeme → Traced Value} {scope : Scope} {m : Machine} {level : Level}

theorem step_operator (op : Operator) (offset : Option Int) :
    step inner scope m (.lexeme ⟨.operator op, offset⟩) = m.operator scope.precision op offset := rfl

theorem step_reference {name : Text} {q : Quantity} (bound : scope.value? ('$' :: name) = some (.number q))
    (offset : Option Int) (held : List Held) :
    (step inner scope (m.awaiting held) (.lexeme ⟨.ident ('$' :: name), offset⟩)).result =
      .ok (m.standing ⟨held, .number q⟩) := by
  have value : lexemeValue scope ⟨.ident ('$' :: name), offset⟩ = .ok (.number q) := by
    change Except.ok ((scope.value? ('$' :: name)).getD _) = _
    rw [bound]
    rfl
  exact Traced.bind_of_ok (x := .silent (lexemeValue scope _)) value

/-- On top of the stacks of the machine the lexemes are read as `read` does it. -/
def Follows (inner : List Lexeme → Traced Value) (scope : Scope) (m : Machine) (ls : List Lexeme)
    (read : List Held → Except Failure Standing) : Prop :=
  ∀ held, ((ls.map Piece.lexeme).foldlM (step inner scope) (m.awaiting held)).result =
    read held >>= fun s => return m.standing s

/-- An operator between two parts is put on hold when the first has been read. -/
theorem Follows.binary {ls ls' : List Lexeme} {left right : List Held → Except Failure Standing}
    (opening : m.AtOpening) (first : Follows inner scope m ls left) (second : Follows inner scope m ls' right)
    {op : Operator} (arithmetic : op.isArithmetic = true) (offset : Option Int) :
    Follows inner scope m (ls ++ ⟨.operator op, offset⟩ :: ls') (fun held => do
      let s ← left held
      let held ← s.hold scope.precision m.inParens op arithmetic offset
      right held) := by
  intro held
  simp only [List.map_append, List.map_cons, List.foldlM_append, List.foldlM_cons, Traced.result_bind, first held,
    bind_assoc, pure_bind, step_operator, Machine.operator_standing opening arithmetic]
  exact bind_congr fun s => bind_congr fun held => second held

/-- The machine reads the lexemes of a formula as the formula is read. -/
theorem follows_formula (f : Formula scope level) (opening : m.AtOpening) :
    Follows inner scope m f.lexemes (f.read m.inParens) := by
  induction f generalizing m with
  | number numeral offset => exact fun held => rfl
  | reference name offset q bound => exact fun held => Traced.bind_of_ok (step_reference bound offset held)
  | group opened f closed ih =>
    intro held
    have inside := ih (m.atOpening_opened opened held) []
    simp only [Formula.lexemes, List.map_append, List.map_cons, List.map_nil, List.foldlM_append, List.foldlM_cons,
      List.foldlM_nil, step_operator, bind_pure]
    rw [Traced.bind_of_ok (Machine.operator_open opened held), Traced.result_bind, inside]
    simp only [bind_assoc, pure_bind, Machine.operator_close, Formula.read]
    rfl
  | sign offset f ih =>
    intro held
    simp only [Formula.lexemes, List.map_cons, List.foldlM_cons, Traced.result_bind, step_operator,
      Machine.operator_sign opening, Formula.read, bind_assoc, pure_bind]
    exact bind_congr fun held => ih opening held
  | factor f ih => exact ih opening
  | term f ih => exact ih opening
  | times f op multiplies offset g first second => exact (first opening).binary opening (second opening) _ offset
  | plus f op adds offset g first second => exact (first opening).binary opening (second opening) _ offset

/-- A lexeme is a part of its own unless it names a call. -/
theorem pieces_cons {l : Lexeme} {rest : List Lexeme} (noCall : ∀ paren ∈ rest.head?, callName? l paren = none) :
    pieces (l :: rest) = .lexeme l :: pieces rest := by
  cases rest with
  | nil => rw [pieces, pieces]
  | cons paren rest => rw [pieces, noCall paren rfl]

/-- Before anything but an open parenthesis, the lexemes are parts of their own. -/
def CallsNothing (ls : List Lexeme) : Prop :=
  ∀ rest : List Lexeme, (∀ l ∈ rest.head?, l.isOp .leftParen = false) →
    pieces (ls ++ rest) = ls.map .lexeme ++ pieces rest

theorem callsNothing_single (l : Lexeme) : CallsNothing [l] := by
  intro rest apart
  apply pieces_cons
  intro paren first
  simp [callName?, apart paren first]

theorem CallsNothing.after_operator {ls : List Lexeme} (behind : CallsNothing ls) (op : Operator)
    (offset : Option Int) : CallsNothing (⟨.operator op, offset⟩ :: ls) := by
  intro rest apart
  rw [List.cons_append, pieces_cons, behind rest apart]
  · rfl
  · intro paren _
    simp [callName?, Lexeme.ident?]

theorem CallsNothing.around_operator {ls ls' : List Lexeme} (first : CallsNothing ls) (second : CallsNothing ls')
    {op : Operator} (notOpen : op ≠ .leftParen) (offset : Option Int) :
    CallsNothing (ls ++ ⟨.operator op, offset⟩ :: ls') := by
  intro rest apart
  have behind := second.after_operator op offset rest apart
  rw [List.append_assoc, first, behind, List.map_append, List.append_assoc]
  intro l here
  cases here
  simpa [Lexeme.isOp] using notOpen

/-- A formula calls nothing, whatever touches in it. -/
theorem callsNothing_formula (f : Formula scope level) : CallsNothing f.lexemes := by
  induction f with
  | number numeral offset => exact callsNothing_single _
  | reference name offset q bound => exact callsNothing_single _
  | group opened f closed ih =>
    have none : CallsNothing [] := fun rest _ => rfl
    exact (ih.around_operator none (by simp) closed).after_operator .leftParen opened
  | sign offset f ih => exact ih.after_operator .minus offset
  | factor f ih => exact ih
  | term f ih => exact ih
  | times f op multiplies offset g first second =>
    apply first.around_operator second
    rintro rfl
    cases multiplies
  | plus f op adds offset g first second =>
    apply first.around_operator second
    rintro rfl
    cases adds

theorem uncommented_formula (f : Formula scope level) : ∀ l ∈ f.lexemes, l.isComment = false := by
  induction f with
  | number | reference => simp [Formula.lexemes, Lexeme.isComment, Token.isComment]
  | group opened f closed ih =>
    simp only [Formula.lexemes, List.forall_mem_cons, List.forall_mem_append]
    exact ⟨rfl, ih, rfl, by simp⟩
  | sign offset f ih => exact List.forall_mem_cons.mpr ⟨rfl, ih⟩
  | factor f ih => exact ih
  | term f ih => exact ih
  | times f op multiplies offset g first second | plus f op adds offset g first second =>
    simp only [Formula.lexemes, List.forall_mem_append, List.forall_mem_cons]
    exact ⟨first, rfl, second⟩

end

end Evaluate

theorem Formula.lexemes_ne_nil {scope : Scope} {level : Level} (f : Formula scope level) : f.lexemes ≠ [] := by
  induction f with
  | factor f ih => exact ih
  | term f ih => exact ih
  | _ => simp [lexemes]

/-- The lexemes of a formula evaluate to what reading it comes to. -/
theorem evaluate_formula {scope : Scope} {level : Level} (f : Formula scope level) :
    (evaluate scope f.lexemes).result = f.outcome false := by
  have uncommented := Expression.withoutComments_of_none (Evaluate.uncommented_formula f)
  have parts := Evaluate.callsNothing_formula f [] (by simp)
  rw [List.append_nil, Evaluate.pieces, List.append_nil] at parts
  have ran : Evaluate.Follows (evaluate scope) scope .start f.lexemes (f.read false) :=
    Evaluate.follows_formula f Evaluate.Machine.atOpening_start
  rw [evaluate_eq_run, Evaluate.run, uncommented]
  cases first : f.lexemes with
  | nil => exact absurd first f.lexemes_ne_nil
  | cons l rest =>
    have started := ran []
    rw [first] at parts started
    dsimp only
    rw [parts, Traced.result_bind, Evaluate.Machine.start_eq_awaiting, started, Formula.outcome, bind_assoc]
    apply bind_congr
    intro s
    exact Evaluate.Machine.finish_standing l.offset s

theorem evaluate_group {scope : Scope} (f : Formula scope .sum) (opened closed : Option Int) :
    (evaluate scope (⟨.operator .leftParen, opened⟩ :: (f.lexemes ++ [⟨.operator .rightParen, closed⟩]))).result =
      f.outcome true :=
  (evaluate_formula (.group opened f closed)).trans (Formula.outcome_group opened closed f)

end Stylesheet

import Stylesheet.Scope
import Stylesheet.Value.Arithmetic

/-! Evaluation of expressions with two stacks, one of values and one of pending
operators. Adjacent values form lists, commas separate list items, parentheses and
computed operands make a slash divide, and calls evaluate their arguments apart. -/
namespace Stylesheet

namespace Evaluate

/-- A part of an expression: a lexeme, or a function call with its arguments. -/
inductive Piece where
  | lexeme (l : Lexeme)
  | call (name : Text) (arguments : List Lexeme) (offset : Option Int)
  | unclosed (offset : Option Int)

/-- The lexemes up to the parenthesis that closes the group they stand in, and
those behind it. -/
def closeGroup : Nat → List Lexeme → Option (List Lexeme × List Lexeme)
  | _, [] => none
  | depth, l :: rest =>
    if depth = 0 ∧ l.isOp .rightParen then some ([], rest)
    else (closeGroup (l.depthAfter depth) rest).map fun (inner, after) => (l :: inner, after)

theorem closeGroup_length {depth : Nat} {ls inner after : List Lexeme}
    (h : closeGroup depth ls = some (inner, after)) : inner.length + after.length < ls.length := by
  induction ls generalizing depth inner with
  | nil => simp [closeGroup] at h
  | cons l rest ih =>
    unfold closeGroup at h
    split at h
    · obtain ⟨rfl, rfl⟩ := Prod.mk.inj (Option.some.inj h)
      simp
    · obtain ⟨⟨a, b⟩, hab, he⟩ := Option.map_eq_some_iff.1 h
      obtain ⟨rfl, rfl⟩ := Prod.mk.inj he
      have := ih hab
      simp only [List.length_cons]
      omega

/-- The name of a function call, where an identifier touches an open parenthesis. -/
def callName? (l paren : Lexeme) : Option Text :=
  if paren.isOp .leftParen ∧ l.touches paren then l.ident? else none

/-- The parts of an expression. Nothing is read behind a call that is not closed. -/
def pieces : List Lexeme → List Piece
  | [] => []
  | [l] => [.lexeme l]
  | l :: paren :: rest =>
    match callName? l paren with
    | none => .lexeme l :: pieces (paren :: rest)
    | some name =>
      match _ : closeGroup 0 rest with
      | some (arguments, after) => .call name arguments l.offset :: pieces after
      | none => [.unclosed paren.offset]
termination_by ls => ls.length
decreasing_by
  · simp
  · have := closeGroup_length ‹_›
    simp only [List.length_cons]
    omega

/-- An operator on hold. -/
structure Pending where
  op : Operator
  offset : Option Int

/-- An open parenthesis: how many entries stood before it, and whether the group
continues the value before it. -/
structure Paren where
  height : Nat
  joins : Bool

/-- The state between two parts, newest entries first. -/
structure Machine where
  values : List Item
  operators : List Pending
  parens : List Paren
  afterOperator : Bool

def Machine.start : Machine := ⟨[], [], [], true⟩

def Machine.inParens (m : Machine) : Bool := !m.parens.isEmpty

/-- Applies an operator to the two newest values. -/
def applyTop (precision : Int) (inParens : Bool) (op : Pending) : List Item → Traced (List Item)
  | .value right :: .value left :: values => do
    let result ← Value.apply op.op left right inParens op.offset precision
    .report (.applied left op.op right result)
    return .value result :: values
  | _ => .fail (.missingOperand op.op) op.offset

/-- Applies pending operators, newest first, while they satisfy `p`. -/
def applyWhile (precision : Int) (inParens : Bool) (p : Operator → Bool) :
    List Pending → List Item → Traced (List Pending × List Item)
  | [], values => pure ([], values)
  | op :: operators, values =>
    if p op.op then do
      let values ← applyTop precision inParens op values
      applyWhile precision inParens p operators values
    else pure (op :: operators, values)

namespace Machine

def reduceWhile (precision : Int) (p : Operator → Bool) (m : Machine) : Traced Machine := do
  let (operators, values) ← applyWhile precision m.inParens p m.operators m.values
  return { m with operators, values }

/-- Applies all operators behind the last open parenthesis. -/
def reduceToParen (precision : Int) (m : Machine) : Traced Machine :=
  m.reduceWhile precision (· != .leftParen)

/-- Puts a value behind the newest one: into one list with it. -/
def join (value : Value) : List Item → List Item
  | [] => [.value value]
  | left :: values => .value (left.concat (.value value)) :: values

/-- Takes a value in. Next to another value both form a list, inside parentheses
only once the operators before it are applied. -/
def push (precision : Int) (value : Value) (m : Machine) : Traced Machine :=
  if m.afterOperator then pure { m with values := .value value :: m.values, afterOperator := false }
  else do
    let m ← if m.inParens then m.reduceToParen precision else pure m
    return { m with values := join value m.values, afterOperator := false }

/-- The value that entries between two parentheses, or of a whole expression, fold
to, oldest entry first. -/
def fold (offset : Option Int) : List Item → Except Failure Value
  | [] => Stylesheet.fail .nothing offset
  | [.value v] => .ok v
  | [.separator op] => Stylesheet.fail (.loneSeparator op) offset
  | entries => .ok (.list (entries.flatMap Item.spread))

def openParen (precision : Int) (offset : Option Int) (m : Machine) : Traced Machine := do
  let joins := !m.afterOperator
  let m ← if joins && m.inParens then m.reduceToParen precision else pure m
  return { m with
    operators := ⟨.leftParen, offset⟩ :: m.operators
    parens := ⟨m.values.length, joins⟩ :: m.parens
    afterOperator := true }

def closeParen (precision : Int) (offset : Option Int) (m : Machine) : Traced Machine :=
  match m.parens with
  | [] => .fail .unmatchedParen offset
  | paren :: parens => do
    let m ← m.reduceToParen precision
    let count := m.values.length - paren.height
    let inner := (m.values.take count).reverse
    let outer := m.values.drop count
    let value ← if inner.isEmpty then pure (.list []) else fold offset inner
    return { m with
      values := if paren.joins then join value outer else .value value :: outer
      operators := m.operators.tail
      parens
      afterOperator := false }

def comma (precision : Int) (offset : Option Int) (m : Machine) : Traced Machine :=
  if m.afterOperator then .fail (.noLeftOperand .comma) offset
  else do
    let m ← m.reduceToParen precision
    return { m with values := .separator .comma :: m.values, afterOperator := true }

/-- Puts an arithmetic operator on hold, after applying those before it that bind
at least as tightly. -/
def hold (precision : Int) (op : Operator) (offset : Option Int) (m : Machine) : Traced Machine := do
  let m ← m.reduceWhile precision (·.appliesBefore op)
  return { m with operators := ⟨op, offset⟩ :: m.operators, afterOperator := true }

/-- Takes an arithmetic operator in. A minus without a value before it is a sign,
that is a factor of minus one. -/
def arithmetic (precision : Int) (op : Operator) (offset : Option Int) (m : Machine) : Traced Machine :=
  if !m.afterOperator then m.hold precision op offset
  else if op = .minus then
    hold precision .star offset { m with values := .value (.number .minusOne) :: m.values }
  else .fail (.noLeftOperand op) offset

def operator (precision : Int) (op : Operator) (offset : Option Int) (m : Machine) : Traced Machine :=
  match op with
  | .leftBrace | .rightBrace | .semicolon | .colon => .fail (.notAValue [op.char]) offset
  | .leftParen => m.openParen precision offset
  | .rightParen => m.closeParen precision offset
  | .comma => m.comma precision offset
  | .plus | .minus | .star | .slash | .percent => m.arithmetic precision op offset

/-- Applies what is pending at the end of an expression and folds the entries. -/
def finish (precision : Int) (offset : Option Int) (m : Machine) : Traced Value := do
  let m ← m.reduceToParen precision
  match m.operators with
  | paren :: _ => .fail .unclosedParen paren.offset
  | [] => fold offset m.values.reverse

end Machine

/-- Whether an identifier is `#` followed by hexadecimal digits only. -/
def isHexColor : Text → Bool
  | '#' :: digits =>
    !digits.isEmpty && digits.all fun c => c.isDigit || ('a' ≤ c && c ≤ 'f') || ('A' ≤ c && c ≤ 'F')
  | _ => false

/-- The value of an identifier: a variable's, or its negation, a colour, or the
text itself. -/
def identValue (scope : Scope) (raw : Text) (offset : Option Int) : Except Failure Value :=
  if isVariableName raw then .ok ((scope.value? raw).getD (.text raw))
  else match raw with
    | '-' :: '$' :: name =>
      match scope.value? ('$' :: name) with
      | none => .ok (.text raw)
      | some (.number q) => .ok (.number q.negate)
      | some value => return .text ('-' :: (← value.css scope.precision false))
    | _ => if isHexColor raw then return .color (← Color.ofHex raw offset) else .ok (.text raw)

/-- The value of a lexeme on its own. -/
def lexemeValue (scope : Scope) (l : Lexeme) : Except Failure Value :=
  match l.token with
  | .number n => .ok (.number ⟨n.value, n.unit, n.computed, some n.raw, false⟩)
  | .string raw => .ok (.text raw)
  | .ident raw => identValue scope raw l.offset
  | token => Stylesheet.fail (.notAValue token.raw) l.offset

/-- Functions whose arguments are kept as written, with variables replaced. -/
def passThroughFunctions : List String :=
  ["calc", "var", "env", "min", "max", "clamp", "attr", "format", "local"]

/-- Functions that are refused. -/
def unsupportedFunctions : List String :=
  ["darken", "lighten", "saturate", "desaturate", "adjust-hue", "mix", "percentage", "unquote", "quote",
    "map-get", "nth", "length", "join", "append", "if"]

/-- A lexeme as written, or the css of the variable it refers to. -/
def substitute (scope : Scope) (l : Lexeme) : Except Failure Text :=
  match l.reference?.bind scope.value? with
  | some value => value.css scope.precision false
  | none => .ok l.raw

/-- The lexemes behind `previous` with variables replaced. -/
def substituteAfter (scope : Scope) : Lexeme → List Lexeme → Except Failure Text
  | _, [] => .ok []
  | previous, l :: rest => do
    let text ← substitute scope l
    let more ← substituteAfter scope l rest
    return (if previous.touches l then [] else [' ']) ++ text ++ more

/-- The lexemes spelled out with variables replaced and nothing else evaluated. -/
def substituteAll (scope : Scope) : List Lexeme → Except Failure Text
  | [] => .ok []
  | l :: rest => do
    let text ← substitute scope l
    let more ← substituteAfter scope l rest
    return text ++ more

/-- A call spelled out. -/
def spellCall (name inner : Text) : Text := name ++ '(' :: inner ++ [')']

/-- A colour channel from a number: the nearest integer within its range. -/
def channel (q : Quantity) : Except Failure Int :=
  match q.scalar.nearestInteger with
  | .ok n => .ok (Color.clamp n)
  | .error fault => .error (.number fault)

/-- The three numbers without units that make a colour. -/
def channels? : List Value → Option (Quantity × Quantity × Quantity)
  | [.number r, .number g, .number b] =>
    if r.unit.isNone && g.unit.isNone && b.unit.isNone then some (r, g, b) else none
  | _ => none

/-- The value of a function call on evaluated arguments. -/
def callValue (scope : Scope) (name : Text) (values : List Value) : Except Failure Value :=
  match if Text.lower name = "rgb".toList then channels? values else none with
  | some (r, g, b) => return .color (Color.computedOf (← channel r) (← channel g) (← channel b))
  | none => do
    let texts ← values.mapM (·.css scope.precision false)
    return .text (spellCall name (List.intercalate ", ".toList texts))

/-- The value of a function call, its arguments evaluated by `evaluate`. -/
def call (evaluate : List Lexeme → Traced Value) (scope : Scope) (name : Text) (arguments : List Lexeme)
    (offset : Option Int) : Traced Value :=
  let lowered := Text.lower name
  if unsupportedFunctions.any (·.toList == lowered) then .fail (.unsupportedFunction name) offset
  else if passThroughFunctions.any (·.toList == lowered) || name.head? == some '-' then do
    return .text (spellCall name (← substituteAll scope arguments))
  else do
    let groups := (Expression.split .comma arguments).filter (!·.isEmpty)
    let values ← groups.mapM evaluate
    callValue scope name values

/-- Takes one part of an expression in. -/
def step (evaluate : List Lexeme → Traced Value) (scope : Scope) (m : Machine) : Piece → Traced Machine
  | .call name arguments offset => do
    m.push scope.precision (← call evaluate scope name arguments offset)
  | .unclosed offset => .fail .unclosedCall offset
  | .lexeme l =>
    match l.token with
    | .operator op => m.operator scope.precision op l.offset
    | _ => do m.push scope.precision (← lexemeValue scope l)

/-- Evaluates an expression, the arguments of its calls by `evaluate`. -/
def run (evaluate : List Lexeme → Traced Value) (scope : Scope) (e : Expression) : Traced Value :=
  match Expression.withoutComments e with
  | [] => .fail .nothing none
  | l :: rest => do
    let m ← (pieces (l :: rest)).foldlM (step evaluate scope) Machine.start
    m.finish scope.precision l.offset

/-- Evaluates an expression whose calls nest less than `depth` deep. -/
def upTo (scope : Scope) : Nat → Expression → Traced Value
  | 0, _ => .fail .nothing none
  | depth + 1, e => run (upTo scope depth) scope e

end Evaluate

/-- The value of an expression in a scope. Calls nest at most as deep as the
expression is long. -/
def evaluate (scope : Scope) (e : Expression) : Traced Value := Evaluate.upTo scope (e.length + 1) e

end Stylesheet

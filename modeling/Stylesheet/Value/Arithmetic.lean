import Stylesheet.Value.Basic

/-! Arithmetic on values. Numbers combine with their units; colours combine
channel by channel and saturate; lists and texts only take part in `+`, which
glues spellings. A slash between literals outside parentheses divides nothing: it
separates, and the quotient is taken when the list is used in arithmetic. -/
namespace Stylesheet

/-- A compile error at an offset. -/
def fail (cause : Cause) (offset : Option Int) : Except Failure α := .error (.error cause offset)

namespace Quantity

def spelled (q : Quantity) : Except Failure Text := q.css defaultPrecision

/-- The unit of a result. Without two units it is the one there is; equal units
cancel in a quotient and have no product. -/
def resultUnit (op : Operator) (left right : Quantity) (offset : Option Int) :
    Except Failure (Option Text) :=
  match left.unit, right.unit with
  | some l, some r =>
    if l ≠ r then fail (.unitMismatch l r) offset
    else if op = .slash then .ok none
    else if op = .star then do fail (.squareUnit (← left.spelled) (← right.spelled)) offset
    else .ok (some l)
  | l, r => .ok (if l.all (·.isEmpty) then r else l)

/-- The scalar of a result; what is no sum, difference, product or quotient is a
remainder. -/
def resultScalar (op : Operator) (a b : Binary64) : Except Failure Binary64 :=
  match op with
  | .plus => .ok (a.add b)
  | .minus => .ok (a.sub b)
  | .star => .ok (a.mul b)
  | .slash => .ok (a.div b)
  | _ =>
    match a.rem? b with
    | some r => .ok r
    | none => .error (.number .undefined)

/-- One number from two. -/
def combine (op : Operator) (left right : Quantity) (offset : Option Int) : Except Failure Quantity := do
  let unit ← resultUnit op left right offset
  if (op = .slash ∨ op = .percent) ∧ right.scalar.isZero then
    fail (.divisionByZero (← left.spelled)) offset
  else
    let scalar ← resultScalar op left.scalar right.scalar
    return { computedOf scalar unit with factor := op = .star && left.factor && right.factor }

/-- The quotients of a number by each of the others in turn. -/
def divideAll (first : Quantity) (rest : List Quantity) : Except Failure Quantity :=
  rest.foldlM (fun q r => combine .slash q r none) first

end Quantity

namespace Color

/-- A channel within its range. -/
def clamp (n : Int) : Int := max 0 (min n 255)

/-- One channel from two. Division goes to the floor. -/
def combineChannel (op : Operator) (a b : Int) : Int :=
  clamp (match op with
    | .plus => a + b
    | .minus => a - b
    | .star => a * b
    | .slash => Int.fdiv a b
    | _ => Int.fmod a b)

/-- A colour from a colour and three channels. -/
def combine (op : Operator) (c : Color) (red green blue : Int) (offset : Option Int) :
    Except Failure Color :=
  let divides := op ≠ .plus ∧ op ≠ .minus ∧ op ≠ .star
  if divides ∧ (red = 0 ∨ green = 0 ∨ blue = 0) then fail (.divisionByZero c.plain) offset
  else .ok (computedOf (combineChannel op c.red red) (combineChannel op c.green green)
    (combineChannel op c.blue blue))

end Color

namespace Item

/-- The divisors behind a first number: one slash before each. -/
def divisors? : List Item → Option (List Quantity)
  | [] => some []
  | .separator .slash :: .value (.number q) :: rest => (divisors? rest).map (q :: ·)
  | _ => none

end Item

namespace Value

/-- The numbers of a slash list: at least two, with single slashes between. -/
def slashList? : Value → Option (Quantity × List Quantity)
  | list (.value (.number first) :: rest) =>
    match Item.divisors? rest with
    | some (q :: qs) => some (first, q :: qs)
    | _ => none
  | _ => none

/-- A slash list divided out, left to right; any other value as it is. -/
def collapsed (v : Value) : Except Failure Value :=
  match v.slashList? with
  | some (first, rest) => return .number (← Quantity.divideAll first rest)
  | none => .ok v

def isList : Value → Bool
  | list _ => true
  | _ => false

def isText : Value → Bool
  | text _ => true
  | _ => false

/-- Addition next to a list: two lists join, and a single value is glued to the
nearest item. One side has to be a list. -/
def glue (left right : Value) (precision : Int) : Except Failure Value :=
  match left, right with
  | list ls, list rs => .ok (.list (ls ++ rs))
  | left, list [] => .ok (.list [.value left])
  | left, list (first :: rest) => do
    let text := (← left.css precision false) ++ (← first.spelled precision)
    return .list (.value (.text text) :: rest)
  | list ls, right =>
    match ls.getLast? with
    | none => .ok (.list [.value right])
    | some last => do
      let text := (← last.spelled precision) ++ (← right.css precision false)
      return .list (ls.dropLast ++ [.value (.text text)])
  | _, _ => .error .noList

/-- An arithmetic operator on two values that are no slash lists. -/
def combine (op : Operator) (left right : Value) (offset : Option Int) (precision : Int) :
    Except Failure Value :=
  match left, right with
  | number a, number b => return .number (← Quantity.combine op a b offset)
  | color c, number q =>
    match q.scalar.truncate with
    | .ok n => return .color (← Color.combine op c n n n offset)
    | .error fault => .error (.number fault)
  | color c, color d => return .color (← Color.combine op c d.red d.green d.blue offset)
  | number a, color c => .ok (.list [.value (.number a), .value (.text [op.char]), .value (.color c)])
  | left, right =>
    if op = .plus ∧ (left.isList ∨ right.isList) then glue left right precision
    else if op = .plus ∧ (left.isText ∨ right.isText) then do
      return .text ((← left.css precision false) ++ (← right.css precision false))
    else if left.isList ∨ right.isList then do
      fail (.notForLists op (← left.spelled) (← right.spelled)) offset
    else do fail (.notForValues op (← left.spelled) (← right.spelled)) offset

/-- An operator as arithmetic: slash lists are divided out first. -/
def calculate (op : Operator) (left right : Value) (offset : Option Int) (precision : Int) :
    Except Failure Value :=
  if op.isArithmetic then do combine op (← left.collapsed) (← right.collapsed) offset precision
  else fail (.notArithmetic op) offset

/-- An operator as it acts inside an expression. Outside parentheses a slash
divides only if a side is computed; inside them it does not divide a list that is
no slash list. -/
def apply (op : Operator) (left right : Value) (inParens : Bool) (offset : Option Int)
    (precision : Int) : Except Failure Value :=
  if op = .slash then
    let separates :=
      if inParens then left.isList && left.slashList?.isNone
      else !(left.isComputed || right.isComputed)
    if separates then .ok (left.separated op right) else calculate op left right offset precision
  else calculate op left right offset precision

end Value

end Stylesheet

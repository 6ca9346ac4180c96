import Stylesheet.Lexeme.Basic
import Stylesheet.Value.Color

/-! Values: numbers with units, texts, colours, and lists of values and
separators. A value is spelled as css at a precision, which fails for numbers that
have no decimal form. -/
namespace Stylesheet

/-- A number with its unit. One that was written rather than computed keeps its
spelling. -/
structure Quantity where
  scalar : Binary64
  unit : Option Text
  computed : Bool
  raw : Option Text
  /-- A bare sign factor, which a trace shows without decimals. -/
  factor : Bool
deriving DecidableEq, Repr

mutual
inductive Value where
  | number (quantity : Quantity)
  | text (text : Text)
  | list (items : List Item)
  | color (color : Color)

/-- What stands in a list: a value, or a separator between values. -/
inductive Item where
  | value (value : Value)
  | separator (op : Operator)
end

namespace Quantity

/-- A number that arithmetic produced. -/
def computedOf (scalar : Binary64) (unit : Option Text) : Quantity := ⟨scalar, unit, true, none, false⟩

/-- The factor that a sign stands for. -/
def minusOne : Quantity := ⟨.minusOne, none, true, none, true⟩

def negate (q : Quantity) : Quantity := { q with scalar := q.scalar.neg, computed := true, raw := none }

/-- The css of a number: as written, or else rounded to the precision. -/
def css (q : Quantity) (precision : Int) : Except Failure Text :=
  match q.computed, q.raw with
  | false, some raw => .ok raw
  | _, _ =>
    match q.scalar.spell precision with
    | .ok text => .ok (text ++ q.unit.getD [])
    | .error fault => .error (.number fault)

/-- Numbers are equal in scalar, unit and origin; their spelling does not count. -/
def same (a b : Quantity) : Bool :=
  a.scalar.equal b.scalar && a.unit == b.unit && a.computed == b.computed

/-- A number as it is shown in a trace. -/
def inspect (q : Quantity) : Text :=
  let optional : Option Text → Text
    | some text => Text.quoted text
    | none => "None".toList
  let scalar := if q.factor then (q.scalar.spell 0).toOption.getD [] else q.scalar.display
  "NumberValue(scalar=".toList ++ scalar ++ ", unit=".toList ++ optional q.unit ++
    ", computed=".toList ++ (if q.computed then "True" else "False").toList ++
    ", raw=".toList ++ optional q.raw ++ [')']

end Quantity

/-- A colour as it is shown in a trace. -/
def Color.inspect (c : Color) : Text :=
  let field (name : String) (n : Int) : Text := name.toList ++ '=' :: (toString n).toList ++ ", ".toList
  "ColorValue(".toList ++ field "red" c.red ++ field "green" c.green ++ field "blue" c.blue ++
    "computed=".toList ++ (if c.computed then "True" else "False").toList ++
    ", original=".toList ++ Text.quoted c.spelling ++ [')']

/-- A separator as it is shown in a trace. -/
def Operator.inspect (op : Operator) : Text :=
  "<Op.".toList ++ op.name.toList ++ ": ".toList ++ Text.quoted [op.char] ++ ['>']

namespace Value

/-- Whether a value is a computed number or colour. -/
def isComputed : Value → Bool
  | number q => q.computed
  | color c => c.computed
  | _ => false

end Value

/-- The space before a value in a list: none at the very front and none behind a
slash. -/
def Item.gap (out : Text) (afterSlash : Bool) : Text := if out.isEmpty || afterSlash then [] else [' ']

mutual
/-- The css of a value at a precision, in the compressed spelling of colours or the
plain one. -/
def Value.css (precision : Int) (compressed : Bool) : Value → Except Failure Text
  | .number q => q.css precision
  | .text text => .ok text
  | .color c => .ok (if compressed then c.compressed else c.plain)
  | .list items => Item.cssFrom precision compressed [] false items

/-- The css of list items, behind what is already written. Separators follow
directly, values behind a space except after a slash. -/
def Item.cssFrom (precision : Int) (compressed : Bool) (out : Text) (afterSlash : Bool) :
    List Item → Except Failure Text
  | [] => .ok out
  | .separator op :: rest => Item.cssFrom precision compressed (out ++ [op.char]) (op == .slash) rest
  | .value value :: rest => do
    let text ← value.css precision compressed
    Item.cssFrom precision compressed (out ++ Item.gap out afterSlash ++ text) false rest
end

mutual
/-- Equality of values of the same kind, item by item in lists. -/
def Value.same : Value → Value → Bool
  | .number a, .number b => a.same b
  | .text a, .text b => a == b
  | .color a, .color b => a.same b
  | .list a, .list b => Item.sameAll a b
  | _, _ => false

def Item.sameAll : List Item → List Item → Bool
  | [], [] => true
  | .value a :: as, .value b :: bs => a.same b && Item.sameAll as bs
  | .separator a :: as, .separator b :: bs => a == b && Item.sameAll as bs
  | _, _ => false
end

mutual
/-- A value as it is shown in a trace. -/
def Value.inspect : Value → Text
  | .number q => q.inspect
  | .text text => "Text(value=".toList ++ Text.quoted text ++ [')']
  | .color c => c.inspect
  | .list items => "ListValue(items=[".toList ++ Item.inspectAll items ++ "])".toList

def Item.inspectAll : List Item → Text
  | [] => []
  | [.value value] => value.inspect
  | [.separator op] => op.inspect
  | .value value :: rest => value.inspect ++ ", ".toList ++ Item.inspectAll rest
  | .separator op :: rest => op.inspect ++ ", ".toList ++ Item.inspectAll rest
end

namespace Value

/-- The spelling of a value in messages and traces. -/
def spelled (v : Value) : Except Failure Text := v.css defaultPrecision false

end Value

namespace Item

/-- The css of an item on its own. -/
def spelled (precision : Int) : Item → Except Failure Text
  | value v => v.css precision false
  | separator op => .ok [op.char]

/-- What an item adds to a list: the items of a list, or else itself. -/
def spread : Item → List Item
  | value (.list items) => items
  | item => [item]

/-- One flat list of what two items add. -/
def concat (left right : Item) : Value := .list (left.spread ++ right.spread)

end Item

/-- Two values side by side in one flat list. -/
def Value.concat (left right : Value) : Value := Item.concat (.value left) (.value right)

/-- Two values with a separator between them in one flat list. -/
def Value.separated (left : Value) (op : Operator) (right : Value) : Value :=
  Value.concat (Item.concat (.value left) (.separator op)) right

end Stylesheet

import Stylesheet.Binary64.Shortest
import Stylesheet.Failure

/-! Tokens, and lexemes: tokens with the offset of their first character. A number
token keeps its source spelling, so it prints exactly as written; hand-built
lexemes may lack an offset. -/
namespace Stylesheet

/-- Places kept when a number is spelled out with no other precision asked for. -/
def defaultPrecision : Int := 5

/-- A number token. -/
structure Numeral where
  value : Binary64
  unit : Option Text
  computed : Bool
  raw : Text
deriving DecidableEq, Repr

inductive Token where
  | ident (raw : Text)
  | string (raw : Text)
  | comment (raw : Text)
  | number (numeral : Numeral)
  | operator (op : Operator)
  /-- A token of no particular kind, which no source yields. -/
  | other (raw : Text)
deriving DecidableEq, Repr

namespace Numeral

/-- A number token whose spelling is made from its value if it is computed or
none is given. An empty unit is no unit. -/
def make (value : Binary64) (unit : Option Text) (computed : Bool) (raw : Option Text) :
    Except Failure Numeral :=
  let unit := unit.filter (!·.isEmpty)
  match computed, raw with
  | false, some raw => .ok ⟨value, unit, false, raw⟩
  | _, _ =>
    match value.spell defaultPrecision with
    | .ok text => .ok ⟨value, unit, computed, text ++ unit.getD []⟩
    | .error fault => .error (.number fault)

/-- Number tokens are equal in value, unit and origin; their spelling does not
count. -/
def same (a b : Numeral) : Bool :=
  a.value.equal b.value && a.unit == b.unit && a.computed == b.computed

end Numeral

namespace Token

def raw : Token → Text
  | ident raw | string raw | comment raw | other raw => raw
  | number numeral => numeral.raw
  | operator op => [op.char]

def isComment : Token → Bool
  | comment _ => true
  | _ => false

/-- Tokens are equal in kind and spelling, numbers as numbers. -/
def same : Token → Token → Bool
  | number a, number b => a.same b
  | number _, _ | _, number _ => false
  | a, b => a == b

/-- A token as it is shown in a trace. -/
def inspect (token : Token) : Text :=
  let call (name : String) (argument : Text) : Text := name.toList ++ '(' :: argument ++ [')']
  match token with
  | ident raw => call "Ident" (Text.quoted raw)
  | string raw => call "StringLiteral" (Text.quoted raw)
  | comment raw => call "Comment" (Text.quoted raw)
  | other raw => call "Token" (Text.quoted raw)
  | operator op => call "Operator" op.name.toList
  | number n =>
    let unit := match n.unit with
      | some unit => Text.quoted unit
      | none => "None".toList
    let flag := if n.computed then ", computed".toList else []
    call "Number" (n.value.display ++ ", ".toList ++ unit ++ flag)

end Token

/-- Whether a name refers to a variable. -/
def isVariableName (name : Text) : Bool := name.head? == some '$'

structure Lexeme where
  token : Token
  offset : Option Int
deriving DecidableEq, Repr

namespace Lexeme

def raw (l : Lexeme) : Text := l.token.raw

/-- The offset just behind a lexeme. -/
def stop (l : Lexeme) : Option Int := l.offset.map (· + l.raw.length)

def isOp (l : Lexeme) (op : Operator) : Bool := l.token == .operator op

def isComment (l : Lexeme) : Bool := l.token.isComment

/-- The raw text of an identifier. -/
def ident? (l : Lexeme) : Option Text :=
  match l.token with
  | .ident raw => some raw
  | _ => none

/-- The raw text of an identifier that refers to a variable. -/
def reference? (l : Lexeme) : Option Text := l.ident?.filter isVariableName

/-- Whether `next` starts exactly where `l` ends. Without offsets nothing touches. -/
def touches (l next : Lexeme) : Bool :=
  match l.stop, next.offset with
  | some stop, some offset => stop == offset
  | _, _ => false

def same (a b : Lexeme) : Bool := a.token.same b.token && a.offset == b.offset

/-- A lexeme as it is shown. -/
def inspect (l : Lexeme) : Text :=
  let offset := match l.offset with
    | some n => (toString n).toList
    | none => "None".toList
  "Lexeme(".toList ++ l.token.inspect ++ ", ".toList ++ offset ++ [')']

/-- The nesting depth behind a lexeme. A closing parenthesis without a partner
leaves it at zero. -/
def depthAfter (depth : Nat) (l : Lexeme) : Nat :=
  if l.isOp .leftParen then depth + 1 else if l.isOp .rightParen then depth - 1 else depth

end Lexeme

end Stylesheet

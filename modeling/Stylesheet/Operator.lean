import Stylesheet.Text.Basic

/-! The operators of the language: five of arithmetic, the rest punctuation. Each
is one character. -/
namespace Stylesheet

inductive Operator where
  | plus
  | minus
  | star
  | slash
  | percent
  | leftParen
  | rightParen
  | comma
  | colon
  | semicolon
  | leftBrace
  | rightBrace
deriving DecidableEq, Repr

namespace Operator

def all : List Operator :=
  [plus, minus, star, slash, percent, leftParen, rightParen, comma, colon, semicolon, leftBrace, rightBrace]

def char : Operator → Char
  | plus => '+'
  | minus => '-'
  | star => '*'
  | slash => '/'
  | percent => '%'
  | leftParen => '('
  | rightParen => ')'
  | comma => ','
  | colon => ':'
  | semicolon => ';'
  | leftBrace => '\x7b'
  | rightBrace => '\x7d'

def ofChar? (c : Char) : Option Operator := all.find? (·.char == c)

theorem ofChar?_char (op : Operator) : ofChar? op.char = some op := by cases op <;> rfl

theorem char_of_ofChar? {c : Char} {op : Operator} (h : ofChar? c = some op) : op.char = c := by
  simpa using List.find?_some h

/-- The name under which an operator is shown. -/
def name : Operator → String
  | plus => "Plus"
  | minus => "Minus"
  | star => "Star"
  | slash => "Slash"
  | percent => "Percent"
  | leftParen => "LeftParen"
  | rightParen => "RightParen"
  | comma => "Comma"
  | colon => "Colon"
  | semicolon => "Semicolon"
  | leftBrace => "LeftCurlyBrace"
  | rightBrace => "RightCurlyBrace"

def isArithmetic : Operator → Bool
  | plus | minus | star | slash | percent => true
  | _ => false

def isAdditive : Operator → Bool
  | plus | minus => true
  | _ => false

def isMultiplicative : Operator → Bool
  | star | slash | percent => true
  | _ => false

/-- Whether a pending operator is applied before `next` is put on hold. An open
parenthesis never is, and a sum waits for a product. -/
def appliesBefore (pending next : Operator) : Bool :=
  !(pending == leftParen) && !(pending.isAdditive && next.isMultiplicative)

end Operator

end Stylesheet

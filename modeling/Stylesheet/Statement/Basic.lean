import Stylesheet.Lexeme.Expression

/-! Statements: what a stylesheet says, before anything is evaluated. Values are
kept as expressions. -/
namespace Stylesheet

/-- A mixin parameter with its default. -/
structure Parameter where
  name : Text
  default : Option Expression
deriving DecidableEq, Repr

/-- An argument of a mixin call, by name or by position. -/
structure Argument where
  name : Option Text
  value : Expression
deriving DecidableEq, Repr

inductive Statement where
  | rule (selectors : List Text) (body : List Statement) (depth : Nat)
  | property (name : Text) (offset : Option Int) (value : Expression)
  | assignment (name : Text) (offset : Option Int) (value : Expression) (isDefault isGlobal : Bool)
  | comment (text : Text)
  | mixin (name : Text) (parameters : List Parameter) (body : List Statement)
  | call (name : Text) (arguments : List Argument) (offset : Option Int)

/-- A mixin as it is kept in scopes. -/
structure Mixin where
  name : Text
  parameters : List Parameter
  body : List Statement

namespace Statement

mutual
/-- How many mixins are declared in a statement, at any depth. -/
def mixinCount : Statement → Nat
  | .rule _ body _ => mixinCountAll body
  | .mixin _ _ body => mixinCountAll body + 1
  | _ => 0

def mixinCountAll : List Statement → Nat
  | [] => 0
  | s :: rest => mixinCount s + mixinCountAll rest
end

end Statement

/-- What a parser is reading. -/
inductive Mode where
  | selectors
  | properties
  | comment
deriving DecidableEq, Repr

def Mode.name : Mode → String
  | selectors => "in-selectors"
  | properties => "in-properties"
  | comment => "in-comment"

end Stylesheet

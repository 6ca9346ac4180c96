import Stylesheet.Value.Basic

/-! Nodes: a stylesheet whose values are evaluated and whose mixins are expanded.
Only rules, properties and comments are left. -/
namespace Stylesheet

inductive Node where
  | rule (selectors : List Text) (children : List Node) (depth : Nat)
  | property (name : Text) (offset : Option Int) (value : Value)
  | comment (text : Text)

namespace Node

def isRule : Node → Bool
  | rule .. => true
  | _ => false

/-- Properties and comments are declarations. -/
def isDeclaration (n : Node) : Bool := !n.isRule

def children : Node → List Node
  | rule _ children _ => children
  | _ => []

def hasDeclarations (n : Node) : Bool := n.children.any isDeclaration

end Node

end Stylesheet

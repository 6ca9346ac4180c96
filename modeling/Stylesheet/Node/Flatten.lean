import Stylesheet.Node.Basic
import Stylesheet.Selector

/-! Flattening: nested rules become plain ones. A rule stands before the rules
nested in it; one without declarations is dropped, and those nested in it combine
with its selectors all the same. Depth counts the rules around one that are kept. -/
namespace Stylesheet

namespace Flatten

mutual
/-- The plain rules of a rule below given selectors; none of any other node. -/
def rules (parents : List Text) (depth : Nat) : Node → List Node
  | .rule selectors children _ =>
    let combined := Selector.combine parents selectors
    let declarations := children.filter Node.isDeclaration
    if declarations.isEmpty then rulesAll combined depth children
    else .rule combined declarations depth :: rulesAll combined (depth + 1) children
  | .property .. => []
  | .comment _ => []

def rulesAll (parents : List Text) (depth : Nat) : List Node → List Node
  | [] => []
  | n :: rest => rules parents depth n ++ rulesAll parents depth rest
end

end Flatten

/-- The nodes with every rule replaced by its plain rules. -/
def flatten (nodes : List Node) : List Node :=
  nodes.flatMap fun n => if n.isRule then Flatten.rules [] 0 n else [n]

end Stylesheet

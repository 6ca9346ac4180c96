import Stylesheet.Node.Flatten
import Stylesheet.Node.Render
import Stylesheet.Node.Resolve
import Stylesheet.Statement.Parse

/-! The whole compilation: parse, resolve, flatten, render. The first failure ends
it. -/
namespace Stylesheet

/-- The css of a source in a style, with numbers rounded to a precision. -/
def compile (source : Text) (style : Style) (precision : Int) : Traced Text := do
  .report (.parsing source.length)
  let statements ← parse source
  .report .resolving
  let nodes ← resolve (Scope.empty precision) statements
  .report .flattening
  let flat := flatten nodes
  .report (.flattened flat.length)
  .report (.rendering style)
  render style precision flat

end Stylesheet

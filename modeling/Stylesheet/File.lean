import Stylesheet.Compile
import Stylesheet.FileTree
import Stylesheet.Text.Decode

/-! Compilation of a file. -/
namespace Stylesheet

/-- The source in what was read at a path. -/
def sourceOf (path : Text) (contents : Except PathFault ByteArray) : Except Failure Text :=
  if path.hasNul then .error .nul
  else match contents with
    | .error fault => .error (.error (.unreadable path fault) none)
    | .ok bytes =>
      match Text.ofBytes? bytes with
      | some source => .ok source
      | none => .error .undecodable

/-- The css of the file at a path, in the style of a name. The file is read before
the style is looked at. -/
def compileFile (t : FileTree) (path style : Text) (precision : Int) : Except Failure Text := do
  let source ← sourceOf path (t.read path)
  (compile source (← Style.ofName style) precision).result

end Stylesheet

import Stylesheet.Lexeme.Basic
import Stylesheet.Style
import Stylesheet.Text.Numeral

/-! The options of a compilation, and how the environment sets them. -/
namespace Stylesheet

structure Options where
  style : Style
  precision : Int
deriving DecidableEq, Repr

namespace Options

/-- Options from the values of `FLATCSS_STYLE` and `FLATCSS_PRECISION`. An unset
one leaves the default, and the style is read first. -/
def ofEnvironment (style precision : Option Text) : Except Failure Options := do
  let style ← match style with
    | some name => Style.ofName name
    | none => .ok .nested
  match precision with
  | none => return ⟨style, defaultPrecision⟩
  | some text =>
    match Text.decimal? text with
    | some places => return ⟨style, places⟩
    | none => .error (.error (.badPrecision text) none)

end Options

end Stylesheet

import Stylesheet.Failure

/-! The styles css can be written in. -/
namespace Stylesheet

inductive Style where
  | nested
  | expanded
  | compact
  | compressed
deriving DecidableEq, Repr

namespace Style

def all : List Style := [nested, expanded, compact, compressed]

def name : Style → String
  | nested => "nested"
  | expanded => "expanded"
  | compact => "compact"
  | compressed => "compressed"

/-- The style of a name in any letter case. -/
def ofName (name : Text) : Except Failure Style :=
  match all.find? (·.name.toList == Text.lower name) with
  | some style => .ok style
  | none => .error (.error (.unknownStyle name) none)

end Style

end Stylesheet

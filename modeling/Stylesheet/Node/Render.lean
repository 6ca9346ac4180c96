import Stylesheet.Node.Basic
import Stylesheet.Selector
import Stylesheet.Style

/-! Rendering of flat nodes as css text, in each of the four styles. A style fixes
the separators and how a declaration, a comment, a selector list and a body are
written; chunks without text leave no trace. -/
namespace Stylesheet

namespace Style

/-- What stands before a rule or comment that is not the first. -/
def ruleSeparator : Style → Text
  | nested | expanded | compact => ['\n', '\n']
  | compressed => []

/-- What stands before a nested rule that is not the first. -/
def childSeparator : Style → Text
  | expanded => ['\n', '\n']
  | nested | compact => ['\n']
  | compressed => []

/-- The indentation of a rule. -/
def indent : Style → Nat → Text
  | nested, depth => List.replicate (2 * depth) ' '
  | _, _ => []

def selectors (style : Style) (list : List Text) : Text :=
  if style = compressed then Selector.squeeze (List.intercalate [','] list)
  else List.intercalate [',', ' '] list

/-- A property with the css of its value. -/
def property (style : Style) (depth : Nat) (name value : Text) : Text :=
  match style with
  | nested | expanded => style.indent depth ++ ' ' :: ' ' :: name ++ ':' :: ' ' :: value ++ [';']
  | compact => name ++ ':' :: ' ' :: value ++ [';']
  | compressed => name ++ ':' :: value

/-- A comment on one line, the blanks around its line breaks dropped. -/
def oneLine (comment : Text) : Text :=
  List.intercalate [' '] ((Text.lines comment).map Text.strip)

/-- A comment inside a rule. -/
def innerComment (style : Style) (depth : Nat) (text : Text) : Text :=
  match style with
  | nested | expanded => style.indent depth ++ ' ' :: ' ' :: text
  | compact => oneLine text
  | compressed => []

/-- A comment outside all rules. -/
def outerComment (style : Style) (text : Text) : Text :=
  match style with
  | nested | expanded => text
  | compact => oneLine text
  | compressed => []

/-- A rule from its selectors and the lines of its declarations. -/
def block (style : Style) (depth : Nat) (selectors : Text) (lines : List Text) : Text :=
  match style with
  | nested =>
    style.indent depth ++ selectors ++ " \x7b\n".toList ++ List.intercalate ['\n'] lines ++ " \x7d".toList
  | expanded => selectors ++ " \x7b\n".toList ++ List.intercalate ['\n'] lines ++ "\n\x7d".toList
  | compact => selectors ++ " \x7b ".toList ++ List.intercalate [' '] lines ++ " \x7d".toList
  | compressed => selectors ++ "\x7b".toList ++ List.intercalate [';'] lines ++ "\x7d".toList

end Style

namespace Render

/-- The line of a declaration; none for a nested rule. -/
def declaration (style : Style) (precision : Int) (depth : Nat) : Node → Except Failure Text
  | .property name _ value =>
    return style.property depth name (← value.css precision (style = .compressed))
  | .comment text => return style.innerComment depth text
  | .rule .. => return []

/-- The chunk of a node and the separator that goes before it. A property outside
all rules has none. -/
def chunk (style : Style) (precision : Int) : Node → Except Failure (Text × Text)
  | .rule selectors children depth => do
    let lines ← children.mapM (declaration style precision depth)
    let text := style.block depth (style.selectors selectors) (lines.filter (!·.isEmpty))
    return (if depth = 0 then style.ruleSeparator else style.childSeparator, text)
  | .comment text => return (style.ruleSeparator, style.outerComment text)
  | .property .. => return ([], [])

/-- Chunks in a row, those without text left out and no separator before the
first. -/
def assemble (chunks : List (Text × Text)) : Text :=
  chunks.foldl (fun out (separator, text) =>
    if text.isEmpty then out else out ++ (if out.isEmpty then [] else separator) ++ text) []

end Render

/-- The css text of flat nodes, which ends with a newline unless it is empty. -/
def render (style : Style) (precision : Int) (nodes : List Node) : Except Failure Text := do
  let out := Render.assemble (← nodes.mapM (Render.chunk style precision))
  return if out.isEmpty then [] else out ++ ['\n']

end Stylesheet

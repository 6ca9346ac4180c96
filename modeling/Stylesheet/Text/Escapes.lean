import Stylesheet.Text.Basic

/-! Terminal escapes: an escape character and a bracket, parameters, further marks,
and one closing character. Text that does not go to a terminal is written without
them. -/
namespace Stylesheet

namespace Text

/-- Digits, and the signs from `:` to `?`. -/
def isEscapeParameter (c : Char) : Bool := '0' ≤ c && c ≤ '?'

/-- The signs from the space to `/`. -/
def isEscapeMark (c : Char) : Bool := ' ' ≤ c && c ≤ '/'

/-- Letters, and the other signs from `@` to `~`. -/
def isEscapeEnd (c : Char) : Bool := '@' ≤ c && c ≤ '~'

/-- The rest behind an escape whose start stands before the text; none if the
escape does not end. -/
def afterEscape? (text : Text) : Option Text :=
  match (text.dropWhile isEscapeParameter).dropWhile isEscapeMark with
  | [] => none
  | c :: rest => if isEscapeEnd c then some rest else none

theorem afterEscape?_length {text rest : Text} (h : afterEscape? text = some rest) :
    rest.length < text.length := by
  have parameters := (List.dropWhile_suffix (l := text) isEscapeParameter).length_le
  have marks := (List.dropWhile_suffix (l := text.dropWhile isEscapeParameter) isEscapeMark).length_le
  unfold afterEscape? at h
  split at h
  · simp at h
  · next c tail eq =>
    rw [eq] at marks
    split at h
    · simp only [Option.some.injEq] at h
      subst h
      exact Nat.lt_of_lt_of_le marks parameters
    · simp at h

/-- The text without its terminal escapes. What an unfinished escape starts with
stays. -/
def withoutEscapes (text : Text) : Text :=
  match text with
  | [] => []
  | '\x1b' :: '[' :: rest =>
    match _ : afterEscape? rest with
    | some after => withoutEscapes after
    | none => '\x1b' :: '[' :: withoutEscapes rest
  | c :: rest => c :: withoutEscapes rest
termination_by text.length
decreasing_by
  · have := afterEscape?_length ‹_›
    simp only [List.length_cons]
    omega
  · simp only [List.length_cons]
    omega
  · simp

end Text

end Stylesheet

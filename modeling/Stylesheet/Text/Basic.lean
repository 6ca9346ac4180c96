/-! Text as the list of its characters. Offsets, lengths and columns count
characters, so a list is the native carrier; `String` appears where messages and
files cross the boundary. Blank characters and line breaks are two fixed classes
of their own: a blank is any space separator or space control of the character
database, and a line break is any of its mandatory breaks. -/
namespace Stylesheet

abbrev Text := List Char

namespace Text

def isBlank (c : Char) : Bool :=
  let n := c.toNat
  (0x09 ≤ n && n ≤ 0x0d) || (0x1c ≤ n && n ≤ 0x20) || n == 0x85 || n == 0xa0 || n == 0x1680 ||
    (0x2000 ≤ n && n ≤ 0x200a) || n == 0x2028 || n == 0x2029 || n == 0x202f || n == 0x205f || n == 0x3000

def isLineBreak (c : Char) : Bool :=
  let n := c.toNat
  (0x0a ≤ n && n ≤ 0x0d) || (0x1c ≤ n && n ≤ 0x1e) || n == 0x85 || n == 0x2028 || n == 0x2029

/-- Every line break is a blank. -/
theorem isBlank_of_isLineBreak {c : Char} (h : isLineBreak c = true) : isBlank c = true := by
  simp only [isLineBreak, isBlank, Bool.or_eq_true, Bool.and_eq_true, decide_eq_true_eq,
    beq_iff_eq] at h ⊢
  omega

/-- Whether a text has a NUL, which no path can have. -/
def hasNul (text : Text) : Bool := text.contains '\x00'

/-- Without the characters of a class at its end. -/
def dropEnd (p : Char → Bool) (text : Text) : Text := (text.reverse.dropWhile p).reverse

/-- Without blanks at either end. -/
def strip (text : Text) : Text := dropEnd isBlank (text.dropWhile isBlank)

/-- The lines of a text. A carriage return and a line feed together are one
break, and a break at the very end opens no further line. -/
def lines : Text → List Text
  | [] => []
  | '\r' :: '\n' :: rest => [] :: lines rest
  | c :: rest =>
    if isLineBreak c then [] :: lines rest
    else match lines rest with
      | [] => [[c]]
      | line :: more => (c :: line) :: more

/-- Every run of blanks becomes one space. -/
def collapse : Text → Text
  | [] => []
  | c :: rest =>
    if isBlank c then
      match rest with
      | [] => [' ']
      | d :: _ => if isBlank d then collapse rest else ' ' :: collapse rest
    else c :: collapse rest

/-- Lower case, as far as it can meet an ASCII name: besides `A` to `Z` only the
Kelvin sign has an ASCII lower case. -/
def lower (text : Text) : Text :=
  text.map fun c => if c.toNat = 0x212a then 'k' else c.toLower

/-- At least `width` digits of `n` in base 16, filled with zeros on the left. -/
def hexadecimal (width n : Nat) : Text :=
  let digits := Nat.toDigits 16 n
  List.replicate (width - digits.length) '0' ++ digits

end Text

end Stylesheet

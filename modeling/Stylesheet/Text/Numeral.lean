import Stylesheet.Text.Digit

/-! Integer numerals as options and colour channels write them: blanks around, an
optional sign, then digits of any script with single underscores between them. -/
namespace Stylesheet

namespace Text

/-- Blanks that may surround a numeral: all but the four information separators. -/
def isNumeralBlank (c : Char) : Bool := isBlank c && !(0x1c ≤ c.toNat && c.toNat ≤ 0x1f)

/-- The digits of a numeral, first to last. An underscore needs a digit on either
side. -/
def digits? (digit : Char → Option Nat) : Text → Option (List Nat)
  | [] => none
  | [c] => (digit c).map ([·])
  | c :: '_' :: rest => do return (← digit c) :: (← digits? digit rest)
  | c :: rest => do return (← digit c) :: (← digits? digit rest)

/-- The number a digit word denotes in a base. -/
def ofDigits (base : Nat) (digits : List Nat) : Nat :=
  digits.foldl (fun n d => n * base + d) 0

/-- An integer numeral, with the digits it may use, of at most `limit` digits. -/
def integer? (base : Nat) (digit : Char → Option Nat) (limit : Nat) (text : Text) : Option Int :=
  let body := dropEnd isNumeralBlank (text.dropWhile isNumeralBlank)
  let unsigned (rest : Text) : Option Nat := do
    let ds ← digits? digit rest
    if ds.length ≤ limit then some (ofDigits base ds) else none
  match body with
  | '+' :: rest => (unsigned rest).map Int.ofNat
  | '-' :: rest => (unsigned rest).map fun n => -Int.ofNat n
  | rest => (unsigned rest).map Int.ofNat

/-- A decimal integer of at most 4300 digits. -/
def decimal? (text : Text) : Option Int := integer? 10 decimalDigit? 4300 text

/-- An integer in base 16. -/
def hex? (text : Text) : Option Int := integer? 16 hexDigit? text.length text

end Text

end Stylesheet

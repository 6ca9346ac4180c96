import Stylesheet.Binary64.Basic
import Stylesheet.Text.Basic

/-! Decimal reading, rounding and writing of binary64 numbers, all in exact
integers. A decimal is read as the nearest number; rounding to a number of places
picks the nearest decimal, ties to even, and reads it back; the decimal of a rounded
number has no trailing zeros and never shows a negative zero. -/
namespace Stylesheet.Binary64

/-- Why a number has no integer or decimal form. -/
inductive Fault where
  | overflow
  | undefined
  /-- More places are asked for than can be written. -/
  | places
deriving DecidableEq, Repr

/-- The number nearest to `digits / 10^scale`. -/
def ofDecimal (negative : Bool) (digits scale : Nat) : Binary64 :=
  ofUnits negative (digits * oneUnits) (Nat.pow 10 scale)

/-- The integral part, toward zero. -/
def truncate : Binary64 → Except Fault Int
  | .nan => .error .undefined
  | .infinite _ => .error .overflow
  | .finite negative units => .ok (signed negative (units / oneUnits))

/-- The nearest integer, the even one of two. -/
def nearestInteger : Binary64 → Except Fault Int
  | .nan => .error .undefined
  | .infinite _ => .error .overflow
  | .finite negative units => .ok (signed negative (divNearest units oneUnits))

/-- A count of places within which rounding can still make a difference: no
finite number has more than 1074 decimals or reaches half of 10^310. -/
def effectivePlaces (places : Int) : Int := max (-310) (min places 1074)

/-- The number nearest to the decimal of so many places that is nearest to the
given one. Negative counts round before the point. Numbers that are not finite
stay. -/
def round (x : Binary64) (places : Int) : Binary64 :=
  match x, effectivePlaces places with
  | .finite negative units, .ofNat p =>
    ofDecimal negative (divNearest (units * Nat.pow 10 p) oneUnits) p
  | .finite negative units, .negSucc p =>
    ofDecimal negative (divNearest units (oneUnits * Nat.pow 10 (p + 1)) * Nat.pow 10 (p + 1)) 0
  | x, _ => x

/-- The digits of a fraction `n / 10^places` with `n < 10^places`. -/
def fractionDigits (places n : Nat) : Text :=
  let digits := Nat.toDigits 10 n
  List.replicate (places - digits.length) '0' ++ digits

/-- A magnitude written with exactly so many places. -/
def fixed (units places : Nat) : Text :=
  let scaled := divNearest (units * Nat.pow 10 places) oneUnits
  Nat.toDigits 10 (scaled / Nat.pow 10 places) ++ '.' :: fractionDigits places (scaled % Nat.pow 10 places)

/-- The decimal of a finite number: an integer where it is one, else with no more than so
many places and without trailing zeros. -/
def decimal (negative : Bool) (units places : Nat) : Text :=
  if units = 0 then ['0']
  else
    (if negative then ['-'] else []) ++
      if units % oneUnits = 0 then Nat.toDigits 10 (units / oneUnits)
      else Text.dropEnd (· == '.') (Text.dropEnd (· == '0') (fixed units places))

/-- The digits before the point that count: none for a magnitude below one. -/
def wholeDigits (units : Nat) : Nat :=
  if units < oneUnits then 0 else (Nat.toDigits 10 (units / oneUnits)).length

/-- The most places a decimal is written with, and the most digits it is written with
exactly. -/
def mostPlaces : Int := 2147483647

/-- The text of a number rounded to so many places. A fraction for which there are too
many digits is lost, together with the integer before it. -/
def spell (x : Binary64) (places : Int) : Except Fault Text :=
  match x.round places with
  | .nan => .error .undefined
  | .infinite _ => .error .overflow
  | .finite negative units =>
    if units % oneUnits = 0 ∨ places + wholeDigits units ≤ mostPlaces then
      .ok (decimal negative units (effectivePlaces places).toNat)
    else if places ≤ mostPlaces then .ok (if negative then ['-', '0'] else ['0'])
    else .error .places

end Stylesheet.Binary64

import Stylesheet.Binary64.Decimal

/-! The shortest decimal that reads back as a given number, and its written form.
A number's exact decimal expansion is finite; for one to seventeen digits its two
neighbours on that grid are tried, and the first grid with a hit wins, of two hits
the nearer and of two equally near ones the even. -/
namespace Stylesheet.Binary64

/-- The number nearest to `digits * 10^exponent`. -/
def ofScientific (negative : Bool) (digits : Nat) (exponent : Int) : Binary64 :=
  match exponent with
  | .ofNat e => ofDecimal negative (digits * Nat.pow 10 e) 0
  | .negSucc e => ofDecimal negative digits (e + 1)

/-- The number `units` denotes times 10^1074. -/
def expansion (units : Nat) : Nat := units * Nat.pow 5 1074

/-- A decimal of `count` digits that reads back as the number, as its digits and
the exponent of the last one. -/
def withDigits? (units count : Nat) : Option (Nat × Int) :=
  let exact := expansion units
  let length := (Nat.toDigits 10 exact).length
  if length ≤ count then some (exact, -1074)
  else
    let step := Nat.pow 10 (length - count)
    let exponent : Int := (length - count : Nat) - 1074
    let below := exact / step
    let reads (digits : Nat) : Bool := ofScientific false digits exponent == .finite false units
    let nearest := divNearest exact step
    let other := if nearest = below then below + 1 else below
    if reads nearest then some (nearest, exponent)
    else if reads other then some (other, exponent)
    else none

/-- The shortest decimal that reads back. Seventeen digits always do. -/
def shortest (units : Nat) : Nat × Int :=
  ((List.range 17).findSome? fun i => withDigits? units (i + 1)).getD (expansion units, -1074)

/-- The written form of a shortest decimal: positional from 10^-4 up to 10^16,
with at least one decimal, and scientific with at least two exponent digits
outside. -/
def displayDecimal (digits : Nat) (exponent : Int) : Text :=
  let all := Nat.toDigits 10 digits
  let point : Int := all.length + exponent
  let ds := match Text.dropEnd (· == '0') all with
    | [] => ['0']
    | ds => ds
  if -4 < point ∧ point ≤ 16 then
    if point ≤ 0 then '0' :: '.' :: List.replicate (-point).toNat '0' ++ ds
    else
      let whole := point.toNat
      let fraction := ds.drop whole
      ds.take whole ++ List.replicate (whole - ds.length) '0' ++
        '.' :: (if fraction.isEmpty then ['0'] else fraction)
  else
    let scale := point - 1
    let width := Nat.toDigits 10 scale.natAbs
    ds.take 1 ++ (if ds.length = 1 then [] else '.' :: ds.drop 1) ++
      'e' :: (if scale < 0 then '-' else '+') ::
        (List.replicate (2 - width.length) '0' ++ width)

/-- A number shown with the fewest digits that read back. -/
def display (x : Binary64) : Text :=
  match x with
  | .nan => "nan".toList
  | .infinite negative => (if negative then "-inf" else "inf").toList
  | .finite negative units =>
    let sign : Text := if negative then ['-'] else []
    if units = 0 then sign ++ "0.0".toList
    else
      let (digits, exponent) := shortest units
      sign ++ displayDecimal digits exponent

end Stylesheet.Binary64

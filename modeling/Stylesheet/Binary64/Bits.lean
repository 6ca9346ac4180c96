import Stylesheet.Binary64.Basic

/-! The interchange encoding of binary64 numbers: a sign bit, eleven exponent
bits and 52 fraction bits, read as one natural below 2^64. -/
namespace Stylesheet.Binary64

def ofBits (bits : Nat) : Binary64 :=
  let negative := bits / Nat.pow 2 63 % 2 == 1
  let exponent := bits / Nat.pow 2 52 % Nat.pow 2 11
  let fraction := bits % Nat.pow 2 52
  if exponent = Nat.pow 2 11 - 1 then (if fraction = 0 then .infinite negative else .nan)
  else if exponent = 0 then .finite negative fraction
  else .finite negative ((Nat.pow 2 52 + fraction) * Nat.pow 2 (exponent - 1))

/-- The encoding of a magnitude. Below 2^53 units the count is its own encoding;
above, the leading bit is implied and the exponent counts the doublings. -/
def magnitudeBits (units : Nat) : Nat :=
  if units < Nat.pow 2 53 then units
  else
    let doublings := units.log2 - 52
    doublings * Nat.pow 2 52 + units / Nat.pow 2 doublings

/-- The encoding of a number, none for a NaN, which has many. -/
def bits? : Binary64 → Option Nat
  | .nan => none
  | .infinite negative => some (Nat.pow 2 63 * negative.toNat + (Nat.pow 2 11 - 1) * Nat.pow 2 52)
  | .finite negative units => some (Nat.pow 2 63 * negative.toNat + magnitudeBits units)

end Stylesheet.Binary64

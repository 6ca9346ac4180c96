/-! Binary64 numbers as exact counts of units of 2^-1074, the least positive
magnitude. Every arithmetic result is the exact quotient of two naturals in those
units, rounded once to the nearest number of at most 53 significant bits, ties
to even. The sign stands apart, so zero keeps its own. -/
namespace Stylesheet

/-- A binary64 number. A finite one is `units * 2^-1074`, with its sign. -/
inductive Binary64 where
  | nan
  | infinite (negative : Bool)
  | finite (negative : Bool) (units : Nat)
deriving DecidableEq, Repr

namespace Binary64

/-- One, in units. -/
def oneUnits : Nat := Nat.pow 2 1074

/-- The first magnitude that is no longer finite, in units. -/
def overflowUnits : Nat := Nat.pow 2 2098

/-- The integer nearest to `n / d`, the even one of two. -/
def divNearest (n d : Nat) : Nat :=
  let q := n / d
  let r := n % d
  if 2 * r < d then q else if d < 2 * r then q + 1 else q + q % 2

/-- The spacing of binary64 numbers whose integral part in units is `q`. -/
def spacing (q : Nat) : Nat := Nat.pow 2 (q.log2 + 1 - 53)

/-- The magnitude nearest to `n / d` units, ties to even. -/
def nearestUnits (n d : Nat) : Nat :=
  let step := spacing (n / d)
  divNearest n (d * step) * step

/-- The number nearest to `n / d` units of the given sign. -/
def ofUnits (negative : Bool) (n d : Nat) : Binary64 :=
  let units := nearestUnits n d
  if units < overflowUnits then .finite negative units else .infinite negative

def zero : Binary64 := .finite false 0
def one : Binary64 := .finite false oneUnits
def minusOne : Binary64 := .finite true oneUnits

def isZero : Binary64 → Bool
  | .finite _ 0 => true
  | _ => false

/-- Equality of numbers: both zeros are equal, and nothing equals a NaN. -/
def equal : Binary64 → Binary64 → Bool
  | .infinite s, .infinite t => s == t
  | .finite s m, .finite t n => m == n && (s == t || m == 0)
  | _, _ => false

def neg : Binary64 → Binary64
  | .nan => .nan
  | .infinite s => .infinite !s
  | .finite s m => .finite (!s) m

/-- A sign and a magnitude as one integer. -/
def signed (negative : Bool) (n : Nat) : Int := if negative then -(n : Int) else n

/-- Sums round the exact integer sum of units. An exact zero is negative only if
both terms are. -/
def add : Binary64 → Binary64 → Binary64
  | .nan, _ | _, .nan => .nan
  | .infinite s, .infinite t => if s = t then .infinite s else .nan
  | .infinite s, .finite .. | .finite .., .infinite s => .infinite s
  | .finite s m, .finite t n =>
    let sum := signed s m + signed t n
    if sum = 0 then .finite (s && t) 0 else ofUnits (sum < 0) sum.natAbs 1

def sub (x y : Binary64) : Binary64 := add x (neg y)

def mul : Binary64 → Binary64 → Binary64
  | .nan, _ | _, .nan => .nan
  | .infinite s, .infinite t => .infinite (s ^^ t)
  | .infinite s, .finite t n | .finite t n, .infinite s => if n = 0 then .nan else .infinite (s ^^ t)
  | .finite s m, .finite t n => ofUnits (s ^^ t) (m * n) oneUnits

def div : Binary64 → Binary64 → Binary64
  | .nan, _ | _, .nan => .nan
  | .infinite _, .infinite _ => .nan
  | .infinite s, .finite t _ => .infinite (s ^^ t)
  | .finite s _, .infinite t => .finite (s ^^ t) 0
  | .finite s m, .finite t n =>
    if n = 0 then (if m = 0 then .nan else .infinite (s ^^ t)) else ofUnits (s ^^ t) (m * oneUnits) n

/-- The remainder that has the sign of the dividend. It is undefined for an
infinite dividend and for a zero divisor. -/
def rem? : Binary64 → Binary64 → Option Binary64
  | .nan, _ | _, .nan => some .nan
  | .infinite _, _ => none
  | .finite s m, .infinite _ => some (.finite s m)
  | .finite s m, .finite _ n => if n = 0 then none else some (.finite s (m % n))

end Binary64

end Stylesheet

import Stylesheet.Text.Basic

/-! Positions in a source as people count them: lines and columns start at one,
and a line ends with its line feed. -/
namespace Stylesheet

structure Position where
  line : Nat
  column : Nat
deriving DecidableEq, Repr

namespace Position

/-- The position of an offset. Offsets outside the source count as its nearest
end. -/
def ofOffset (source : Text) (offset : Int) : Position :=
  let before := source.take offset.toNat
  { line := before.count '\n' + 1
    column := (before.reverse.takeWhile (· != '\n')).length + 1 }

end Position

end Stylesheet

import Stylesheet.Text.Basic

/-! How much two texts resemble each other. They share the characters of the
longest block that both contain, and what they share before it and behind it. Texts
are close if the shared characters, counted in both, make up three fifths of all. -/
namespace Stylesheet

namespace Text

/-- How many characters two texts have in common at their start. -/
def commonStart : Text → Text → Nat
  | a :: as, b :: bs => if a = b then commonStart as bs + 1 else 0
  | _, _ => 0

/-- A run of characters in two texts, by where it starts in each. -/
structure Block where
  left : Nat
  right : Nat
  size : Nat
deriving DecidableEq, Repr

/-- The longer of two blocks, the first if neither is. -/
def Block.longer (first second : Block) : Block := if first.size < second.size then second else first

/-- The longest block at the very start of `a`, which stands at `left` in its text.
The right text is searched from `right` on. -/
def blockAt (left : Nat) (a : Text) : Nat → Text → Block
  | right, [] => ⟨left, right, 0⟩
  | right, c :: rest => Block.longer ⟨left, right, commonStart a (c :: rest)⟩ (blockAt left a (right + 1) rest)

/-- The longest block whose start in the left text is at `left` or behind. -/
def blockFrom (b : Text) : Nat → Text → Block
  | left, [] => ⟨left, 0, 0⟩
  | left, c :: rest => Block.longer (blockAt left (c :: rest) 0 b) (blockFrom b (left + 1) rest)

/-- The longest block of two texts: of equally long ones the first in the left
text, and then the first in the right. -/
def longestBlock (a b : Text) : Block := blockFrom b 0 a

/-- How many characters two texts share. -/
def shared (a b : Text) : Nat :=
  match longestBlock a b with
  | ⟨left, right, size⟩ =>
    if 0 < size ∧ left + size ≤ a.length then
      shared (a.take left) (b.take right) + size + shared (a.drop (left + size)) (b.drop (right + size))
    else 0
termination_by a.length
decreasing_by
  all_goals
    simp only [List.length_take, List.length_drop]
    omega

/-- Whether a name is close to a word. -/
def isClose (word name : Text) : Bool := 3 * (name.length + word.length) ≤ 10 * shared name word

/-- Whether `first` is closer to a word than `second`; of two equally close names
the later in the alphabet is. -/
def isCloser (word first second : Text) : Bool :=
  let here := shared first word * (second.length + word.length)
  let there := shared second word * (first.length + word.length)
  there < here || (there = here && second < first)

/-- Those of the names close to a word that fewer than `count` other ones are closer
than. -/
def closest (count : Nat) (word : Text) (names : List Text) : List Text :=
  let close := names.filter (isClose word)
  close.filter fun name => close.countP (isCloser word · name) < count

end Text

end Stylesheet

import Stylesheet.Failure
import Stylesheet.Text.Numeral

/-! Colours: three channels, with the spelling they were written in. A colour can
be spelled by six hexadecimal digits, by three where every channel repeats its
digit, or by a name; the shortest fitting spelling is printed. -/
namespace Stylesheet

structure Color where
  red : Int
  green : Int
  blue : Int
  computed : Bool
  spelling : Text
deriving DecidableEq, Repr

namespace Color

/-- The named colours and their channels. -/
def names : List (String × Int × Int × Int) :=
  [("black", 0, 0, 0), ("silver", 192, 192, 192), ("gray", 128, 128, 128),
    ("white", 255, 255, 255), ("maroon", 128, 0, 0), ("red", 255, 0, 0),
    ("purple", 128, 0, 128), ("magenta", 255, 0, 255), ("green", 0, 128, 0),
    ("lime", 0, 255, 0), ("olive", 128, 128, 0), ("yellow", 255, 255, 0),
    ("navy", 0, 0, 128), ("blue", 0, 0, 255), ("teal", 0, 128, 128),
    ("cyan", 0, 255, 255), ("orange", 255, 165, 0), ("darkgrey", 169, 169, 169),
    ("darkslategrey", 47, 79, 79), ("dimgrey", 105, 105, 105), ("lightgrey", 211, 211, 211),
    ("lightslategrey", 119, 136, 153), ("slategrey", 112, 128, 144), ("aliceblue", 240, 248, 255),
    ("antiquewhite", 250, 235, 215), ("aquamarine", 127, 255, 212), ("azure", 240, 255, 255),
    ("beige", 245, 245, 220), ("bisque", 255, 228, 196), ("blanchedalmond", 255, 235, 205),
    ("blueviolet", 138, 43, 226), ("brown", 165, 42, 42), ("burlywood", 222, 184, 135),
    ("cadetblue", 95, 158, 160), ("chartreuse", 127, 255, 0), ("chocolate", 210, 105, 30),
    ("coral", 255, 127, 80), ("cornflowerblue", 100, 149, 237), ("crimson", 220, 20, 60),
    ("gold", 255, 215, 0), ("indigo", 75, 0, 130), ("ivory", 255, 255, 240),
    ("khaki", 240, 230, 140), ("orchid", 218, 112, 214), ("pink", 255, 192, 203),
    ("plum", 221, 160, 221), ("salmon", 250, 128, 114), ("sienna", 160, 82, 45),
    ("tan", 210, 180, 140), ("tomato", 255, 99, 71), ("violet", 238, 130, 238),
    ("wheat", 245, 222, 179)]

def channels (c : Color) : List Int := [c.red, c.green, c.blue]

/-- An integer in base 16, filled with zeros to a width that counts its sign. -/
def hexChannel (width : Nat) (n : Int) : Text :=
  if n < 0 then '-' :: Text.hexadecimal (width - 1) n.natAbs else Text.hexadecimal width n.natAbs

/-- The long form: `#` and two digits for each channel. -/
def hexOf (red green blue : Int) : Text :=
  '#' :: [red, green, blue].flatMap (hexChannel 2)

def hex (c : Color) : Text := hexOf c.red c.green c.blue

/-- The short form: `#` and one digit for each channel, where all channels are
multiples of 17; else the long form. -/
def shortHex (c : Color) : Text :=
  if c.channels.all (Int.fmod · 17 == 0) then
    '#' :: c.channels.flatMap fun n => hexChannel 1 (Int.fdiv n 17)
  else c.hex

/-- The name of a colour that has one; else the long form. -/
def named (c : Color) : Text :=
  match names.find? fun (_, rgb) => rgb == (c.red, c.green, c.blue) with
  | some (name, _) => name.toList
  | none => c.hex

/-- The colour of a hexadecimal spelling with three or six digits behind any
number of `#`. -/
def ofHex (text : Text) (offset : Option Int) : Except Failure Color :=
  let channel (digits : Text) (scale : Int) : Except Failure Int :=
    match Text.hex? digits with
    | some n => .ok (n * scale)
    | none => .error .channel
  match text.dropWhile (· == '#') with
  | [r, g, b] => return ⟨← channel [r] 17, ← channel [g] 17, ← channel [b] 17, false, text⟩
  | [r₁, r₂, g₁, g₂, b₁, b₂] =>
    return ⟨← channel [r₁, r₂] 1, ← channel [g₁, g₂] 1, ← channel [b₁, b₂] 1, false, text⟩
  | _ => .error (.error (.badColor text) offset)

/-- A colour that arithmetic produced. -/
def computedOf (red green blue : Int) : Color := ⟨red, green, blue, true, hexOf red green blue⟩

/-- The plain spelling: the name of a computed colour or the long form of a
written one, unless its own spelling is shorter. -/
def plain (c : Color) : Text :=
  let candidate := if c.computed then c.named else c.hex
  let own := if c.spelling.isEmpty then c.hex else c.spelling
  if candidate.length ≤ own.length then candidate else own

/-- The compressed spelling: of a computed colour the shorter of short form and
name, the name if both are as long. -/
def compressed (c : Color) : Text :=
  if !c.computed then c.plain
  else if c.shortHex.length < c.named.length then c.shortHex else c.named

/-- Colours are equal in channels and origin; their spelling does not count. -/
def same (a b : Color) : Bool := a.channels == b.channels && a.computed == b.computed

end Color

end Stylesheet

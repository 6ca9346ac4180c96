import Stylesheet.Proofs.Value.Literal
import Stylesheet.Proofs.Value.WellFormed

/-! What the spellings of a colour denote. Hexadecimal digits and names are read back as
the channels they were made from, and the spelling that is printed is no longer than those
it is chosen from. -/
namespace Stylesheet

namespace Text

theorem isHexDigit_digitChar : ∀ i < 16, isHexDigit (Nat.digitChar i) = true := by decide +kernel

theorem hexValue_digitChar : ∀ i < 16, hexValue (Nat.digitChar i) = i := by decide +kernel

theorem hexadecimal_one : ∀ i < 16, hexadecimal 1 i = [Nat.digitChar i] := by decide +kernel

end Text

namespace Color

open Text

/-- The channels that a text spells: by digits behind `#`, or by the name of a colour. -/
def decode? (text : Text) : Option (List Int) :=
  if text.head? = some '#' then (ofHex text none).toOption.map channels
  else (names.find? fun entry => entry.1.toList == text).map fun entry => [entry.2.1, entry.2.2.1, entry.2.2.2]

/-- In both styles the colour is printed, and as a text that spells its channels. -/
structure Faithful (c : Color) : Prop where
  css_plain : ∀ precision, (Value.color c).css precision false = .ok c.plain
  css_compressed : ∀ precision, (Value.color c).css precision true = .ok c.compressed
  plain : decode? c.plain = some c.channels
  compressed : decode? c.compressed = some c.channels

theorem decode?_of_ofHex {digits : Text} {c : Color} (read : ofHex ('#' :: digits) none = .ok c) :
    decode? ('#' :: digits) = some c.channels := by
  unfold decode?
  rw [if_pos (List.head?_cons), read]
  rfl

/-- A byte is written with two digits. -/
theorem hexChannel_byte {n : Int} (byte : 0 ≤ n ∧ n ≤ 255) :
    ∃ d d', isHexDigit d = true ∧ isHexDigit d' = true ∧ hexChannel 2 n = [d, d'] ∧
      n = (hexValue d * 16 + hexValue d' : Nat) := by
  obtain ⟨i, j, high, low, rfl⟩ : ∃ i j : Nat, i < 16 ∧ j < 16 ∧ n = (i * 16 + j : Nat) :=
    ⟨n.toNat / 16, n.toNat % 16, by omega, by omega, by omega⟩
  refine ⟨_, _, isHexDigit_digitChar i high, isHexDigit_digitChar j low, hexChannel_two high low, ?_⟩
  rw [hexValue_digitChar i high, hexValue_digitChar j low]

/-- A byte that repeats a digit is a multiple of 17. -/
theorem hexChannel_repeated {n : Int} (byte : 0 ≤ n ∧ n ≤ 255) (repeats : Int.fmod n 17 = 0) :
    ∃ d, isHexDigit d = true ∧ hexChannel 1 (Int.fdiv n 17) = [d] ∧ n = hexValue d * 17 := by
  obtain ⟨i, rfl⟩ := Int.dvd_of_fmod_eq_zero repeats
  obtain ⟨i, rfl⟩ := Int.eq_ofNat_of_zero_le (show 0 ≤ i by omega)
  have small : i < 16 := by omega
  refine ⟨_, isHexDigit_digitChar i small, ?_, by rw [hexValue_digitChar i small, Int.mul_comm]⟩
  rw [Int.mul_fdiv_cancel_left _ (by decide), hexChannel, if_neg (by omega), Int.natAbs_natCast,
    hexadecimal_one i small]

variable {c : Color}

/-- From the six digits of the long form the channels are read back. -/
theorem InRange.decode?_hex (range : c.InRange) : decode? c.hex = some c.channels := by
  simp only [InRange, channels, List.forall_mem_cons] at range
  obtain ⟨r, r', dr, dr', writtenRed, red⟩ := hexChannel_byte range.1
  obtain ⟨g, g', dg, dg', writtenGreen, green⟩ := hexChannel_byte range.2.1
  obtain ⟨b, b', db, db', writtenBlue, blue⟩ := hexChannel_byte range.2.2.1
  have written : c.hex = '#' :: [r, r', g, g', b, b'] := by
    simp [hex, hexOf, writtenRed, writtenGreen, writtenBlue]
  have digits : [r, r', g, g', b, b'].all isHexDigit = true := by simp [*]
  rw [written, decode?_of_ofHex (ofHex_six digits none), channels, channels, ← red, ← green, ← blue]

theorem InRange.decode?_shortHex (range : c.InRange) : decode? c.shortHex = some c.channels := by
  rw [shortHex]
  split
  · next repeats =>
    simp only [InRange, channels, List.forall_mem_cons] at range
    simp only [channels, List.all_cons, List.all_nil, Bool.and_true, Bool.and_eq_true, beq_iff_eq] at repeats
    obtain ⟨r, dr, writtenRed, red⟩ := hexChannel_repeated range.1 repeats.1
    obtain ⟨g, dg, writtenGreen, green⟩ := hexChannel_repeated range.2.1 repeats.2.1
    obtain ⟨b, db, writtenBlue, blue⟩ := hexChannel_repeated range.2.2.1 repeats.2.2
    have written : '#' :: c.channels.flatMap (fun n => hexChannel 1 (Int.fdiv n 17)) = '#' :: [r, g, b] := by
      simp [channels, writtenRed, writtenGreen, writtenBlue]
    have digits : [r, g, b].all isHexDigit = true := by simp [*]
    rw [written, decode?_of_ofHex (ofHex_three digits none), channels, channels, ← red, ← green, ← blue]
  · exact range.decode?_hex

theorem find?_name : ∀ entry ∈ names, names.find? (fun other => other.1.toList == entry.1.toList) = some entry := by
  decide +kernel

theorem find?_channels : ∀ entry ∈ names, names.find? (fun other => other.2 == entry.2) = some entry := by
  decide +kernel

theorem head?_name : ∀ entry ∈ names, entry.1.toList.head? ≠ some '#' := by decide +kernel

theorem decode?_name {entry : String × Int × Int × Int} (listed : entry ∈ names) :
    decode? entry.1.toList = some [entry.2.1, entry.2.2.1, entry.2.2.2] := by
  rw [decode?, if_neg (head?_name entry listed), find?_name entry listed]
  rfl

/-- A colour in the table goes by its name there. -/
theorem named_of_mem {name : String} (listed : (name, c.red, c.green, c.blue) ∈ names) : c.named = name.toList := by
  have found := find?_channels _ listed
  unfold named
  split
  · next other rgb same =>
    rw [found] at same
    cases same
    rfl
  · next none =>
    rw [found] at none
    cases none

theorem InRange.decode?_named (range : c.InRange) : decode? c.named = some c.channels := by
  unfold named
  split
  · next name rgb found =>
    have same : rgb = (c.red, c.green, c.blue) := by simpa using List.find?_some found
    have listed := decode?_name (List.mem_of_find?_eq_some found)
    rwa [same] at listed
  · exact range.decode?_hex

/-- What is printed plainly is a form of the colour that is not longer than the spelling it
came with, or that spelling. -/
theorem plain_cases (spelled : c.spelling ≠ []) :
    c.plain = (if c.computed then c.named else c.hex) ∧ c.plain.length ≤ c.spelling.length ∨ c.plain = c.spelling := by
  have own : (if c.spelling.isEmpty then c.hex else c.spelling) = c.spelling := if_neg (by simpa using spelled)
  have chosen (candidate : Text) : (if candidate.length ≤ c.spelling.length then candidate else c.spelling) =
      candidate ∧ candidate.length ≤ c.spelling.length ∨
        (if candidate.length ≤ c.spelling.length then candidate else c.spelling) = c.spelling := by
    split
    · next shorter => exact .inl ⟨rfl, shorter⟩
    · exact .inr rfl
  unfold plain
  rw [own]
  rcases chosen (if c.computed then c.named else c.hex) with ⟨same, shorter⟩ | same
  · exact .inl ⟨same, by rwa [same]⟩
  · exact .inr same

theorem plain_length_le (spelled : c.spelling ≠ []) : c.plain.length ≤ c.spelling.length := by
  rcases plain_cases spelled with ⟨-, shorter⟩ | same
  · exact shorter
  · exact Nat.le_of_eq (congrArg List.length same)

/-- A colour with a spelling of its own is faithful if that is read back. -/
theorem InRange.faithful (range : c.InRange) (spelled : c.spelling ≠ []) (own : decode? c.spelling = some c.channels) :
    c.Faithful := by
  have plain : decode? c.plain = some c.channels := by
    rcases plain_cases spelled with ⟨same, -⟩ | same
    · rw [same]
      split
      · exact range.decode?_named
      · exact range.decode?_hex
    · rw [same, own]
  refine ⟨fun _ => by rw [Value.css]; rfl, fun _ => by rw [Value.css]; rfl, plain, ?_⟩
  unfold compressed
  split
  · exact plain
  · split
    · exact range.decode?_shortHex
    · exact range.decode?_named

/-- The compressed spelling of a computed colour is the shorter one of the two there are. -/
theorem compressed_length_le (computed : c.computed = true) :
    c.compressed.length ≤ c.shortHex.length ∧ c.compressed.length ≤ c.named.length := by
  rw [compressed, if_neg (by simp [computed])]
  split <;> omega

/-- The colour of a literal does not depend on where it stands. -/
theorem ofHex_literal {digits : Text} (all : digits.all isHexDigit = true)
    (length : digits.length = 3 ∨ digits.length = 6) :
    ∃ c : Color, (∀ offset, ofHex ('#' :: digits) offset = .ok c) ∧ c.spelling = '#' :: digits := by
  rcases length with three | six
  · obtain ⟨r, g, b, rfl⟩ := List.length_eq_three.mp three
    exact ⟨_, ofHex_three all, rfl⟩
  · match digits, six with
    | [r, r', g, g', b, b'], _ => exact ⟨_, ofHex_six all, rfl⟩

/-- Every spelling of a colour denotes its channels: of a literal with three or six digits
and of every computed colour with bytes as channels. The plain spelling is no longer than
the one that the colour came with, and the compressed spelling of a computed colour no
longer than its short form or its name. -/
theorem spellings_denote_channels :
    (∀ (digits : Text) (offset : Option Int), digits.all isHexDigit = true → digits.length = 3 ∨ digits.length = 6 →
      ∃ c, ofHex ('#' :: digits) offset = .ok c ∧ c.Faithful ∧ c.plain.length ≤ ('#' :: digits).length) ∧
    ∀ red green blue : Int, (computedOf red green blue).InRange → (computedOf red green blue).Faithful ∧
      (computedOf red green blue).plain.length ≤ (hexOf red green blue).length ∧
      (computedOf red green blue).compressed.length ≤ (computedOf red green blue).shortHex.length ∧
      ∀ name, (name, red, green, blue) ∈ names → (computedOf red green blue).compressed.length ≤ name.length := by
  constructor
  · intro digits offset all length
    obtain ⟨c, read, spelling⟩ := ofHex_literal all length
    have nonempty : digits ≠ [] := by
      rintro rfl
      simp at length
    have hex : Evaluate.isHexColor ('#' :: digits) = true := by simp [isHexColor_cons, all, nonempty]
    have range : c.InRange := inRange_ofHex hex (read none)
    have spelled : c.spelling ≠ [] := by simp [spelling]
    have own : decode? c.spelling = some c.channels := by rw [spelling, decode?_of_ofHex (read none)]
    refine ⟨c, read offset, range.faithful spelled own, ?_⟩
    rw [← spelling]
    exact plain_length_le spelled
  · intro red green blue range
    have spelled : (computedOf red green blue).spelling ≠ [] := List.cons_ne_nil _ _
    obtain ⟨short, named⟩ := compressed_length_le (c := computedOf red green blue) rfl
    refine ⟨range.faithful spelled range.decode?_hex, plain_length_le spelled, short, fun name listed => ?_⟩
    rwa [named_of_mem listed, String.length_toList] at named

/-- A literal in mixed case, and a colour that is shorter by name than by digits. -/
theorem spellings_denote_channels_red :
    (∃ c, ofHex "#FfA500".toList (some 3) = .ok c ∧ c.Faithful ∧ c.plain.length ≤ "#FfA500".toList.length) ∧
      (computedOf 255 0 0).InRange ∧ (computedOf 255 0 0).Faithful ∧
      (computedOf 255 0 0).compressed.length ≤ "red".length := by
  have range : (computedOf 255 0 0).InRange := by
    exact inRange_computedOf (by decide) (by decide) (by decide)
  obtain ⟨literal, computed⟩ := spellings_denote_channels
  have read := literal "FfA500".toList (some 3) (by decide +kernel) (.inr (by decide +kernel))
  obtain ⟨faithful, -, -, named⟩ := computed 255 0 0 range
  exact ⟨read, range, faithful, named "red" (by decide +kernel)⟩

end Color

end Stylesheet

import Mathlib.Data.List.Chain
import Stylesheet.Node.Render
import Stylesheet.Proofs.Text.Respacing

/-! Quoted strings in selectors, and what the compressed style does to them. Leaving out the
blanks around combinators looks at single characters, so it goes on inside a string as it
does outside: a quote stays where it is and so does what escapes it, and each string is
squeezed as if it were a selector of its own. It is kept exactly if no blank in it touches a
combinator. -/
namespace Stylesheet

namespace Text

def isQuote (c : Char) : Bool := c == '"' || c == '\''

/-- A quoted string, or a single character outside all strings. -/
inductive Piece where
  | plain (c : Char)
  | quoted (quote : Char) (content : Text)
deriving DecidableEq, Repr

theorem cutString_length {quote : Char} {text inner after : Text}
    (cut : Scan.cutString quote text = some (inner, after)) : after.length ≤ text.length := by
  have whole := congrArg List.length (Scan.cutString_eq cut)
  rw [List.length_append] at whole
  omega

/-- A text cut into its strings and the characters outside them. A quote without a partner
is a character as any other. -/
def pieces : Text → List Piece
  | [] => []
  | c :: rest =>
    if isQuote c then
      match _ : Scan.cutString c rest with
      | some (inner, after) => .quoted c inner.dropLast :: pieces after
      | none => .plain c :: pieces rest
    else .plain c :: pieces rest
termination_by text => text.length
decreasing_by
  · exact Nat.lt_succ_of_le (cutString_length ‹_›)
  · exact Nat.lt_succ_self _
  · exact Nat.lt_succ_self _

def Piece.content? : Piece → Option Text
  | plain _ => none
  | quoted _ content => some content

def strings (text : Text) : List Text := (pieces text).filterMap Piece.content?

def Piece.isStray : Piece → Bool
  | plain c => isQuote c
  | quoted .. => false

def IsClosed (text : Text) : Prop := ∀ p ∈ pieces text, p.isStray = false

instance (text : Text) : Decidable (IsClosed text) :=
  inferInstanceAs (Decidable (∀ p ∈ pieces text, p.isStray = false))

/-- The second list of pieces is the first one with some blanks outside strings left out. -/
inductive DropsGaps : List Piece → List Piece → Prop where
  | nil : DropsGaps [] []
  | keep (p : Piece) {ps qs : List Piece} (rest : DropsGaps ps qs) : DropsGaps (p :: ps) (p :: qs)
  | drop {c : Char} {ps qs : List Piece} (blank : isBlank c = true) (rest : DropsGaps ps qs) :
      DropsGaps (.plain c :: ps) qs

theorem DropsGaps.contents {ps qs : List Piece} (drops : DropsGaps ps qs) :
    qs.filterMap Piece.content? = ps.filterMap Piece.content? := by
  induction drops with
  | nil => rfl
  | keep p _ ih => rw [List.filterMap_cons, List.filterMap_cons, ih]
  | drop _ _ ih => rw [ih, List.filterMap_cons_none rfl]

variable {quote c : Char} {text content after : Text}

theorem exists_content {inner : Text} (cut : Scan.cutString quote text = some (inner, after)) :
    ∃ content, inner = content ++ [quote] := by
  fun_induction Scan.cutString quote text generalizing inner after with
  | case1 => cases cut
  | case2 => cases cut
  | case3 c text ih =>
    obtain ⟨⟨tail, _⟩, cut, same⟩ := Option.map_eq_some_iff.mp cut
    obtain ⟨content, rfl⟩ := ih cut
    cases same
    exact ⟨'\\' :: c :: content, rfl⟩
  | case4 =>
    cases cut
    exact ⟨[], rfl⟩
  | case5 c text last escaped other ih =>
    obtain ⟨⟨tail, _⟩, cut, same⟩ := Option.map_eq_some_iff.mp cut
    obtain ⟨content, rfl⟩ := ih cut
    cases same
    exact ⟨c :: content, rfl⟩

theorem pieces_quoted (isQuote : isQuote quote = true)
    (cut : Scan.cutString quote text = some (content ++ [quote], after)) :
    pieces (quote :: text) = .quoted quote content :: pieces after := by
  rw [pieces, if_pos isQuote]
  split
  · next found =>
    rw [cut] at found
    cases found
    rw [List.dropLast_concat]
  · next found =>
    rw [cut] at found
    cases found

theorem pieces_plain (unpaired : isQuote c = true → Scan.cutString c text = none) :
    pieces (c :: text) = .plain c :: pieces text := by
  rw [pieces]
  split
  · next isQuote =>
    split
    · next found =>
      rw [unpaired isQuote] at found
      cases found
    · rfl
  · rfl

/-- A text is read as it is cut: string by string, and character by character outside. -/
theorem pieces_induction {motive : Text → Prop} (nil : motive [])
    (quoted : ∀ quote content after, isQuote quote = true →
      Scan.cutString quote (content ++ quote :: after) = some (content ++ [quote], after) → motive after →
      motive (quote :: (content ++ quote :: after)))
    (plain : ∀ c text, (isQuote c = true → Scan.cutString c text = none) → motive text → motive (c :: text))
    (text : Text) : motive text := by
  fun_induction pieces text with
  | case1 => exact nil
  | case2 c rest isQuote inner after cut ih =>
    obtain ⟨content, rfl⟩ := exists_content cut
    have whole := Scan.cutString_eq cut
    rw [List.append_assoc, List.singleton_append] at whole
    rw [← whole] at cut ⊢
    exact quoted c content after isQuote cut ih
  | case3 c rest isQuote cut ih => exact plain c rest (fun _ => cut) ih
  | case4 c rest noQuote ih => exact plain c rest (fun isQuote => absurd isQuote noQuote) ih

/-- Behind a text whose strings are closed another one is cut as by itself. -/
theorem pieces_append (closed : IsClosed text) (more : Text) : pieces (text ++ more) = pieces text ++ pieces more := by
  induction text using pieces_induction with
  | nil => rw [List.nil_append, pieces, List.nil_append]
  | quoted quote content after isQuote cut ih =>
    have longer := Scan.cutString_append cut (after ++ more)
    rw [List.append_assoc, List.singleton_append, ← List.cons_append, ← List.append_assoc] at longer
    rw [IsClosed, pieces_quoted isQuote cut, List.forall_mem_cons] at closed
    rw [List.cons_append, pieces_quoted isQuote longer, pieces_quoted isQuote cut, ih closed.2, List.cons_append]
  | plain c text unpaired ih =>
    rw [IsClosed, pieces_plain unpaired, List.forall_mem_cons] at closed
    have noQuote : isQuote c = false := closed.1
    rw [List.cons_append, pieces_plain fun isQuote => absurd isQuote (by simp [noQuote]), pieces_plain unpaired,
      ih closed.2, List.cons_append]

theorem strings_append (closed : IsClosed text) (more : Text) : strings (text ++ more) = strings text ++ strings more := by
  rw [strings, pieces_append closed, List.filterMap_append, strings, strings]

theorem strings_plain (noQuote : isQuote c = false) (text : Text) : strings (c :: text) = strings text := by
  rw [strings, pieces_plain fun isQuote => absurd isQuote (by simp [noQuote]), List.filterMap_cons_none rfl, strings]

/-- The strings of a list of texts with commas between them are those of the texts. -/
theorem strings_intercalate {texts : List Text} (closed : ∀ text ∈ texts, IsClosed text) :
    strings (List.intercalate [','] texts) = texts.flatMap strings := by
  induction texts with
  | nil =>
    rw [List.intercalate_nil, strings, pieces]
    rfl
  | cons text texts ih =>
    rw [List.forall_mem_cons] at closed
    cases texts with
    | nil => rw [List.intercalate_singleton, List.flatMap_singleton]
    | cons next texts =>
      rw [List.intercalate_cons_cons, List.append_assoc, List.singleton_append, strings_append closed.1,
        strings_plain rfl, ih closed.2]
      rfl

end Text

namespace Selector

variable {c : Char} {text rest : Text}

def meetsCombinator (text : Text) : Bool := (text.dropWhile Text.isBlank).head?.any isCombinator

theorem isBlank_of_isCombinator (combinator : isCombinator c = true) : Text.isBlank c = false := by
  simp only [isCombinator, Bool.or_eq_true, beq_iff_eq] at combinator
  rcases combinator with (rfl | rfl) | rfl <;> rfl

theorem squeezeFrom_combinator (combinator : isCombinator c = true) (b : Bool) (rest : Text) :
    squeezeFrom b (c :: rest) = c :: squeezeFrom true rest := by
  rw [squeezeFrom, if_pos combinator]

/-- A character that is neither a blank nor a combinator. -/
structure IsWord (c : Char) : Prop where
  noBlank : Text.isBlank c = false
  noCombinator : isCombinator c = false

theorem squeezeFrom_word (word : IsWord c) (b : Bool) (rest : Text) :
    squeezeFrom b (c :: rest) = c :: squeezeFrom false rest := by
  rw [squeezeFrom, if_neg (by simp [word.noCombinator]), if_pos (by simp [word.noBlank])]

theorem squeezeFrom_blank (blank : Text.isBlank c = true) (b : Bool) (rest : Text) :
    squeezeFrom b (c :: rest) = if b || meetsCombinator rest then squeezeFrom b rest else c :: squeezeFrom b rest := by
  have noCombinator : ¬isCombinator c = true := fun combinator => by simp [isBlank_of_isCombinator combinator] at blank
  rw [squeezeFrom, if_neg noCombinator, if_neg (by simp [blank])]
  cases b with
  | true => rfl
  | false => rfl

/-- A character is kept, or it is a blank on one side of a combinator. -/
theorem squeezeFrom_cases (b : Bool) (c : Char) (rest : Text) :
    (∃ b', squeezeFrom b (c :: rest) = c :: squeezeFrom b' rest) ∨
      Text.isBlank c = true ∧ (b || meetsCombinator rest) = true ∧
        squeezeFrom b (c :: rest) = squeezeFrom b rest := by
  by_cases combinator : isCombinator c = true
  · exact .inl ⟨true, squeezeFrom_combinator combinator b rest⟩
  by_cases blank : Text.isBlank c = true
  · rw [squeezeFrom_blank blank]
    split
    · next gone => exact .inr ⟨blank, gone, rfl⟩
    · exact .inl ⟨b, rfl⟩
  · exact .inl ⟨false, squeezeFrom_word ⟨Bool.eq_false_iff.mpr blank, Bool.eq_false_iff.mpr combinator⟩ b rest⟩

theorem meetsCombinator_append {word : Char} (isWord : IsWord word) (text rest : Text) :
    meetsCombinator (text ++ word :: rest) = meetsCombinator text := by
  unfold meetsCombinator
  induction text with
  | nil => simp [isWord.noBlank, isWord.noCombinator]
  | cons c text ih =>
    rw [List.cons_append, List.dropWhile_cons, List.dropWhile_cons]
    split
    · exact ih
    · rfl

/-- What stands before and behind a word is squeezed for itself. -/
theorem squeezeFrom_append {word : Char} (isWord : IsWord word) (b : Bool) (text rest : Text) :
    squeezeFrom b (text ++ word :: rest) = squeezeFrom b text ++ word :: squeezeFrom false rest := by
  induction text generalizing b with
  | nil => rw [List.nil_append, squeezeFrom_word isWord, squeezeFrom, List.nil_append]
  | cons c text ih =>
    rw [List.cons_append]
    by_cases combinator : isCombinator c = true
    · rw [squeezeFrom_combinator combinator, squeezeFrom_combinator combinator, ih, List.cons_append]
    by_cases blank : Text.isBlank c = true
    · rw [squeezeFrom_blank blank, squeezeFrom_blank blank, meetsCombinator_append isWord, ih]
      split
      · rfl
      · rfl
    · have visible : IsWord c := ⟨Bool.eq_false_iff.mpr blank, Bool.eq_false_iff.mpr combinator⟩
      rw [squeezeFrom_word visible, squeezeFrom_word visible, ih, List.cons_append]

/-- Where a combinator comes next it is what is left at the front. -/
theorem exists_combinator (meets : meetsCombinator rest = true) (b : Bool) :
    ∃ k tail, isCombinator k = true ∧ squeezeFrom b rest = k :: tail := by
  induction rest with
  | nil => cases meets
  | cons c rest ih =>
    by_cases combinator : isCombinator c = true
    · exact ⟨c, _, combinator, squeezeFrom_combinator combinator b rest⟩
    · unfold meetsCombinator at meets
      rw [List.dropWhile_cons] at meets
      split at meets
      · next blank =>
        have gone : (b || meetsCombinator rest) = true := by simp [meetsCombinator, meets]
        rw [squeezeFrom_blank blank, if_pos gone]
        exact ih meets
      · exact absurd meets combinator

theorem respaced_squeezeFrom (b : Bool) (text : Text) : Text.Respaced text (squeezeFrom b text) := by
  induction text generalizing b with
  | nil =>
    rw [squeezeFrom]
    exact .nil
  | cons c text ih =>
    rcases squeezeFrom_cases b c text with ⟨b', kept⟩ | ⟨blank, -, gone⟩
    · rw [kept]
      exact .keep c (ih b')
    · rw [gone]
      exact .drop blank (ih b)

theorem isWord_of_isQuote (isQuote : Text.isQuote c = true) : IsWord c := by
  simp only [Text.isQuote, Bool.or_eq_true, beq_iff_eq] at isQuote
  rcases isQuote with rfl | rfl <;> exact ⟨rfl, rfl⟩

theorem isWord_backslash : IsWord '\\' := ⟨rfl, rfl⟩

def behindString (quote : Char) (text : Text) : Option Text := (Scan.cutString quote text).map Prod.snd

variable {quote : Char}

theorem behindString_cons (plain : c ≠ '\\') (text : Text) :
    behindString quote (c :: text) = if c = quote then some text else behindString quote text := by
  unfold behindString
  rw [Scan.cutString_cons plain]
  split
  · rfl
  · rw [Option.map_map]
    rfl

theorem behindString_escape (c : Char) (text : Text) :
    behindString quote ('\\' :: c :: text) = behindString quote text := by
  unfold behindString
  rw [Scan.cutString, Option.map_map]
  rfl

/-- A combinator neither ends a string nor escapes its end, so it may be escaped itself. -/
theorem behindString_combinator (isQuote : Text.isQuote quote = true) (combinator : isCombinator c = true)
    (text : Text) : behindString quote ('\\' :: c :: text) = behindString quote (c :: text) := by
  have other : c ≠ quote := by
    rintro rfl
    simp [(isWord_of_isQuote isQuote).noCombinator] at combinator
  have plain : c ≠ '\\' := by
    rintro rfl
    cases combinator
  rw [behindString_escape, behindString_cons plain, if_neg other]

/-- A string ends at the same quote when the text is squeezed. -/
theorem behindString_squeezeFrom (isQuote : Text.isQuote quote = true) (b : Bool) (text : Text) :
    behindString quote (squeezeFrom b text) = (behindString quote text).map (squeezeFrom false) := by
  fun_induction Scan.cutString quote text generalizing b with
  | case1 => rfl
  | case2 => rfl
  | case3 c text ih =>
    rw [squeezeFrom_word isWord_backslash, behindString_escape]
    rcases squeezeFrom_cases false c text with ⟨b', kept⟩ | ⟨-, meets, gone⟩
    · rw [kept, behindString_escape, ih]
    · -- The blank behind the backslash goes, and the combinator that follows takes its place.
      obtain ⟨k, tail, combinator, next⟩ := exists_combinator meets false
      rw [gone, next, behindString_combinator isQuote combinator, ← next, ih]
  | case4 text last escaped =>
    have plain := Scan.ne_backslash last escaped
    rw [squeezeFrom_word (isWord_of_isQuote isQuote), behindString_cons plain, behindString_cons plain, if_pos rfl,
      if_pos rfl, Option.map_some]
  | case5 c text last escaped other ih =>
    have plain := Scan.ne_backslash last escaped
    rw [behindString_cons plain, if_neg other]
    rcases squeezeFrom_cases b c text with ⟨b', kept⟩ | ⟨-, -, gone⟩
    · rw [kept, behindString_cons plain, if_neg other, ih]
    · rw [gone, ih]

theorem cutString_squeezeFrom {content after : Text} (isQuote : Text.isQuote quote = true)
    (cut : Scan.cutString quote (content ++ quote :: after) = some (content ++ [quote], after)) :
    Scan.cutString quote (squeezeFrom false content ++ quote :: squeezeFrom false after) =
      some (squeezeFrom false content ++ [quote], squeezeFrom false after) := by
  have ends := behindString_squeezeFrom isQuote false (content ++ quote :: after)
  have behind : behindString quote (content ++ quote :: after) = some after := by rw [behindString, cut, Option.map_some]
  rw [squeezeFrom_append (isWord_of_isQuote isQuote), behind, Option.map_some] at ends
  obtain ⟨⟨inner, _⟩, found, rfl⟩ := Option.map_eq_some_iff.mp ends
  have whole : inner ++ squeezeFrom false after = (squeezeFrom false content ++ [quote]) ++ squeezeFrom false after := by
    rw [Scan.cutString_eq found, List.append_assoc, List.singleton_append]
  rw [found, List.append_cancel_right whole]

theorem cutString_squeezeFrom_none (isQuote : Text.isQuote quote = true) (unpaired : Scan.cutString quote text = none)
    (b : Bool) : Scan.cutString quote (squeezeFrom b text) = none := by
  have ends := behindString_squeezeFrom isQuote b text
  rwa [behindString, behindString, unpaired, Option.map_none, Option.map_none, Option.map_eq_none_iff] at ends

def squeezePiece : Text.Piece → Text.Piece
  | .plain c => .plain c
  | .quoted quote content => .quoted quote (squeeze content)

/-- Outside the strings nothing but blanks is left out, and the strings are squeezed. -/
theorem dropsGaps_squeezeFrom (b : Bool) (text : Text) :
    Text.DropsGaps ((Text.pieces text).map squeezePiece) (Text.pieces (squeezeFrom b text)) := by
  induction text using Text.pieces_induction generalizing b with
  | nil =>
    rw [squeezeFrom, Text.pieces]
    exact .nil
  | quoted quote content after isQuote cut ih =>
    have isWord := isWord_of_isQuote isQuote
    rw [squeezeFrom_word isWord, squeezeFrom_append isWord,
      Text.pieces_quoted isQuote (cutString_squeezeFrom isQuote cut), Text.pieces_quoted isQuote cut]
    exact .keep _ (ih false)
  | plain c text unpaired ih =>
    rw [Text.pieces_plain unpaired]
    rcases squeezeFrom_cases b c text with ⟨b', kept⟩ | ⟨blank, -, gone⟩
    · rw [kept, Text.pieces_plain fun isQuote => cutString_squeezeFrom_none isQuote (unpaired isQuote) b']
      exact .keep _ (ih b')
    · rw [gone]
      exact .drop blank (ih b)

theorem contents_squeezePiece (pieces : List Text.Piece) :
    (pieces.map squeezePiece).filterMap Text.Piece.content? =
      (pieces.filterMap Text.Piece.content?).map squeeze := by
  rw [List.filterMap_map, List.map_filterMap]
  congr 1
  funext piece
  cases piece <;> rfl

theorem strings_squeeze (text : Text) : Text.strings (squeeze text) = (Text.strings text).map squeeze := by
  rw [Text.strings, squeeze, (dropsGaps_squeezeFrom false text).contents, contents_squeezePiece, Text.strings]

def IsTight (text : Text) : Prop :=
  text.IsChain fun c d => ¬(Text.isBlank c = true ∧ isCombinator d = true) ∧
    ¬(isCombinator c = true ∧ Text.isBlank d = true)

instance (text : Text) : Decidable (IsTight text) := inferInstanceAs (Decidable (text.IsChain _))

theorem isCombinator_head (meets : meetsCombinator rest = false) : ∀ d ∈ rest.head?, isCombinator d = false := by
  cases rest with
  | nil => simp
  | cons d rest =>
    rintro _ ⟨⟩
    by_contra combinator
    rw [Bool.not_eq_false] at combinator
    simp [meetsCombinator, isBlank_of_isCombinator combinator, combinator] at meets

theorem not_isTight_of_meetsCombinator (blank : Text.isBlank c = true) (meets : meetsCombinator rest = true) :
    ¬IsTight (c :: rest) := by
  induction rest generalizing c with
  | nil => cases meets
  | cons d rest ih =>
    intro tight
    obtain ⟨apart, tight⟩ := List.isChain_cons_cons.mp tight
    unfold meetsCombinator at meets
    rw [List.dropWhile_cons] at meets
    split at meets
    · next again => exact ih again meets tight
    · exact apart.1 ⟨blank, meets⟩

/-- Squeezing leaves a text as it is exactly if no blank in it touches a combinator, and
none stands at its front behind one. -/
theorem squeezeFrom_eq_self_iff (b : Bool) (text : Text) : squeezeFrom b text = text ↔
    IsTight text ∧ (b = true → ∀ c ∈ text.head?, Text.isBlank c = false) := by
  induction text generalizing b with
  | nil => simp [squeezeFrom, IsTight]
  | cons c rest ih =>
    have apart : IsTight (c :: rest) ↔ (∀ d ∈ rest.head?, ¬(Text.isBlank c = true ∧ isCombinator d = true) ∧
        ¬(isCombinator c = true ∧ Text.isBlank d = true)) ∧ IsTight rest := List.isChain_cons
    by_cases combinator : isCombinator c = true
    · have noBlank := isBlank_of_isCombinator combinator
      rw [squeezeFrom_combinator combinator, List.cons_inj_right, ih, apart]
      simp [combinator, noBlank, and_comm]
    by_cases blank : Text.isBlank c = true
    · rw [squeezeFrom_blank blank]
      split
      · next gone =>
        constructor
        · intro same
          have shorter := (respaced_squeezeFrom b rest).length_le
          rw [same, List.length_cons] at shorter
          omega
        · rintro ⟨tight, front⟩
          rcases Bool.or_eq_true_iff.mp gone with behind | meets
          · simp [front behind c rfl] at blank
          · exact absurd tight (not_isTight_of_meetsCombinator blank meets)
      · next kept =>
        obtain ⟨rfl, meets⟩ : b = false ∧ meetsCombinator rest = false := by simpa using kept
        have next := isCombinator_head meets
        rw [List.cons_inj_right, ih, apart]
        simp only [Bool.false_eq_true, false_implies, and_true]
        constructor
        · intro tight
          exact ⟨fun d first => by simp [next d first, combinator], tight⟩
        · exact And.right
    · have noBlank := Bool.eq_false_iff.mpr blank
      have noCombinator := Bool.eq_false_iff.mpr combinator
      rw [squeezeFrom_word ⟨noBlank, noCombinator⟩, List.cons_inj_right, ih, apart]
      simp [noBlank, noCombinator]

theorem squeeze_eq_self_iff (text : Text) : squeeze text = text ↔ IsTight text := by
  rw [squeeze, squeezeFrom_eq_self_iff]
  simp

theorem map_squeeze_eq_self_iff (texts : List Text) : texts.map squeeze = texts ↔ ∀ text ∈ texts, IsTight text := by
  induction texts with
  | nil => simp
  | cons text texts ih => rw [List.map_cons, List.cons.injEq, squeeze_eq_self_iff, ih, List.forall_mem_cons]

theorem map_squeezePiece_of_isTight {pieces : List Text.Piece}
    (tight : ∀ s ∈ pieces.filterMap Text.Piece.content?, IsTight s) : pieces.map squeezePiece = pieces := by
  induction pieces with
  | nil => rfl
  | cons piece pieces ih =>
    cases piece with
    | plain c => rw [List.map_cons, squeezePiece, ih tight]
    | quoted quote content =>
      obtain ⟨here, others⟩ : IsTight content ∧ ∀ s ∈ pieces.filterMap Text.Piece.content?, IsTight s :=
        List.forall_mem_cons.mp tight
      rw [List.map_cons, squeezePiece, (squeeze_eq_self_iff content).mpr here, ih others]

/-- The selectors of a rule in the compressed style: outside quoted strings nothing but
blanks is left out, and every string is squeezed as the selectors are. So the strings are
kept, and only blanks outside them are gone, exactly if in none of them a blank touches a
combinator. Where every quote has its partner these are the strings of the selectors one by
one. -/
theorem compressed_strings_iff (selectors : List Text) :
    Text.DropsGaps ((Text.pieces (List.intercalate [','] selectors)).map squeezePiece)
        (Text.pieces (Style.compressed.selectors selectors)) ∧
      (Text.strings (Style.compressed.selectors selectors) = Text.strings (List.intercalate [','] selectors) ↔
        ∀ s ∈ Text.strings (List.intercalate [','] selectors), IsTight s) ∧
      (Text.DropsGaps (Text.pieces (List.intercalate [','] selectors))
          (Text.pieces (Style.compressed.selectors selectors)) ↔
        ∀ s ∈ Text.strings (List.intercalate [','] selectors), IsTight s) ∧
      ((∀ s ∈ selectors, Text.IsClosed s) →
        Text.strings (List.intercalate [','] selectors) = selectors.flatMap Text.strings) := by
  have written : Style.compressed.selectors selectors = squeeze (List.intercalate [','] selectors) := if_pos rfl
  have drops := dropsGaps_squeezeFrom false (List.intercalate [','] selectors)
  have kept := map_squeeze_eq_self_iff (Text.strings (List.intercalate [','] selectors))
  rw [← strings_squeeze] at kept
  rw [written]
  refine ⟨drops, kept, ?_, Text.strings_intercalate⟩
  constructor
  · intro only
    exact kept.mp only.contents
  · intro tight
    rwa [map_squeezePiece_of_isTight tight] at drops

def titledSelectors : List Text := ["a > b[title=\"c d\"]".toList, "e ~ f".toList]

theorem compressed_strings_titled :
    (∀ s ∈ titledSelectors, Text.IsClosed s) ∧
      Style.compressed.selectors titledSelectors = "a>b[title=\"c d\"],e~f".toList ∧
      titledSelectors.flatMap Text.strings = ["c d".toList] ∧
      Text.strings (Style.compressed.selectors titledSelectors) = titledSelectors.flatMap Text.strings := by
  have closed : ∀ s ∈ titledSelectors, Text.IsClosed s := by decide +kernel
  have contents : titledSelectors.flatMap Text.strings = ["c d".toList] := by decide +kernel
  obtain ⟨-, kept, -, parts⟩ := compressed_strings_iff titledSelectors
  rw [parts closed, contents] at kept
  exact ⟨closed, by decide +kernel, contents, (kept.mpr (by decide +kernel)).trans contents.symm⟩

/-- A combinator in a string is taken for one of the selector. -/
theorem compressed_strings_squeezed :
    Text.strings "a[title=\"b > c\"]".toList = ["b > c".toList] ∧
      Text.strings (Style.compressed.selectors ["a[title=\"b > c\"]".toList]) = ["b>c".toList] := by
  decide +kernel

end Selector

end Stylesheet

import Stylesheet.Lexeme.Cursor
import Stylesheet.Proofs.Lexeme.Lexed
import Stylesheet.Proofs.Text.Hexadecimal
import Stylesheet.Proofs.Value.Sequence

/-! Literals: values that are one token as they are written, and that this token
stands for again where no variable is bound. A colour is written in lower case, which
is another spelling of the same colour. -/
namespace Stylesheet

def Scope.Unbound (scope : Scope) : Prop := ∀ name, scope.value? name = none

/-- A name that is no variable and no colour, a string, a number as it was written, or
a colour of three or six digits. -/
def Value.IsLiteral : Value → Prop
  | .text raw =>
    (Token.ident raw).IsWhole ∧ isVariableName raw = false ∧ Evaluate.isHexColor raw = false ∨
      (Token.string raw).IsWhole
  | .number q => q.computed = false ∧ ∃ n, q.raw = some n.raw ∧ (Token.number n).IsWhole
  | .color c => ∃ digits offset, digits.all Text.isHexDigit = true ∧ (digits.length = 3 ∨ digits.length = 6) ∧
      Color.ofHex ('#' :: digits) offset = .ok c
  | .list _ => False

/-- The value is written as the token, which stands for a value that is written the
same way. -/
structure Value.SpelledBy (v : Value) (token : Token) : Prop where
  whole : token.IsWhole
  word : token.isWord = true
  css : ∀ precision, v.css precision false = .ok token.raw
  stands : ∀ scope offset, scope.Unbound → ∃ v', Evaluate.Stands scope ⟨token, offset⟩ (.value v') ∧
    ∀ precision, v'.css precision false = .ok token.raw

namespace Color

open Text

theorem isWhole_hash {digits : Text} (all : digits.all isHexDigit = true) :
    (Token.ident ('#' :: digits)).IsWhole := by
  have name : digits.all Scan.isIdentChar = true := by
    rw [List.all_eq_true] at all ⊢
    exact fun c member => forall_hexDigit (by decide +kernel) (all c member)
  have reads : Scan.Reads '#' digits (.ident ('#' :: digits)) :=
    Scan.reads_ident rfl (by decide) (.inl (by rw [List.all_cons, name]; rfl)) rfl
  exact reads.isWhole rfl fun line => absurd line.1 (by decide)

theorem toLower_hexDigit {c : Char} (digit : isHexDigit c = true) :
    isHexDigit c.toLower = true ∧ c.toLower.toLower = c.toLower := by
  simpa using forall_hexDigit (P := fun c => isHexDigit c.toLower && c.toLower.toLower == c.toLower)
    (by decide +kernel) digit

theorem hexChannel_two {i j : Nat} (high : i < 16) (low : j < 16) :
    hexChannel 2 ((i * 16 + j : Nat) : Int) = [Nat.digitChar i, Nat.digitChar j] := by
  rw [hexChannel, if_neg (by omega), Int.natAbs_natCast, hexadecimal_digits i high j low]

/-- A colour of three digits is written as it is spelled. -/
theorem plain_three {r g b : Char} (all : [r, g, b].all isHexDigit = true) {offset : Option Int} {c : Color}
    (read : ofHex ('#' :: [r, g, b]) offset = .ok c) : c.computed = false ∧ c.plain = '#' :: [r, g, b] := by
  rw [ofHex_three all] at read
  obtain rfl := Except.ok.inj read
  have twice : ∀ d ∈ [r, g, b], (hexChannel 2 (hexValue d * 17)).length = 2 := by
    intro d member
    have small := hexValue_lt (List.all_eq_true.mp all d member)
    have same : (hexValue d * 17 : Int) = ((hexValue d * 16 + hexValue d : Nat) : Int) := by omega
    rw [same, hexChannel_two small small]
    rfl
  refine ⟨rfl, ?_⟩
  simp [plain, hex, hexOf, twice]

/-- A colour of six digits is written in lower case. -/
theorem plain_six {r r' g g' b b' : Char} (all : [r, r', g, g', b, b'].all isHexDigit = true)
    {offset : Option Int} {c : Color} (read : ofHex ('#' :: [r, r', g, g', b, b']) offset = .ok c) :
    c.computed = false ∧ c.plain = '#' :: [r, r', g, g', b, b'].map Char.toLower := by
  rw [ofHex_six all] at read
  obtain rfl := Except.ok.inj read
  simp only [List.all_cons, List.all_nil, Bool.and_true, Bool.and_eq_true] at all
  obtain ⟨dr, dr', dg, dg', db, db'⟩ := all
  have pair : ∀ {d d' : Char}, isHexDigit d = true → isHexDigit d' = true →
      hexChannel 2 ((hexValue d * 16 + hexValue d' : Nat) : Int) = [d.toLower, d'.toLower] := by
    intro d d' first second
    rw [hexChannel_two (hexValue_lt first) (hexValue_lt second), digitChar_hexValue first,
      digitChar_hexValue second]
  refine ⟨rfl, ?_⟩
  simp only [plain, hex, hexOf, List.flatMap_cons, List.flatMap_nil, pair dr dr', pair dg dg', pair db db']
  rfl

/-- What a colour is written as is a spelling of it that is written unchanged. -/
theorem plain_of_ofHex {digits : Text} (all : digits.all isHexDigit = true)
    (length : digits.length = 3 ∨ digits.length = 6) {offset : Option Int} {c : Color}
    (read : ofHex ('#' :: digits) offset = .ok c) :
    ∃ own, own.all isHexDigit = true ∧ own ≠ [] ∧ c.plain = '#' :: own ∧
      ∀ offset, ∃ c', ofHex ('#' :: own) offset = .ok c' ∧ c'.computed = false ∧ c'.plain = '#' :: own := by
  rcases length with three | six
  · obtain ⟨r, g, b, rfl⟩ := List.length_eq_three.mp three
    refine ⟨[r, g, b], all, List.cons_ne_nil _ _, (plain_three all read).2, fun offset => ?_⟩
    exact ⟨_, ofHex_three all offset, plain_three all (ofHex_three all offset)⟩
  · match digits, six with
    | [r, r', g, g', b, b'], _ =>
      have lower : ([r, r', g, g', b, b'].map Char.toLower).all isHexDigit = true := by
        rw [List.all_map, List.all_eq_true]
        exact fun d member => (toLower_hexDigit (List.all_eq_true.mp all d member)).1
      refine ⟨[r, r', g, g', b, b'].map Char.toLower, lower, List.cons_ne_nil _ _, (plain_six all read).2, ?_⟩
      intro offset
      have again := plain_six lower (ofHex_six lower offset)
      have settled : ([r, r', g, g', b, b'].map Char.toLower).map Char.toLower =
          [r, r', g, g', b, b'].map Char.toLower := by
        rw [List.map_map]
        exact List.map_congr_left fun d member => (toLower_hexDigit (List.all_eq_true.mp all d member)).2
      exact ⟨_, ofHex_six lower offset, again.1, again.2.trans (congrArg ('#' :: ·) settled)⟩

end Color

namespace Evaluate

/-- Where no variable is bound, a name stands for itself unless it spells a colour. -/
theorem identValue_of_unbound {scope : Scope} (unbound : scope.Unbound) {raw : Text}
    (noColor : isHexColor raw = false) (offset : Option Int) : identValue scope raw offset = .ok (.text raw) := by
  unfold identValue
  split
  · rw [unbound]
    rfl
  · split
    · rw [unbound]
    · rw [noColor]
      rfl

theorem identValue_hash (scope : Scope) {digits : Text} (all : digits.all Text.isHexDigit = true)
    (nonempty : digits ≠ []) (offset : Option Int) :
    identValue scope ('#' :: digits) offset = (Color.ofHex ('#' :: digits) offset).map .color := by
  have hex : isHexColor ('#' :: digits) = true := by simp [Color.isHexColor_cons, all, nonempty]
  change (if isHexColor ('#' :: digits) then _ else _) = _
  rw [if_pos hex]
  rfl

end Evaluate

/-- Every literal is one token. -/
theorem Value.IsLiteral.spelledBy {v : Value} (literal : v.IsLiteral) : ∃ token, v.SpelledBy token := by
  cases v with
  | text raw =>
    rcases literal with ⟨whole, -, noColor⟩ | whole
    · refine ⟨.ident raw, whole, rfl, fun _ => by rw [Value.css]; rfl, fun scope offset unbound => ?_⟩
      refine ⟨.text raw, ⟨by simp, rfl, ?_, rfl, rfl⟩, fun _ => by rw [Value.css]; rfl⟩
      exact Evaluate.identValue_of_unbound unbound noColor offset
    · refine ⟨.string raw, whole, rfl, fun _ => by rw [Value.css]; rfl, fun scope offset _ => ?_⟩
      exact ⟨.text raw, ⟨by simp, rfl, rfl, rfl, rfl⟩, fun _ => by rw [Value.css]; rfl⟩
  | number q =>
    obtain ⟨written, n, raw, whole⟩ := literal
    refine ⟨.number n, whole, rfl, fun _ => ?_, fun scope offset _ => ?_⟩
    · rw [Value.css, Quantity.css, written, raw]
      rfl
    · have computed := whole.computed_eq
      refine ⟨.number ⟨n.value, n.unit, n.computed, some n.raw, false⟩, ⟨by simp, rfl, rfl, rfl, computed⟩, ?_⟩
      intro precision
      rw [Value.css, Quantity.css, computed]
      rfl
  | color c =>
    obtain ⟨digits, offset, all, length, read⟩ := literal
    obtain ⟨own, hex, nonempty, plain, again⟩ := Color.plain_of_ofHex all length read
    refine ⟨.ident ('#' :: own), Color.isWhole_hash hex, rfl, fun _ => by rw [Value.css, plain]; rfl, ?_⟩
    intro scope offset _
    obtain ⟨c', read', computed, plain'⟩ := again offset
    refine ⟨.color c', ⟨by simp, rfl, ?_, rfl, computed⟩, fun _ => by rw [Value.css, plain']; rfl⟩
    have value := Evaluate.identValue_hash scope hex nonempty offset
    rw [read'] at value
    exact value
  | list items => exact literal.elim

theorem Value.SpelledBy.raw_ne_nil {v : Value} {token : Token} (spelled : v.SpelledBy token) : token.raw ≠ [] := by
  obtain ⟨c, tail, reads⟩ := spelled.whole.reads
  rw [reads.1]
  exact List.cons_ne_nil _ _

/-- Behind what is already written, the items are written as the text. -/
def Item.Spells (items : List Item) (text : Text) : Prop :=
  ∀ precision out afterSlash,
    Item.cssFrom precision false out afterSlash items = .ok (out ++ Item.gap out afterSlash ++ text)

namespace Item.Spells

variable {items : List Item} {text raw : Text} {v : Value}

theorem last (css : ∀ precision, v.css precision false = .ok raw) : Item.Spells [.value v] raw := by
  intro precision out afterSlash
  rw [Item.cssFrom, css]
  simp [bind, Except.bind, Item.cssFrom]

theorem beside (css : ∀ precision, v.css precision false = .ok raw) (nonempty : raw ≠ [])
    (spells : Item.Spells items text) : Item.Spells (.value v :: items) (raw ++ ' ' :: text) := by
  intro precision out afterSlash
  rw [Item.cssFrom, css]
  change Item.cssFrom precision false (out ++ Item.gap out afterSlash ++ raw) false items = _
  rw [spells]
  simp [Item.gap, nonempty]

theorem separated (css : ∀ precision, v.css precision false = .ok raw) (op : Operator)
    (spells : Item.Spells items text) :
    Item.Spells (.value v :: .separator op :: items)
      (raw ++ op.char :: ((if op = .slash then [] else [' ']) ++ text)) := by
  intro precision out afterSlash
  rw [Item.cssFrom, css]
  change Item.cssFrom precision false (out ++ Item.gap out afterSlash ++ raw) false (.separator op :: items) = _
  rw [Item.cssFrom, spells]
  by_cases slash : op = .slash <;> simp [Item.gap, slash]

end Item.Spells

/-- The items are written as the text, which before a semicolon is read as lexemes
that stand for items written the same way. -/
structure Item.ReadBack (items : List Item) (text : Text) : Prop where
  spells : Item.Spells items text
  head : text.head? ≠ some '/' ∧ text.head? ≠ some '*'
  lexed : ∀ index rest, ∃ e, Lexed index text (';' :: rest) e ∧
    ∀ scope, scope.Unbound → ∃ items', Item.Sequence items' ∧ List.Forall₂ (Evaluate.Stands scope) e items' ∧
      Item.Spells items' text

namespace Item.ReadBack

variable {items : List Item} {text : Text} {v : Value} {token : Token}

theorem last (spelled : v.SpelledBy token) : Item.ReadBack [.value v] token.raw := by
  refine ⟨.last spelled.css, spelled.whole.head_of_isWord spelled.word, fun index rest => ?_⟩
  have ends := Token.endsBefore_of_isWord spelled.word (c := ';') rfl (by decide)
  refine ⟨_, spelled.whole.lexed index _ ends, fun scope unbound => ?_⟩
  obtain ⟨v', stands, css⟩ := spelled.stands scope (some index) unbound
  exact ⟨_, .last v', .cons stands .nil, .last css⟩

theorem beside (spelled : v.SpelledBy token) (back : Item.ReadBack items text) :
    Item.ReadBack (.value v :: items) (token.raw ++ ' ' :: text) := by
  have head : (token.raw ++ ' ' :: text).head? = token.raw.head? :=
    List.head?_append_of_ne_nil _ spelled.raw_ne_nil
  refine ⟨back.spells.beside spelled.css spelled.raw_ne_nil, ?_, fun index rest => ?_⟩
  · rw [head]
    exact spelled.whole.head_of_isWord spelled.word
  · have ends := Token.endsBefore_of_isWord spelled.word (c := ' ') rfl (by decide)
    obtain ⟨e, lexed, again⟩ := back.lexed (index + token.raw.length + 1) rest
    have gap := lexed_space (c := ' ') rfl (index + token.raw.length) (text ++ ';' :: rest)
    have first := spelled.whole.lexed index (' ' :: text ++ ';' :: rest) ends
    refine ⟨_, first.append (gap.append lexed), fun scope unbound => ?_⟩
    obtain ⟨v', stands, css⟩ := spelled.stands scope (some index) unbound
    obtain ⟨items', sequence, others, spells⟩ := again scope unbound
    exact ⟨_, .beside v' sequence, .cons stands others, spells.beside css spelled.raw_ne_nil⟩

theorem separated (spelled : v.SpelledBy token) {op : Operator} (separator : op = .slash ∨ op = .comma)
    (back : Item.ReadBack items text) : Item.ReadBack (.value v :: .separator op :: items)
      (token.raw ++ op.char :: ((if op = .slash then [] else [' ']) ++ text)) := by
  have head (more : Text) : (token.raw ++ more).head? = token.raw.head? :=
    List.head?_append_of_ne_nil _ spelled.raw_ne_nil
  refine ⟨back.spells.separated spelled.css op, ?_, fun index rest => ?_⟩
  · rw [head]
    exact spelled.whole.head_of_isWord spelled.word
  · -- The separator ends the word, and neither a second slash nor a star follows a slash.
    have stop : Scan.isIdentChar op.char = false ∧ op.char ≠ '(' ∧ op.char ≠ '%' := by
      rcases separator with rfl | rfl <;> decide
    have ends := Token.endsBefore_of_isWord spelled.word stop.1 stop.2
    obtain ⟨gap, gap_eq⟩ : ∃ gap : Text, gap = if op = .slash then [] else [' '] := ⟨_, rfl⟩
    have closed : (Token.operator op).endsBefore (gap ++ text ++ ';' :: rest).head? = true := by
      rcases separator with rfl | rfl
      · obtain ⟨slash, star⟩ := back.head
        cases text <;> simp_all [Token.endsBefore]
      · rfl
    have spaces : gap.all Scan.isSpace = true := by
      rcases separator with rfl | rfl <;> rw [gap_eq] <;> rfl
    rw [← gap_eq]
    obtain ⟨e, lexed, again⟩ := back.lexed (index + token.raw.length + 1 + gap.length) rest
    have first := spelled.whole.lexed index (op.char :: (gap ++ text ++ ';' :: rest)) ends
    have second := (Token.isWhole_operator op).lexed (index + token.raw.length) (gap ++ text ++ ';' :: rest) closed
    have third := lexed_spaces spaces (index + token.raw.length + 1) (text ++ ';' :: rest)
    refine ⟨_, first.append (second.append (third.append lexed)), fun scope unbound => ?_⟩
    obtain ⟨v', stands, css⟩ := spelled.stands scope (some index) unbound
    obtain ⟨items', sequence, others, spells⟩ := again scope unbound
    have spells' := spells.separated css op
    rw [← gap_eq] at spells'
    exact ⟨_, .separated v' separator sequence, .cons stands (.cons ⟨rfl, separator⟩ others), spells'⟩

end Item.ReadBack

theorem Item.Sequence.readBack {items : List Item} (sequence : Item.Sequence items)
    (literals : ∀ v, .value v ∈ items → v.IsLiteral) : ∃ text, Item.ReadBack items text := by
  induction sequence with
  | last v =>
    obtain ⟨token, spelled⟩ := (literals v List.mem_cons_self).spelledBy
    exact ⟨_, .last spelled⟩
  | beside v sequence ih =>
    obtain ⟨token, spelled⟩ := (literals v List.mem_cons_self).spelledBy
    obtain ⟨text, back⟩ := ih fun w member => literals w (List.mem_cons_of_mem _ member)
    exact ⟨_, .beside spelled back⟩
  | separated v separator sequence ih =>
    obtain ⟨token, spelled⟩ := (literals v List.mem_cons_self).spelledBy
    obtain ⟨text, back⟩ := ih fun w member =>
      literals w (List.mem_cons_of_mem _ (List.mem_cons_of_mem _ member))
    exact ⟨_, .separated spelled separator back⟩

/-- A literal, or a list of literals with at most one slash or comma between two. -/
def Value.IsPlain (v : Value) : Prop :=
  Item.Sequence (Item.value v).spread ∧ ∀ w, .value w ∈ (Item.value v).spread → w.IsLiteral

theorem Scope.unbound_empty (precision : Int) : (Scope.empty precision).Unbound := fun _ => rfl

/-- A lexeme that neither opens, closes nor ends anything. -/
def Lexeme.Inert (l : Lexeme) : Prop :=
  l.isComment = false ∧ l.boundary? = none ∧ ∀ depth, l.depthAfter depth = depth

theorem Lexeme.inert_separator {l : Lexeme} {op : Operator} (isOp : l.token = .operator op)
    (separator : op = .slash ∨ op = .comma ∨ op = .colon) : l.Inert := by
  rcases separator with rfl | rfl | rfl <;>
    simp [Inert, isComment, Token.isComment, boundary?, depthAfter, Lexeme.isOp, isOp]

theorem Lexeme.inert_operand {l : Lexeme} (operand : ∀ op, l.token ≠ .operator op) (comment : l.isComment = false) :
    l.Inert := by
  refine ⟨comment, ?_, ?_⟩
  · unfold boundary?
    split
    · next op token => exact absurd token (operand op)
    · rfl
  · simp [depthAfter, isOp, operand]

theorem Evaluate.Stands.inert {scope : Scope} {l : Lexeme} {item : Item} (stands : Stands scope l item) :
    l.Inert := by
  cases item with
  | separator op => exact Lexeme.inert_separator stands.1 (stands.2.imp_right .inl)
  | value v => exact Lexeme.inert_operand stands.1 stands.2.1

/-- The css of a plain value, before a semicolon, is read as lexemes that evaluate to
a value with the same css. -/
theorem Value.IsPlain.readBack {v : Value} (plain : v.IsPlain) :
    ∃ text, (∀ precision, v.css precision false = .ok text) ∧
      ∀ index rest, ∃ e, Lexed index text (';' :: rest) e ∧ e ≠ [] ∧ (∀ l ∈ e, l.Inert) ∧
        ∀ scope, scope.Unbound → ∃ v', (evaluate scope e).result = .ok v' ∧
          ∀ precision, v'.css precision false = .ok text := by
  obtain ⟨sequence, literals⟩ := plain
  obtain ⟨text, back⟩ := sequence.readBack literals
  refine ⟨text, fun precision => by rw [v.css_eq_spread, back.spells]; rfl, fun index rest => ?_⟩
  obtain ⟨e, lexed, again⟩ := back.lexed index rest
  obtain ⟨items, sequence, stands, -⟩ := again _ (Scope.unbound_empty 0)
  refine ⟨e, lexed, ?_, ?_, fun scope unbound => ?_⟩
  · rintro rfl
    exact sequence.ne_nil (List.forall₂_nil_left_iff.mp stands)
  · exact Evaluate.forall_of_stands (fun _ _ => Evaluate.Stands.inert) stands
  · obtain ⟨items', sequence', stands', spells⟩ := again scope unbound
    obtain ⟨v', evaluated, css⟩ := evaluate_sequence sequence' stands'
    exact ⟨v', evaluated, fun precision => by rw [css, spells]; rfl⟩

end Stylesheet

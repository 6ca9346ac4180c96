import Stylesheet.Lexeme.Scan

/-! One token and the text behind it. A reading loses nothing, it stops only where
the next character cannot continue the token, and it gives the same token before
any other text that cannot continue it. These three facts are all that later proofs
use about the single scanners. -/
namespace Stylesheet

/-- Whether a token is complete before a character, or before the end of the text:
what stands there cannot continue it. An identifier with characters that no name
has is a whole `url(...)` and always complete. -/
def Token.endsBefore : Token → Option Char → Bool
  | .ident raw, next =>
    !raw.all Scan.isIdentChar ||
      (!next.any Scan.isIdentChar && !(raw == ['u', 'r', 'l'] && next == some '('))
  | .number _, next => !next.any Scan.isUnitChar
  | .operator .minus, next => !next.any Scan.isIdentChar
  | .operator .slash, next => next != some '/' && next != some '*'
  | _, _ => true

theorem Token.endsBefore_none (token : Token) : token.endsBefore none = true := by
  cases token with
  | operator op => cases op <;> rfl
  | ident raw => simp [endsBefore]
  | _ => rfl

/-- A newline continues no token. -/
theorem Token.endsBefore_newline (token : Token) : token.endsBefore (some '\n') = true := by
  have name : Scan.isIdentChar '\n' = false := by decide
  cases token with
  | operator op => cases op <;> simp [endsBefore, name]
  | ident raw => simp [endsBefore, name]
  | number numeral => exact (by decide : (!Scan.isUnitChar '\n') = true)
  | _ => rfl

namespace Scan

theorem takeWhile_stop {p : Char → Bool} {word rest : Text} (inside : word.all p = true)
    (stop : rest.head?.any p = false) : (word ++ rest).takeWhile p = word := by
  rw [List.takeWhile_append_of_pos (List.all_eq_true.mp inside)]
  cases rest with
  | nil => simp
  | cons c rest => simp_all

theorem dropWhile_stop {p : Char → Bool} {word rest : Text} (inside : word.all p = true)
    (stop : rest.head?.any p = false) : (word ++ rest).dropWhile p = rest := by
  rw [List.dropWhile_append_of_pos (List.all_eq_true.mp inside)]
  cases rest with
  | nil => rfl
  | cons c rest => simp_all

theorem head_dropWhile (p : Char → Bool) (text : Text) :
    (text.dropWhile p).head?.any p = false := by
  have stop := List.head?_dropWhile_not p text
  cases h : (text.dropWhile p).head? with
  | none => rfl
  | some c => simpa [h] using stop

theorem exists_op_of_isOperator {c : Char} (h : isOperator c = true) :
    ∃ op : Operator, op.char = c := by
  obtain ⟨op, found⟩ := Option.isSome_iff_exists.mp h
  exact ⟨op, Operator.char_of_ofChar? found⟩

theorem isUnitChar_of_isNumberChar {c : Char} (number : isNumberChar c = true) :
    isUnitChar c = true := by
  have notSpace : isSpace c = false := by
    apply Bool.eq_false_iff.mpr
    intro space
    simp only [isSpace, Bool.or_eq_true, beq_iff_eq] at space
    rcases space with ((((rfl | rfl) | rfl) | rfl) | rfl) | rfl <;> revert number <;> decide
  have notOperator : isOperator c = false := by
    apply Bool.eq_false_iff.mpr
    intro operator
    obtain ⟨op, rfl⟩ := exists_op_of_isOperator operator
    revert number
    cases op <;> decide
  simp [isUnitChar, notSpace, notOperator]

/-- What cannot continue a name cannot start a number either. -/
theorem isIdentChar_of_isNumberChar {c : Char} (number : isNumberChar c = true) :
    isIdentChar c = true := by
  have unit := isUnitChar_of_isNumberChar number
  simp only [isUnitChar, Bool.or_eq_true, beq_iff_eq] at unit
  rcases unit with rfl | name
  · revert number
    decide
  · simp_all [isIdentChar]

theorem startsNumber_head {text : Text} (h : startsNumber text = true) :
    text.head?.any isNumberChar = true := by
  unfold startsNumber at h
  split at h
  · simp [isNumberChar]
  · simp [isNumberChar, h]
  · simp at h

theorem startsNumber_eq_false {text : Text} (h : text.head?.any isIdentChar = false) :
    startsNumber text = false := by
  apply Bool.eq_false_iff.mpr
  intro number
  have head := startsNumber_head number
  cases text with
  | nil => simp at head
  | cons c rest =>
    have ident := isIdentChar_of_isNumberChar (by simpa using head)
    simp [ident] at h

/-- Whether a number starts is seen from the first two characters. -/
theorem startsNumber_append (after rest : Text) {word : Text} (nonempty : word ≠ [])
    (short : 2 ≤ word.length ∨ after.head?.any isNumberChar = false ∧ rest.head?.any isNumberChar = false) :
    startsNumber (word ++ after) = startsNumber (word ++ rest) := by
  match word, short with
  | [c], .inr ⟨stop, stop'⟩ =>
    by_cases dot : c = '.'
    · subst dot
      have noDigit : ∀ {text : Text}, text.head?.any isNumberChar = false →
          startsNumber ('.' :: text) = false := by
        intro text stop
        cases text with
        | nil => decide
        | cons d text => simp_all [startsNumber, isNumberChar]
      exact (noDigit stop).trans (noDigit stop').symm
    · cases after <;> cases rest <;> simp [startsNumber, dot]
  | c :: d :: word, _ =>
    by_cases dot : c = '.'
    · simp [startsNumber, dot]
    · simp [startsNumber, dot]

theorem cutComment_inner {text inner after : Text} (h : cutComment text = some (inner, after)) :
    inner ≠ [] := by
  rintro rfl
  fun_cases cutComment text with
  | case1 => simp [cutComment] at h
  | case2 => simp [cutComment] at h
  | case3 c text early =>
    rw [cutComment.eq_3 _ _ early] at h
    simp at h

theorem startsNumber_of_append {word : Text} (starts : startsNumber word = true) (rest : Text) :
    startsNumber (word ++ rest) = true := by
  match word with
  | [] => simp [startsNumber] at starts
  | [c] =>
    by_cases dot : c = '.'
    · subst dot
      exact absurd starts (by decide)
    · cases rest <;> simpa [startsNumber, dot] using starts
  | c :: d :: word =>
    rw [← starts, startsNumber_append rest [] (by simp) (.inl (by simp)), List.append_nil]

/-- Where a comment was cut it is cut before any text. -/
theorem cutComment_append {text inner after : Text} (h : cutComment text = some (inner, after))
    (rest : Text) : cutComment (inner ++ rest) = some (inner, rest) := by
  fun_induction cutComment text generalizing inner with
  | case1 => simp at h
  | case2 text =>
    obtain ⟨rfl, rfl⟩ := Prod.mk.inj (Option.some.inj h)
    rfl
  | case3 c text open_ ih =>
    obtain ⟨⟨tail, after'⟩, cut, same⟩ := Option.map_eq_some_iff.1 h
    obtain ⟨rfl, rfl⟩ := Prod.mk.inj same
    have early : ∀ r, c = '*' → tail ++ rest = '/' :: r → False := by
      intro r star slash
      cases tail with
      | nil => exact cutComment_inner cut rfl
      | cons d tail =>
        have first := (List.cons.inj slash).1
        subst first
        exact open_ (tail ++ after') star (cutComment_eq cut).symm
    rw [List.cons_append, cutComment.eq_3 _ _ early, ih cut]
    rfl

theorem cutString_cons {c : Char} (plain : c ≠ '\\') (quote : Char) (text : Text) :
    cutString quote (c :: text) =
      if c = quote then some ([c], text)
      else (cutString quote text).map fun (inner, after) => (c :: inner, after) := by
  rw [cutString.eq_4]
  · exact fun escape _ => plain escape
  · exact fun _ _ escape _ => plain escape

/-- A backslash at the front is the last character or escapes the next one. -/
theorem ne_backslash {c : Char} {text : Text} (last : c = '\\' → text = [] → False)
    (escaped : ∀ d rest, c = '\\' → text = d :: rest → False) : c ≠ '\\' := by
  intro backslash
  cases text with
  | nil => exact last backslash rfl
  | cons d rest => exact escaped d rest backslash rfl

/-- Where a string was cut it is cut before any text. -/
theorem cutString_append {quote : Char} {text inner after : Text}
    (h : cutString quote text = some (inner, after)) (rest : Text) :
    cutString quote (inner ++ rest) = some (inner, rest) := by
  fun_induction cutString quote text generalizing inner with
  | case1 => simp at h
  | case2 => simp at h
  | case3 c text ih =>
    obtain ⟨⟨tail, after'⟩, cut, same⟩ := Option.map_eq_some_iff.1 h
    obtain ⟨rfl, rfl⟩ := Prod.mk.inj same
    simp [cutString, ih cut]
  | case4 text last escaped =>
    obtain ⟨rfl, rfl⟩ := Prod.mk.inj (Option.some.inj h)
    simp [cutString_cons (ne_backslash last escaped)]
  | case5 c text last escaped other ih =>
    obtain ⟨⟨tail, after'⟩, cut, same⟩ := Option.map_eq_some_iff.1 h
    obtain ⟨rfl, rfl⟩ := Prod.mk.inj same
    simp [cutString_cons (ne_backslash last escaped), other, ih cut]

structure IsNumber (sign digits unit : Text) (token : Token) : Prop where
  digits_all : digits.all isNumberChar = true
  unit_all : unit.all isUnitChar = true
  unit_head : unit.head?.any isNumberChar = false
  token_eq : ∃ value, decimal? (sign ++ digits) = some value ∧
    token = .number ⟨value, if unit.isEmpty then none else some unit, false, sign ++ digits ++ unit⟩

theorem readNumber_inv {sign text after : Text} {token : Token}
    (h : readNumber sign text = (.ok token, after)) :
    ∃ digits unit, IsNumber sign digits unit token ∧ text = digits ++ (unit ++ after) ∧
      after.head?.any isUnitChar = false ∧ (unit ++ after).head?.any isNumberChar = false := by
  unfold readNumber at h
  dsimp only at h
  split at h
  · next value parsed =>
    obtain ⟨token_eq, rfl⟩ := Prod.mk.inj h
    refine ⟨text.takeWhile isNumberChar, (text.dropWhile isNumberChar).takeWhile isUnitChar,
      ⟨List.all_takeWhile, List.all_takeWhile, ?_, value, parsed, (Except.ok.inj token_eq).symm⟩, ?_,
      head_dropWhile _ _, ?_⟩
    · have stop := head_dropWhile isNumberChar text
      cases behind : text.dropWhile isNumberChar with
      | nil => simp
      | cons c rest =>
        rw [behind] at stop
        by_cases unit : isUnitChar c = true
        · simpa [unit] using stop
        · simp [unit]
    · rw [List.takeWhile_append_dropWhile, List.takeWhile_append_dropWhile]
    · rw [List.takeWhile_append_dropWhile]
      exact head_dropWhile _ _
  · simp at h

theorem readNumber_of {sign digits unit rest : Text} {token : Token}
    (number : IsNumber sign digits unit token) (stop : rest.head?.any isUnitChar = false) :
    readNumber sign (digits ++ (unit ++ rest)) = (.ok token, rest) := by
  have stop' : (unit ++ rest).head?.any isNumberChar = false := by
    cases unit with
    | cons c unit => simpa using number.unit_head
    | nil =>
      cases rest with
      | nil => rfl
      | cons c rest =>
        apply Bool.eq_false_iff.mpr
        intro digit
        simp [isUnitChar_of_isNumberChar (by simpa using digit)] at stop
  obtain ⟨value, parsed, rfl⟩ := number.token_eq
  simp [readNumber, takeWhile_stop number.digits_all stop', dropWhile_stop number.digits_all stop',
    takeWhile_stop number.unit_all stop, dropWhile_stop number.unit_all stop, parsed]

/-- The text of an identifier: characters of a name, or a whole `url(...)`. -/
def IsIdent (raw : Text) : Prop :=
  raw.all isIdentChar = true ∨
    ∃ inner, inner.all (· != ')') = true ∧ raw = ['u', 'r', 'l', '('] ++ inner ++ [')']

/-- The text behind `url` that is cut at its closing parenthesis. -/
theorem url_inv {rest after : Text} {close : Char} (paren : rest.head? = some '(')
    (cut : rest.dropWhile (· != ')') = close :: after) :
    ∃ inner, inner.all (· != ')') = true ∧ rest = '(' :: inner ++ ')' :: after ∧
      rest.takeWhile (· != ')') ++ [close] = '(' :: inner ++ [')'] := by
  have closes : close = ')' := by
    have stop := head_dropWhile (· != ')') rest
    simpa [cut] using stop
  subst closes
  obtain ⟨tail, rfl⟩ : ∃ tail, rest = '(' :: tail := by
    cases rest with
    | nil => simp at paren
    | cons c tail => exact ⟨tail, by rw [Option.some.inj paren]⟩
  have cut' : tail.dropWhile (· != ')') = ')' :: after := by simpa using cut
  refine ⟨tail.takeWhile (· != ')'), List.all_takeWhile, ?_, by simp⟩
  rw [List.cons_append, ← cut', List.takeWhile_append_dropWhile]

theorem readIdent_inv {text after : Text} {token : Token} (h : readIdent text = (.ok token, after)) :
    ∃ raw, token = .ident raw ∧ IsIdent raw ∧ text = raw ++ after ∧
      token.endsBefore after.head? = true := by
  have whole := (List.takeWhile_append_dropWhile (p := isIdentChar) (l := text)).symm
  unfold readIdent at h
  dsimp only at h
  split at h
  · next url =>
    split at h
    · simp at h
    · next close behind cut =>
      obtain ⟨token_eq, rfl⟩ := Prod.mk.inj h
      obtain ⟨inner, inside, group, spelled⟩ := url_inv url.2 cut
      have token_eq : token = .ident (['u', 'r', 'l', '('] ++ inner ++ [')']) := by
        rw [← Except.ok.inj token_eq, url.1, List.append_assoc, spelled]
        rfl
      refine ⟨_, token_eq, .inr ⟨inner, inside, rfl⟩, ?_, ?_⟩
      · rw [whole, url.1, group]
        simp
      · simp [token_eq, Token.endsBefore, show isIdentChar '(' = false by decide]
  · next name =>
    obtain ⟨token_eq, rfl⟩ := Prod.mk.inj h
    refine ⟨_, (Except.ok.inj token_eq).symm, .inl List.all_takeWhile, whole, ?_⟩
    rw [← Except.ok.inj token_eq]
    have stop := head_dropWhile isIdentChar text
    simp only [Token.endsBefore, stop, Bool.not_false, Bool.true_and, Bool.or_eq_true,
      Bool.not_eq_true']
    right
    simpa using name

theorem readIdent_of {raw rest : Text} (ident : IsIdent raw)
    (stop : (Token.ident raw).endsBefore rest.head? = true) :
    readIdent (raw ++ rest) = (.ok (.ident raw), rest) := by
  rcases ident with name | ⟨inner, inside, rfl⟩
  · simp only [Token.endsBefore, name, Bool.not_true, Bool.false_or, Bool.and_eq_true,
      Bool.not_eq_true'] at stop
    obtain ⟨stop, notUrl⟩ := stop
    rw [readIdent, takeWhile_stop name stop, dropWhile_stop name stop]
    exact if_neg (by simpa using notUrl)
  · have split_url : ['u', 'r', 'l', '('] ++ inner ++ [')'] ++ rest =
        ['u', 'r', 'l'] ++ ('(' :: inner ++ ')' :: rest) := by simp
    have stop : ('(' :: inner ++ ')' :: rest).head?.any isIdentChar = false := by
      rw [List.cons_append, List.head?_cons]
      decide
    have group : ('(' :: inner).all (· != ')') = true := by simpa using inside
    have close : (')' :: rest).head?.any (· != ')') = false := by simp
    rw [readIdent, split_url, takeWhile_stop (by decide) stop, dropWhile_stop (by decide) stop,
      dropWhile_stop group close, takeWhile_stop group close]
    simp

/-- A number is read by the scanner of numbers only. -/
theorem exists_readNumber {c : Char} {rest after : Text} {n : Numeral}
    (h : read c rest = (.ok (.number n), after)) : ∃ sign text, readNumber sign text = (.ok (.number n), after) := by
  have notIdent {text : Text} : readIdent text ≠ (.ok (.number n), after) := by
    intro ident
    obtain ⟨_, same, -⟩ := readIdent_inv ident
    cases same
  unfold read at h
  split at h
  · unfold readComment at h
    split at h <;> cases h
  split at h
  · unfold readString at h
    split at h <;> cases h
  split at h
  · split at h
    · exact ⟨_, _, h⟩
    split at h
    · exact absurd h notIdent
    · cases h
  split at h
  · cases h
  split at h
  · exact ⟨_, _, h⟩
  · exact absurd h notIdent

/-- What is read from `c` on with `tail` behind it is `token`, before any text that
cannot continue it. -/
def Reads (c : Char) (tail : Text) (token : Token) : Prop :=
  token.raw = c :: tail ∧
    ∀ rest : Text, token.endsBefore rest.head? = true → read c (tail ++ rest) = (.ok token, rest)

theorem reads_comment {text inner after : Text} (cut : cutComment text = some (inner, after)) :
    Reads '/' ('*' :: inner) (.comment ('/' :: '*' :: inner)) := by
  refine ⟨rfl, fun rest _ => ?_⟩
  simp [read, readComment, cutComment_append cut]

theorem reads_string {c : Char} (quote : c = '"' ∨ c = '\'') {text inner after : Text}
    (cut : cutString c text = some (inner, after)) : Reads c inner (.string (c :: inner)) := by
  refine ⟨rfl, fun rest _ => ?_⟩
  have notSlash : c ≠ '/' := by rcases quote with rfl | rfl <;> decide
  simp [read, readString, cutString_append cut, notSlash, quote]

theorem reads_minus : Reads '-' [] (.operator .minus) := by
  refine ⟨rfl, fun rest stop => ?_⟩
  have stop : rest.head?.any isIdentChar = false := by simpa [Token.endsBefore] using stop
  simp [read, startsNumber_eq_false stop, stop]

theorem reads_operator {c : Char} {op : Operator} (minus : c ≠ '-') (found : Operator.ofChar? c = some op) :
    Reads c [] (.operator op) := by
  obtain rfl := Operator.char_of_ofChar? found
  refine ⟨rfl, fun rest stop => ?_⟩
  have notComment : ¬(op.char = '/' ∧ rest.head? = some '*') := by
    rintro ⟨slash, star⟩
    obtain rfl : op = .slash := Option.some.inj (found.symm.trans (slash ▸ rfl))
    simp [Token.endsBefore, star] at stop
  have notQuote : ¬(op.char = '"' ∨ op.char = '\'') := by cases op <;> decide
  simp only [read, notComment, notQuote, minus, if_false, found, List.nil_append]

theorem IsNumber.ends {sign digits unit : Text} {token : Token} (number : IsNumber sign digits unit token)
    (next : Option Char) : token.endsBefore next = !next.any isUnitChar := by
  obtain ⟨value, -, rfl⟩ := number.token_eq
  rfl

theorem IsNumber.raw_eq {sign digits unit : Text} {token : Token}
    (number : IsNumber sign digits unit token) : token.raw = sign ++ (digits ++ unit) := by
  obtain ⟨value, -, rfl⟩ := number.token_eq
  exact List.append_assoc _ _ _

theorem reads_negative {digits unit : Text} {token : Token} (number : IsNumber ['-'] digits unit token)
    (starts : startsNumber digits = true) : Reads '-' (digits ++ unit) token := by
  refine ⟨number.raw_eq, fun rest stop => ?_⟩
  have stop : rest.head?.any isUnitChar = false := by simpa [number.ends] using stop
  have starts : startsNumber (digits ++ (unit ++ rest)) = true := startsNumber_of_append starts _
  rw [List.append_assoc]
  simp [read, starts, readNumber_of number stop]

/-- A complete identifier is a `url(...)` or stands before no character of a name. -/
theorem IsIdent.stop {raw : Text} {next : Option Char} (ident : IsIdent raw)
    (stop : (Token.ident raw).endsBefore next = true) :
    raw.head? = some 'u' ∧ 2 ≤ raw.length ∨ next.any isIdentChar = false := by
  rcases ident with name | ⟨inner, -, rfl⟩
  · right
    simp only [Token.endsBefore, name, Bool.not_true, Bool.false_or, Bool.and_eq_true,
      Bool.not_eq_true'] at stop
    exact stop.1
  · left
    simp

/-- An identifier that starts no number on its own starts none before other text
either. -/
theorem startsNumber_ident (word : Text) {rest : Text} (nonempty : word ≠ [])
    (stop : 2 ≤ word.length ∨ rest.head?.any isIdentChar = false) :
    startsNumber (word ++ rest) = startsNumber word := by
  have stop : 2 ≤ word.length ∨
      rest.head?.any isNumberChar = false ∧ ([] : Text).head?.any isNumberChar = false := by
    refine stop.imp_right fun stop => ⟨?_, rfl⟩
    cases rest with
    | nil => rfl
    | cons c rest =>
      apply Bool.eq_false_iff.mpr
      intro number
      simp [isIdentChar_of_isNumberChar (by simpa using number)] at stop
  rw [startsNumber_append rest [] nonempty stop, List.append_nil]

theorem reads_hyphenated {c : Char} {tail : Text} (ident : IsIdent ('-' :: c :: tail))
    (starts : isIdentChar c = true) (notNumber : startsNumber (c :: tail) = false) :
    Reads '-' (c :: tail) (.ident ('-' :: c :: tail)) := by
  refine ⟨rfl, fun rest stop => ?_⟩
  have next : rest.head?.any isIdentChar = false := by simpa using ident.stop stop
  have number : startsNumber (c :: (tail ++ rest)) = false :=
    (startsNumber_ident (c :: tail) (by simp) (.inr next)).trans notNumber
  have ident := readIdent_of ident stop
  simp only [List.cons_append] at ident
  simp [read, number, starts, ident]

/-- A character that starts neither a comment, a string nor an operator starts a
number or an identifier. -/
theorem read_word {c : Char} (operator : Operator.ofChar? c = none) (quote : ¬(c = '"' ∨ c = '\''))
    (rest : Text) : read c rest =
      if startsNumber (c :: rest) then readNumber [] (c :: rest) else readIdent (c :: rest) := by
  have notMinus : c ≠ '-' := by rintro rfl; cases operator
  have notSlash : c ≠ '/' := by rintro rfl; cases operator
  simp [read, notMinus, notSlash, quote, operator]

theorem reads_number {c : Char} {digits unit : Text} {token : Token}
    (operator : Operator.ofChar? c = none) (quote : ¬(c = '"' ∨ c = '\''))
    (number : IsNumber [] (c :: digits) unit token) (starts : startsNumber (c :: digits) = true) :
    Reads c (digits ++ unit) token := by
  refine ⟨number.raw_eq, fun rest stop => ?_⟩
  have stop : rest.head?.any isUnitChar = false := by simpa [number.ends] using stop
  have starts : startsNumber (c :: (digits ++ unit ++ rest)) = true := by
    simpa using startsNumber_of_append starts (unit ++ rest)
  have text : c :: (digits ++ unit ++ rest) = (c :: digits) ++ (unit ++ rest) := by simp
  rw [read_word operator quote, if_pos starts, text, readNumber_of number stop]

theorem reads_ident {c : Char} {tail : Text} (operator : Operator.ofChar? c = none)
    (quote : ¬(c = '"' ∨ c = '\'')) (ident : IsIdent (c :: tail))
    (notNumber : startsNumber (c :: tail) = false) : Reads c tail (.ident (c :: tail)) := by
  refine ⟨rfl, fun rest stop => ?_⟩
  have number : startsNumber (c :: (tail ++ rest)) = false :=
    (startsNumber_ident (c :: tail) (by simp) ((ident.stop stop).imp_left And.right)).trans notNumber
  have ident := readIdent_of ident stop
  rw [read_word operator quote, number]
  simpa using ident

/-- What a reading from `c` on says about the text behind `c`: nothing is lost, the
token is read before any text that cannot continue it, and what is left is one. -/
def Splits (c : Char) (rest : Text) (token : Token) (after : Text) : Prop :=
  ∃ tail, rest = tail ++ after ∧ Reads c tail token ∧ token.endsBefore after.head? = true

theorem readComment_splits {rest after : Text} {token : Token} (star : rest.head? = some '*')
    (h : readComment rest.tail = (.ok token, after)) : Splits '/' rest token after := by
  unfold readComment at h
  split at h
  · next inner behind cut =>
    obtain ⟨token_eq, rfl⟩ := Prod.mk.inj h
    obtain rfl := Except.ok.inj token_eq
    refine ⟨'*' :: inner, ?_, reads_comment cut, rfl⟩
    rw [List.cons_append, cutComment_eq cut]
    cases rest with
    | nil => simp at star
    | cons c rest => rw [Option.some.inj star, List.tail_cons]
  · simp at h

theorem readString_splits {c : Char} (quote : c = '"' ∨ c = '\'') {rest after : Text} {token : Token}
    (h : readString c rest = (.ok token, after)) : Splits c rest token after := by
  unfold readString at h
  split at h
  · next inner behind cut =>
    obtain ⟨token_eq, rfl⟩ := Prod.mk.inj h
    obtain rfl := Except.ok.inj token_eq
    exact ⟨inner, (cutString_eq cut).symm, reads_string quote cut, rfl⟩
  · simp at h

/-- The digits at which a number was seen start it on their own. -/
theorem startsNumber_digits {digits rest : Text} (starts : startsNumber (digits ++ rest) = true)
    (stop : rest.head?.any isNumberChar = false) : startsNumber digits = true := by
  cases digits with
  | nil =>
    have head := startsNumber_head starts
    simp_all
  | cons c digits => rw [← starts, ← startsNumber_append [] rest (by simp) (.inr ⟨rfl, stop⟩), List.append_nil]

/-- An identifier read from a character of a name on has that character. -/
theorem ident_cons {raw rest after : Text} {c : Char} (name : isIdentChar c = true)
    (text : c :: rest = raw ++ after) (stop : (Token.ident raw).endsBefore after.head? = true) :
    ∃ tail, raw = c :: tail ∧ rest = tail ++ after := by
  cases raw with
  | nil =>
    rw [List.nil_append] at text
    simp [Token.endsBefore, ← text, name] at stop
  | cons d tail =>
    obtain ⟨rfl, rfl⟩ := List.cons.inj text
    exact ⟨tail, rfl, rfl⟩

/-- A reading splits the text. A slash is complete as far as it opens no line
comment. -/
theorem read_splits {c : Char} {rest after : Text} {token : Token} (notSpace : isSpace c = false)
    (notLine : ¬(c = '/' ∧ rest.head? = some '/')) (h : read c rest = (.ok token, after)) :
    Splits c rest token after := by
  unfold read at h
  split at h
  · next comment =>
    obtain ⟨rfl, star⟩ := comment
    exact readComment_splits star h
  split at h
  · next quote => exact readString_splits quote h
  split at h
  · next minus =>
    subst minus
    split at h
    · next number =>
      obtain ⟨digits, unit, isNumber, rfl, stop, stop'⟩ := readNumber_inv h
      have starts := startsNumber_digits number stop'
      exact ⟨digits ++ unit, (List.append_assoc _ _ _).symm, reads_negative isNumber starts,
        by rw [isNumber.ends, stop]; rfl⟩
    split at h
    · next number ident =>
      obtain ⟨raw, rfl, isIdent, text, stop⟩ := readIdent_inv h
      obtain ⟨tail, rfl, rfl⟩ := ident_cons (by decide) text stop
      obtain ⟨d, tail, rfl⟩ : ∃ d ds, tail = d :: ds := by
        cases tail with
        | cons d ds => exact ⟨d, ds, rfl⟩
        | nil => simp_all [Token.endsBefore, show isIdentChar '-' = true by decide]
      refine ⟨d :: tail, rfl, reads_hyphenated isIdent (by simpa using ident) ?_, stop⟩
      have next : after.head?.any isIdentChar = false := by simpa using isIdent.stop stop
      simpa [← startsNumber_ident (d :: tail) (by simp) (.inr next)] using number
    · next other =>
      obtain ⟨token_eq, rfl⟩ := Prod.mk.inj h
      obtain rfl := Except.ok.inj token_eq
      exact ⟨[], rfl, reads_minus, by simpa [Token.endsBefore] using other⟩
  · next notComment quote minus =>
    split at h
    · next op found =>
      obtain ⟨token_eq, rfl⟩ := Prod.mk.inj h
      obtain rfl := Except.ok.inj token_eq
      refine ⟨[], rfl, reads_operator minus found, ?_⟩
      obtain rfl := Operator.char_of_ofChar? found
      cases op <;> simp_all [Token.endsBefore, Operator.char]
    · next operator =>
      split at h
      · next number =>
        obtain ⟨digits, unit, isNumber, text, stop, stop'⟩ := readNumber_inv h
        rw [text] at number
        have starts := startsNumber_digits number stop'
        obtain ⟨digits, rfl⟩ : ∃ ds, digits = c :: ds := by
          cases digits with
          | nil => simp [startsNumber] at starts
          | cons d ds => exact ⟨ds, by rw [(List.cons.inj text).1]⟩
        refine ⟨digits ++ unit, ?_, reads_number operator quote isNumber starts,
          by rw [isNumber.ends, stop]; rfl⟩
        simpa using text
      · next number =>
        obtain ⟨raw, rfl, isIdent, text, stop⟩ := readIdent_inv h
        have name : isIdentChar c = true := by simp [isIdentChar, isOperator, notSpace, operator]
        obtain ⟨tail, rfl, rfl⟩ := ident_cons name text stop
        refine ⟨tail, rfl, reads_ident operator quote isIdent ?_, stop⟩
        have short := (isIdent.stop stop).imp_left And.right
        simpa [← startsNumber_ident (c :: tail) (by simp) short] using number

end Scan

end Stylesheet

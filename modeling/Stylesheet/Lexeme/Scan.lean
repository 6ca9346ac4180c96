import Stylesheet.Lexeme.Basic

/-! From source text to lexemes. Scanning skips blanks and line comments, then
reads the longest token at hand; what it reads is either a token or the cause of an
error, and either way it goes on from where that reading stopped. The outcomes of
a source are therefore one finite list, which every reader of lexemes draws on. -/
namespace Stylesheet

namespace Scan

def isSpace (c : Char) : Bool :=
  c == ' ' || c == '\t' || c == '\n' || c == '\r' || c == '\x0c' || c == '\x0b'

def isNewline (c : Char) : Bool := c == '\n' || c == '\r'

def isDigit (c : Char) : Bool := '0' ≤ c && c ≤ '9'

def isOperator (c : Char) : Bool := (Operator.ofChar? c).isSome

/-- Characters of an identifier: hyphens continue one, other operators end it. -/
def isIdentChar (c : Char) : Bool := !isSpace c && (c == '-' || !isOperator c)

def isNumberChar (c : Char) : Bool := isDigit c || c == '.'

def isUnitChar (c : Char) : Bool := c == '%' || (!isSpace c && !isOperator c)

/-- Without the spaces and line comments at the front. A line comment ends before
its newline, which is a space itself. -/
def skipTrivia (inComment : Bool) : Text → Text
  | [] => []
  | c :: rest =>
    if inComment then skipTrivia (!isNewline c) rest
    else if isSpace c then skipTrivia false rest
    else if c == '/' && rest.head? == some '/' then skipTrivia true rest
    else c :: rest

/-- Cuts behind the first `*/`. -/
def cutComment : Text → Option (Text × Text)
  | [] => none
  | '*' :: '/' :: rest => some (['*', '/'], rest)
  | c :: rest => (cutComment rest).map fun (inner, after) => (c :: inner, after)

/-- Cuts behind the first `quote` that no backslash escapes. -/
def cutString (quote : Char) : Text → Option (Text × Text)
  | [] => none
  | ['\\'] => none
  | '\\' :: c :: rest => (cutString quote rest).map fun (inner, after) => ('\\' :: c :: inner, after)
  | c :: rest =>
    if c = quote then some ([c], rest)
    else (cutString quote rest).map fun (inner, after) => (c :: inner, after)

/-- The number that digits and points spell: at least one digit, at most one
point. -/
def decimal? (text : Text) : Option Binary64 :=
  let (negative, body) := match text with
    | '-' :: rest => (true, rest)
    | rest => (false, rest)
  let whole := body.takeWhile isDigit
  let fraction := match body.dropWhile isDigit with
    | '.' :: rest => some rest
    | [] => some []
    | _ => none
  match fraction with
  | some fraction =>
    let digits := whole ++ fraction
    if !digits.isEmpty && fraction.all isDigit then
      let n := digits.foldl (fun n c => n * 10 + (c.toNat - '0'.toNat)) 0
      some (.ofDecimal negative n fraction.length)
    else none
  | none => none

/-- A reading: a token or the cause of an error, with the text behind it. -/
abbrev Reading := Except Cause Token × Text

/-- The comment whose opening `/*` stands before `text`. -/
def readComment (text : Text) : Reading :=
  match cutComment text with
  | some (inner, rest) => (.ok (.comment ('/' :: '*' :: inner)), rest)
  | none => (.error .unclosedComment, [])

/-- The string whose opening quote stands before `text`. -/
def readString (quote : Char) (text : Text) : Reading :=
  match cutString quote text with
  | some (inner, rest) => (.ok (.string (quote :: inner)), rest)
  | none => (.error (.unclosedString quote), [])

/-- The number at the front, `sign` standing before it. -/
def readNumber (sign text : Text) : Reading :=
  let digits := sign ++ text.takeWhile isNumberChar
  let behind := text.dropWhile isNumberChar
  let unit := behind.takeWhile isUnitChar
  let rest := behind.dropWhile isUnitChar
  match decimal? digits with
  | some value =>
    let unit? := if unit.isEmpty then none else some unit
    (.ok (.number ⟨value, unit?, false, digits ++ unit⟩), rest)
  | none => (.error (.malformedNumber digits), rest)

/-- The identifier at the front. `url(` up to the next `)` is one identifier, so
nothing inside it is scanned. -/
def readIdent (text : Text) : Reading :=
  let name := text.takeWhile isIdentChar
  let rest := text.dropWhile isIdentChar
  if name = ['u', 'r', 'l'] ∧ rest.head? = some '(' then
    match rest.dropWhile (· != ')') with
    | [] => (.error .unclosedUrl, rest)
    | close :: after => (.ok (.ident (name ++ rest.takeWhile (· != ')') ++ [close])), after)
  else (.ok (.ident name), rest)

def startsNumber : Text → Bool
  | '.' :: c :: _ => isDigit c
  | c :: _ => isDigit c
  | [] => false

/-- The token that starts with `c`. -/
def read (c : Char) (rest : Text) : Reading :=
  if c = '/' ∧ rest.head? = some '*' then readComment rest.tail
  else if c = '"' ∨ c = '\'' then readString c rest
  else if c = '-' then
    if startsNumber rest then readNumber ['-'] rest
    else if rest.head?.any isIdentChar then readIdent (c :: rest)
    else (.ok (.operator .minus), rest)
  else match Operator.ofChar? c with
    | some op => (.ok (.operator op), rest)
    | none => if startsNumber (c :: rest) then readNumber [] (c :: rest) else readIdent (c :: rest)

theorem skipTrivia_suffix (inComment : Bool) (text : Text) : skipTrivia inComment text <:+ text := by
  induction text generalizing inComment with
  | nil => simp [skipTrivia]
  | cons c rest ih =>
    unfold skipTrivia
    split
    · exact (ih _).trans (List.suffix_cons c rest)
    split
    · exact (ih _).trans (List.suffix_cons c rest)
    split
    · exact (ih _).trans (List.suffix_cons c rest)
    · exact List.suffix_rfl

theorem isSpace_of_skipTrivia {inComment : Bool} {text rest : Text} {c : Char}
    (h : skipTrivia inComment text = c :: rest) : isSpace c = false := by
  induction text generalizing inComment with
  | nil => simp [skipTrivia] at h
  | cons d text ih =>
    unfold skipTrivia at h
    split at h
    · exact ih h
    split at h
    · exact ih h
    split at h
    · exact ih h
    · next notSpace _ =>
      obtain ⟨rfl, _⟩ := List.cons.inj h
      simpa using notSpace

/-- Nothing is lost where a comment is cut. -/
theorem cutComment_eq {text inner after : Text} (h : cutComment text = some (inner, after)) :
    inner ++ after = text := by
  fun_induction cutComment text generalizing inner with
  | case1 => simp at h
  | case2 rest =>
    obtain ⟨rfl, rfl⟩ := Prod.mk.inj (Option.some.inj h)
    rfl
  | case3 c rest _ ih =>
    obtain ⟨⟨a, b⟩, hab, he⟩ := Option.map_eq_some_iff.1 h
    obtain ⟨rfl, rfl⟩ := Prod.mk.inj he
    simp [ih hab]

/-- Nothing is lost where a string is cut. -/
theorem cutString_eq {quote : Char} {text inner after : Text}
    (h : cutString quote text = some (inner, after)) : inner ++ after = text := by
  fun_induction cutString quote text generalizing inner with
  | case1 => simp at h
  | case2 => simp at h
  | case3 c rest ih =>
    obtain ⟨⟨a, b⟩, hab, he⟩ := Option.map_eq_some_iff.1 h
    obtain ⟨rfl, rfl⟩ := Prod.mk.inj he
    simp [ih hab]
  | case4 rest =>
    obtain ⟨rfl, rfl⟩ := Prod.mk.inj (Option.some.inj h)
    rfl
  | case5 c rest _ _ _ ih =>
    obtain ⟨⟨a, b⟩, hab, he⟩ := Option.map_eq_some_iff.1 h
    obtain ⟨rfl, rfl⟩ := Prod.mk.inj he
    simp [ih hab]

theorem readComment_suffix (text : Text) : (readComment text).2 <:+ text := by
  unfold readComment
  split
  · next inner rest h => exact ⟨inner, cutComment_eq h⟩
  · exact List.nil_suffix

theorem readString_suffix (quote : Char) (text : Text) : (readString quote text).2 <:+ text := by
  unfold readString
  split
  · next inner rest h => exact ⟨inner, cutString_eq h⟩
  · exact List.nil_suffix

theorem readNumber_suffix (sign text : Text) :
    (readNumber sign text).2 <:+ text.dropWhile isNumberChar := by
  unfold readNumber
  dsimp only
  split <;> exact List.dropWhile_suffix _

theorem readIdent_suffix (text : Text) : (readIdent text).2 <:+ text.dropWhile isIdentChar := by
  unfold readIdent
  dsimp only
  split
  · split
    · exact List.suffix_rfl
    · next close after h =>
      have behind : close :: after <:+ text.dropWhile isIdentChar := h ▸ List.dropWhile_suffix _
      exact (List.suffix_cons close after).trans behind
  · exact List.suffix_rfl

/-- Reading goes on behind the character it starts with, after an error too. -/
theorem read_suffix {c : Char} (text : Text) (notSpace : isSpace c = false) : (read c text).2 <:+ text := by
  unfold read
  split
  · exact (readComment_suffix _).trans (List.tail_suffix _)
  split
  · exact readString_suffix _ _
  split
  · next minus =>
    subst minus
    split
    · exact (readNumber_suffix _ _).trans (List.dropWhile_suffix _)
    split
    · refine (readIdent_suffix _).trans ?_
      rw [List.dropWhile_cons_of_pos (by decide)]
      exact List.dropWhile_suffix _
    · exact List.suffix_rfl
  · split
    · exact List.suffix_rfl
    · next operator =>
      split
      · next number =>
        refine (readNumber_suffix _ _).trans ?_
        rw [List.dropWhile_cons_of_pos]
        · exact List.dropWhile_suffix _
        · unfold startsNumber at number
          split at number
          · next h => simp [isNumberChar, (List.cons.inj h).1]
          · next h => simp [isNumberChar, (List.cons.inj h).1, number]
          · simp at number
      · refine (readIdent_suffix _).trans ?_
        rw [List.dropWhile_cons_of_pos (by simp [isIdentChar, isOperator, notSpace, operator])]
        exact List.dropWhile_suffix _

end Scan

/-- One outcome of scanning: the token that starts at an index, or the cause why
there is none, and the index at which scanning goes on. -/
structure Outcome where
  start : Nat
  result : Except Cause Token
  stop : Nat

namespace Outcome

/-- The lexeme of an outcome, or its error. -/
def lexeme (o : Outcome) : Except Failure Lexeme :=
  match o.result with
  | .ok token => .ok ⟨token, some o.start⟩
  | .error cause => .error (.error cause (some o.start))

/-- The outcomes of a text that starts at an index. -/
def scanFrom (index : Nat) (text : Text) : List Outcome :=
  match h : Scan.skipTrivia false text with
  | [] => []
  | c :: rest =>
    let start := index + (text.length - (rest.length + 1))
    let reading := Scan.read c rest
    let stop := start + (rest.length + 1 - reading.2.length)
    ⟨start, reading.1, stop⟩ :: scanFrom stop reading.2
termination_by text.length
decreasing_by
  have shorter := (Scan.read_suffix rest (Scan.isSpace_of_skipTrivia h)).length_le
  have skipped := (Scan.skipTrivia_suffix false text).length_le
  rw [h, List.length_cons] at skipped
  exact Nat.lt_of_lt_of_le (Nat.lt_succ_of_le shorter) skipped

/-- Everything that scanning a source yields, in order. -/
def scan (source : Text) : List Outcome := scanFrom 0 source

end Outcome

/-- The lexemes of a source, or the first error of scanning it. -/
def tokenize (source : Text) : Except Failure (List Lexeme) :=
  (Outcome.scan source).mapM Outcome.lexeme

end Stylesheet

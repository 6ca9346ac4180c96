import Stylesheet.Lexeme.Expression
import Stylesheet.Proofs.Lexeme.Scanning

/-! Scanning piece by piece. A piece of text is scanned with what follows it present,
so that pieces put together keep their tokens; whatever stands before it only moves
the offsets. -/
namespace Stylesheet

/-- What scanning a text from an index yields: lexemes, and errors. -/
def scanned (index : Nat) (text : Text) : List (Except Failure Lexeme) :=
  (Outcome.scanFrom index text).map Outcome.lexeme

/-- With `more` behind it, the text at the index is scanned as the lexemes. -/
def Lexed (index : Nat) (text more : Text) (lexemes : List Lexeme) : Prop :=
  scanned index (text ++ more) = lexemes.map .ok ++ scanned (index + text.length) more

theorem Lexed.append {index : Nat} {text text' more : Text} {lexemes lexemes' : List Lexeme}
    (first : Lexed index text (text' ++ more) lexemes)
    (second : Lexed (index + text.length) text' more lexemes') :
    Lexed index (text ++ text') more (lexemes ++ lexemes') := by
  unfold Lexed at first second ⊢
  rw [List.append_assoc, first, second, List.map_append, List.append_assoc, List.length_append, Nat.add_assoc]

theorem lexed_nil (index : Nat) (more : Text) : Lexed index [] more [] := rfl

theorem lexed_space {c : Char} (space : Scan.isSpace c = true) (index : Nat) (more : Text) :
    Lexed index [c] more [] := by
  have skipped : Scan.skipTrivia false ([c] ++ more) = Scan.skipTrivia false more := by
    rw [List.singleton_append, Scan.skipTrivia]
    simp [space]
  unfold Lexed scanned
  rw [Outcome.scanFrom_gap skipped]
  rfl

/-- Spaces between pieces are skipped. -/
theorem lexed_spaces {gap : Text} (spaces : gap.all Scan.isSpace = true) (index : Nat) (more : Text) :
    Lexed index gap more [] := by
  induction gap generalizing index with
  | nil => exact lexed_nil index more
  | cons c gap ih =>
    rw [List.all_cons, Bool.and_eq_true] at spaces
    exact (lexed_space spaces.1 index (gap ++ more)).append (ih spaces.2 (index + 1))

namespace Tiles

variable {index : Nat} {text last : Text} {lexemes : List Lexeme}

/-- Behind a lexeme that ends at the index, the text is at least as long as its
lexemes spelled out and the gap behind them. -/
theorem joinAfter_length (tiles : Tiles index text lexemes last) {l : Lexeme} (stop : l.stop = some (index : Int)) :
    (Expression.joinAfter l lexemes).length + last.length ≤ text.length := by
  induction tiles generalizing l with
  | nil => simp [Expression.joinAfter]
  | @cons index gap tail after last c token lexemes skipped reads ends rest ih =>
    have next : (⟨token, some ((index + gap.length : Nat) : Int)⟩ : Lexeme).stop =
        some ((index + gap.length + token.raw.length : Nat) : Int) := by
      simp [Lexeme.stop, Lexeme.raw]
    have touching : (if l.touches ⟨token, some ((index + gap.length : Nat) : Int)⟩ then [] else [' ']).length ≤
        gap.length := by
      cases gap with
      | nil => simp [Lexeme.touches, stop]
      | cons d gap => split <;> simp
    have behind := ih next
    have whole : token.raw.length = tail.length + 1 := by rw [reads.1]; rfl
    simp only [Expression.joinAfter, List.length_append, List.length_cons, Lexeme.raw] at behind ⊢
    omega

/-- A text is at least as long as its lexemes spelled out and the gap behind them. -/
theorem join_length (tiles : Tiles index text lexemes last) :
    (Expression.join lexemes).length + last.length ≤ text.length := by
  cases tiles with
  | nil => simp [Expression.join]
  | @cons _ gap tail after _ c token lexemes skipped reads ends rest =>
    have behind := rest.joinAfter_length (l := ⟨token, some ((index + gap.length : Nat) : Int)⟩)
      (by simp [Lexeme.stop, Lexeme.raw])
    have whole : token.raw.length = tail.length + 1 := by rw [reads.1]; rfl
    simp only [Expression.join, List.length_append, List.length_cons, Lexeme.raw] at behind ⊢
    omega

/-- A tiling that ends with a token is what is scanned before any text that cannot
continue that token. -/
theorem lexed (tiles : Tiles index text lexemes []) (more : Text)
    (complete : ∀ l, lexemes.getLast? = some l → l.token.endsBefore more.head? = true) :
    Lexed index text more lexemes := by
  have outcomes := map_eq_of_mapM tiles.lexemes_of_outcomes
  unfold Lexed scanned
  rw [tiles.append more complete (.inl rfl), List.map_append, outcomes]

end Tiles

def Token.IsWhole (token : Token) : Prop := tokenize token.raw = .ok [⟨token, some 0⟩]

theorem Token.isWhole_operator (op : Operator) : (Token.operator op).IsWhole :=
  eq_ok_of_toOption (by cases op <;> decide +kernel)

theorem Scan.Reads.isWhole {c : Char} {tail : Text} {token : Token} (reads : Scan.Reads c tail token)
    (notSpace : Scan.isSpace c = false) (notLine : ¬(c = '/' ∧ tail.head? = some '/')) : token.IsWhole := by
  have skipped : Scan.skipTrivia false (c :: (tail ++ [])) = c :: (tail ++ []) := by
    rw [List.append_nil, Scan.skipTrivia]
    simp [notSpace, notLine]
  have tiles : Tiles 0 ([] ++ c :: (tail ++ [])) [⟨token, some (0 + 0 : Nat)⟩] [] :=
    .cons skipped reads token.endsBefore_none (.nil rfl)
  rw [List.append_nil, List.nil_append, ← reads.1] at tiles
  exact tokenize_eq_ok.mpr ⟨[], tiles⟩

theorem Token.IsWhole.reads {token : Token} (whole : token.IsWhole) :
    ∃ c tail, Scan.Reads c tail token := by
  obtain ⟨last, tiles⟩ := tokenize_eq_ok.mp whole
  generalize token.raw = text, read : [(⟨token, some 0⟩ : Lexeme)] = lexemes at tiles
  cases tiles with
  | nil => cases read
  | cons skipped reads ends rest =>
    obtain rfl := congrArg Lexeme.token (List.cons.inj read).1
    exact ⟨_, _, reads⟩

theorem Token.IsWhole.lexed {token : Token} (whole : token.IsWhole) (index : Nat) (more : Text)
    (ends : token.endsBefore more.head? = true) : Lexed index token.raw more [⟨token, some (index : Int)⟩] := by
  obtain ⟨last, tiles⟩ := tokenize_eq_ok.mp whole
  have length := tiles.join_length
  simp only [Expression.join, Expression.joinAfter, Lexeme.raw, List.append_nil] at length
  obtain rfl : last = [] := List.length_eq_zero_iff.mp (by omega)
  have moved := tiles.shift index
  rw [Nat.zero_add] at moved
  have lexed := moved.lexed more (by rintro l ⟨⟩; exact ends)
  simpa [Lexeme.shift] using lexed

namespace Token

def isWord : Token → Bool
  | ident _ | string _ | number _ => true
  | _ => false

/-- Before a character that continues no identifier and no unit, and opens neither a
call nor a comment, a token is complete. -/
theorem endsBefore_of_stop (token : Token) {c : Char} (stop : Scan.isIdentChar c = false)
    (other : c ≠ '(' ∧ c ≠ '%') (slash : token = .operator .slash → c ≠ '/' ∧ c ≠ '*') :
    token.endsBefore (some c) = true := by
  have unit : Scan.isUnitChar c = false := by
    simp only [Scan.isIdentChar, Bool.and_eq_false_iff, Bool.or_eq_false_iff] at stop
    rcases stop with space | ⟨-, operator⟩ <;> simp_all [Scan.isUnitChar]
  cases token with
  | ident raw => simp [endsBefore, stop, other.1]
  | string | comment | other => rfl
  | number n => simp [endsBefore, unit]
  | operator op => cases op <;> simp_all [endsBefore]

theorem endsBefore_of_isWord {token : Token} (word : token.isWord = true) {c : Char}
    (stop : Scan.isIdentChar c = false) (other : c ≠ '(' ∧ c ≠ '%') : token.endsBefore (some c) = true := by
  refine token.endsBefore_of_stop stop other ?_
  rintro rfl
  cases word

/-- No word starts like a comment. -/
theorem IsWhole.head_of_isWord {token : Token} (whole : token.IsWhole) (word : token.isWord = true) :
    token.raw.head? ≠ some '/' ∧ token.raw.head? ≠ some '*' := by
  obtain ⟨c, tail, reads⟩ := whole.reads
  have read := reads.2 [] token.endsBefore_none
  constructor
  · intro slash
    obtain rfl : c = '/' := by simpa [reads.1] using slash
    unfold Scan.read at read
    split at read
    · unfold Scan.readComment at read
      split at read <;> cases read
      cases word
    · obtain ⟨rfl, -⟩ : token = .operator .slash ∧ tail = [] := by
        simpa [Operator.ofChar?, Operator.all, Operator.char] using read.symm
      cases word
  · intro star
    obtain rfl : c = '*' := by simpa [reads.1] using star
    obtain ⟨rfl, -⟩ : token = .operator .star ∧ tail = [] := by
      simpa [Scan.read, Operator.ofChar?, Operator.all, Operator.char] using read.symm
    cases word

/-- A number that is read was not computed. -/
theorem IsWhole.computed_eq {n : Numeral} (whole : (Token.number n).IsWhole) : n.computed = false := by
  obtain ⟨c, tail, reads⟩ := whole.reads
  obtain ⟨sign, text, read⟩ := Scan.exists_readNumber (reads.2 [] (endsBefore_none _))
  obtain ⟨_, _, number, -⟩ := Scan.readNumber_inv read
  obtain ⟨_, -, same⟩ := number.token_eq
  cases same
  rfl

end Token

end Stylesheet

import Stylesheet.Proofs.Lexeme.Reading
import Stylesheet.Proofs.Results

/-! Scanning of a whole text as a tiling: gaps and tokens in turn, each token read
as it would be before any text that cannot continue it. A tiling is found exactly
where scanning meets no error; it can be moved to another index, and what follows
the text is scanned apart from it. -/
namespace Stylesheet

namespace Scan

/-- Skipping stops at no line comment. -/
theorem notLine_of_skipTrivia {inComment : Bool} {text rest : Text} {c : Char}
    (h : skipTrivia inComment text = c :: rest) : ¬(c = '/' ∧ rest.head? = some '/') := by
  induction text generalizing inComment with
  | nil => simp [skipTrivia] at h
  | cons d text ih =>
    unfold skipTrivia at h
    split at h
    · exact ih h
    split at h
    · exact ih h
    split at h
    · exact ih h
    · next other =>
      obtain ⟨rfl, rfl⟩ := List.cons.inj h
      simpa using other

/-- A gap before a token stays one whatever follows. -/
theorem skipTrivia_append {inComment : Bool} {text rest more : Text} {c : Char}
    (h : skipTrivia inComment text = c :: rest)
    (slash : c = '/' → rest = [] → more.head? ≠ some '/') :
    skipTrivia inComment (text ++ more) = c :: (rest ++ more) := by
  induction text generalizing inComment with
  | nil => simp [skipTrivia] at h
  | cons d text ih =>
    rw [skipTrivia] at h
    rw [List.cons_append, skipTrivia]
    split at h
    · next comment => rw [if_pos comment, ih h]
    · next comment =>
      rw [if_neg comment]
      split at h
      · next space => rw [if_pos space, ih h]
      · next space =>
        rw [if_neg space]
        split at h
        · next line =>
          have line' : (d == '/' && (text ++ more).head? == some '/') = true := by simp_all
          rw [if_pos line', ih h]
        · next other =>
          obtain ⟨rfl, rfl⟩ := List.cons.inj h
          have other' : ¬(d == '/' && (text ++ more).head? == some '/') = true := by
            cases text <;> simp_all
          rw [if_neg other']

theorem isSpace_of_isNewline {c : Char} (newline : isNewline c = true) : isSpace c = true := by
  simp only [isNewline, Bool.or_eq_true, beq_iff_eq] at newline
  rcases newline with rfl | rfl <;> decide

/-- A gap at the end of a text goes on behind it where a newline follows, which ends
a line comment too. -/
theorem skipTrivia_gap {inComment : Bool} {gap more : Text} (h : skipTrivia inComment gap = [])
    (newline : more.head?.any isNewline = true) :
    skipTrivia inComment (gap ++ more) = skipTrivia false more := by
  induction gap generalizing inComment with
  | nil =>
    cases more with
    | nil => simp at newline
    | cons c more =>
      have newline : isNewline c = true := by simpa using newline
      cases inComment <;> simp [skipTrivia, newline, isSpace_of_isNewline newline]
  | cons d gap ih =>
    rw [skipTrivia] at h
    rw [List.cons_append, skipTrivia]
    split at h
    · next comment => rw [if_pos comment, ih h]
    · next comment =>
      rw [if_neg comment]
      split at h
      · next space => rw [if_pos space, ih h]
      · next space =>
        rw [if_neg space]
        split at h
        · next line =>
          have line' : (d == '/' && (gap ++ more).head? == some '/') = true := by simp_all
          rw [if_pos line', ih h]
        · simp at h

end Scan

namespace Lexeme

def shift (k : Nat) (l : Lexeme) : Lexeme := { l with offset := l.offset.map (· + k) }

def outcome (l : Lexeme) : Outcome :=
  let start := (l.offset.getD 0).toNat
  ⟨start, .ok l.token, start + l.raw.length⟩

end Lexeme

/-- A text that starts at an index, split into gaps and lexemes, with the gap
behind the last lexeme. -/
inductive Tiles : Nat → Text → List Lexeme → Text → Prop where
  | nil {index : Nat} {gap : Text} (skipped : Scan.skipTrivia false gap = []) : Tiles index gap [] gap
  | cons {index : Nat} {gap tail after last : Text} {c : Char} {token : Token} {lexemes : List Lexeme}
      (skipped : Scan.skipTrivia false (gap ++ c :: (tail ++ after)) = c :: (tail ++ after))
      (reads : Scan.Reads c tail token) (ends : token.endsBefore after.head? = true)
      (rest : Tiles (index + gap.length + token.raw.length) after lexemes last) :
      Tiles index (gap ++ c :: (tail ++ after)) (⟨token, some (index + gap.length : Nat)⟩ :: lexemes) last

namespace Outcome

theorem scanFrom_nil {index : Nat} {text : Text} (h : Scan.skipTrivia false text = []) :
    scanFrom index text = [] := by
  rw [scanFrom]
  split
  · rfl
  · next found => rw [h] at found; cases found

theorem scanFrom_cons {index : Nat} {text rest : Text} {c : Char}
    (h : Scan.skipTrivia false text = c :: rest) :
    scanFrom index text =
      let start := index + (text.length - (rest.length + 1))
      let stop := start + (rest.length + 1 - (Scan.read c rest).2.length)
      ⟨start, (Scan.read c rest).1, stop⟩ :: scanFrom stop (Scan.read c rest).2 := by
  rw [scanFrom]
  split
  · next found => rw [h] at found; cases found
  · next found =>
    obtain ⟨rfl, rfl⟩ := List.cons.inj (h.symm.trans found)
    rfl

/-- Every outcome is read at a character of the text. -/
theorem exists_read {index : Nat} {text : Text} {o : Outcome} (member : o ∈ scanFrom index text) :
    (∃ c rest, o.result = (Scan.read c rest).1) ∧ index ≤ o.start ∧ o.start < index + text.length := by
  fun_induction scanFrom index text with
  | case1 => cases member
  | case2 index text c rest found start reading stop ih =>
    have shorter : reading.2.length ≤ rest.length :=
      (Scan.read_suffix rest (Scan.isSpace_of_skipTrivia found)).length_le
    have skipped := (Scan.skipTrivia_suffix false text).length_le
    rw [found, List.length_cons] at skipped
    rcases List.mem_cons.mp member with rfl | member
    · exact ⟨⟨c, rest, rfl⟩, Nat.le_add_right _ _, by dsimp only; omega⟩
    · obtain ⟨read, low, high⟩ := ih member
      exact ⟨read, by omega, by omega⟩

theorem result_of_lexeme {o : Outcome} {l : Lexeme} (read : o.lexeme = .ok l) :
    o.result = .ok l.token ∧ l.offset = some (o.start : Int) := by
  unfold lexeme at read
  split at read
  · next result =>
    cases read
    exact ⟨result, rfl⟩
  · cases read

theorem cause_of_lexeme {o : Outcome} {failure : Failure} (failed : o.lexeme = .error failure) :
    ∃ cause, o.result = .error cause ∧ failure = .error cause (some (o.start : Int)) := by
  unfold lexeme at failed
  split at failed
  · cases failed
  · next cause result =>
    cases failed
    exact ⟨cause, result, rfl⟩

/-- A gap in front only moves what is scanned behind it. -/
theorem scanFrom_gap {index : Nat} {gap text : Text}
    (h : Scan.skipTrivia false (gap ++ text) = Scan.skipTrivia false text) :
    scanFrom index (gap ++ text) = scanFrom (index + gap.length) text := by
  cases found : Scan.skipTrivia false text with
  | nil => rw [scanFrom_nil found, scanFrom_nil (h.trans found)]
  | cons c rest =>
    have le := (Scan.skipTrivia_suffix false text).length_le
    rw [found, List.length_cons] at le
    have start : index + ((gap ++ text).length - (rest.length + 1)) =
        index + gap.length + (text.length - (rest.length + 1)) := by
      rw [List.length_append]
      omega
    rw [scanFrom_cons found, scanFrom_cons (h.trans found), start]

end Outcome

namespace Tiles

open Outcome

variable {index : Nat} {text last : Text} {lexemes : List Lexeme}

theorem of_scan (scanned : (scanFrom index text).mapM Outcome.lexeme = .ok lexemes) :
    ∃ last, Tiles index text lexemes last := by
  fun_induction scanFrom index text generalizing lexemes with
  | case1 index text found =>
    cases scanned
    exact ⟨text, .nil found⟩
  | case2 index text c rest found start reading stop =>
    rename_i ih
    obtain ⟨l, more, first, others, rfl⟩ := mapM_cons_eq_ok.mp scanned
    obtain ⟨last, tiles⟩ := ih others
    cases read : reading.1 with
    | error cause => simp [Outcome.lexeme, read] at first
    | ok token =>
      have first : (⟨token, some start⟩ : Lexeme) = l := by simpa [Outcome.lexeme, read] using first
      have read : Scan.read c rest = (.ok token, reading.2) := Prod.ext read rfl
      obtain ⟨tail, split, reads, ends⟩ :=
        Scan.read_splits (Scan.isSpace_of_skipTrivia found) (Scan.notLine_of_skipTrivia found) read
      obtain ⟨gap, same⟩ := Scan.skipTrivia_suffix false text
      replace same := same.symm
      rw [found, split] at same
      have start_eq : start = index + gap.length := by
        simp only [start, same, split, List.length_append, List.length_cons]
        omega
      have stop_eq : stop = index + gap.length + token.raw.length := by
        simp only [stop, start_eq, split, reads.1, List.length_append, List.length_cons]
        omega
      rw [stop_eq] at tiles
      rw [← first, start_eq]
      have skipped : Scan.skipTrivia false (gap ++ c :: (tail ++ reading.2)) = c :: (tail ++ reading.2) := by
        rw [← same, found, split]
      rw [same]
      exact ⟨last, .cons skipped reads ends tiles⟩

theorem eq_nil (tiles : Tiles index text lexemes last) (empty : text = []) : lexemes = [] := by
  cases tiles with
  | nil => rfl
  | cons => simp at empty

/-- What follows a text is scanned apart from it, if it cannot continue the last
token, and if the text does not end in a gap or a newline ends that gap. -/
theorem append (tiles : Tiles index text lexemes last) (more : Text)
    (complete : ∀ l, lexemes.getLast? = some l → l.token.endsBefore more.head? = true)
    (closed : last = [] ∨ more = [] ∨ more.head?.any Scan.isNewline = true) :
    scanFrom index (text ++ more) = lexemes.map Lexeme.outcome ++ scanFrom (index + text.length) more := by
  induction tiles with
  | @nil index text skipped =>
    rcases closed with rfl | rfl | newline
    · simp
    · rw [List.append_nil, scanFrom_nil skipped, scanFrom_nil rfl]
      rfl
    · exact scanFrom_gap (Scan.skipTrivia_gap skipped newline)
  | @cons index gap tail after last c token lexemes skipped reads ends rest ih =>
    -- Behind the token stands either the rest of the text or, at its very end, `more`.
    have ends : token.endsBefore (after ++ more).head? = true := by
      cases after with
      | cons d after => simpa using ends
      | nil =>
        obtain rfl := rest.eq_nil rfl
        exact complete _ rfl
    have complete : ∀ l, lexemes.getLast? = some l → l.token.endsBefore more.head? = true := by
      intro l found
      apply complete
      rw [List.getLast?_cons, found]
      rfl
    have slash : c = '/' → tail ++ after = [] → more.head? ≠ some '/' := by
      rintro rfl nothing follows
      obtain ⟨rfl, rfl⟩ := List.append_eq_nil_iff.mp nothing
      obtain rfl : token = .operator .slash := by
        have read := reads.2 [] token.endsBefore_none
        simpa [Scan.read, Operator.ofChar?, Operator.all, Operator.char] using read.symm
      simp [Token.endsBefore, follows] at ends
    have found := Scan.skipTrivia_append skipped slash
    have text_eq : tail ++ after ++ more = tail ++ (after ++ more) := List.append_assoc _ _ _
    rw [scanFrom_cons found, text_eq, reads.2 _ ends]
    have start : index + ((gap ++ c :: (tail ++ after) ++ more).length - ((tail ++ (after ++ more)).length + 1)) =
        index + gap.length := by
      simp only [List.length_append, List.length_cons]
      omega
    have stop : index + gap.length + ((tail ++ (after ++ more)).length + 1 - (after ++ more).length) =
        index + gap.length + token.raw.length := by
      simp only [reads.1, List.length_append, List.length_cons]
      omega
    have whole : index + (gap ++ c :: (tail ++ after)).length =
        index + gap.length + token.raw.length + after.length := by
      simp only [reads.1, List.length_append, List.length_cons]
      omega
    dsimp only
    rw [start, stop, ih complete closed, whole]
    rfl

/-- A tiling is what scanning finds. -/
theorem scan (tiles : Tiles index text lexemes last) :
    scanFrom index text = lexemes.map Lexeme.outcome := by
  have scanned := tiles.append [] (fun l _ => l.token.endsBefore_none) (.inr (.inl rfl))
  have nothing : scanFrom (index + text.length) [] = [] := scanFrom_nil rfl
  rwa [List.append_nil, nothing, List.append_nil] at scanned

theorem lexemes_of_outcomes (tiles : Tiles index text lexemes last) :
    (lexemes.map Lexeme.outcome).mapM Outcome.lexeme = .ok lexemes := by
  induction tiles with
  | nil => rfl
  | cons _ _ _ _ ih => exact mapM_cons_eq_ok.mpr ⟨_, _, rfl, ih, rfl⟩

theorem shift (tiles : Tiles index text lexemes last) (k : Nat) :
    Tiles (index + k) text (lexemes.map (Lexeme.shift k)) last := by
  induction tiles with
  | nil skipped => exact .nil skipped
  | @cons index gap tail after last c token lexemes skipped reads ends rest ih =>
    have stop : index + gap.length + token.raw.length + k = index + k + gap.length + token.raw.length := by
      omega
    have start : (⟨token, some ((index + gap.length : Nat) : Int)⟩ : Lexeme).shift k =
        ⟨token, some ((index + k + gap.length : Nat) : Int)⟩ := by
      simp only [Lexeme.shift, Option.map_some]
      congr 2
      omega
    rw [List.map_cons, start]
    exact .cons skipped reads ends (stop ▸ ih)

end Tiles

/-- A text without errors is scanned apart from the lines behind it. -/
theorem Outcome.scan_append_newline {text : Text} (clean : ∀ o ∈ scan text, ∃ l, o.lexeme = .ok l) (more : Text) :
    scan (text ++ '\n' :: more) = scan text ++ scanFrom text.length ('\n' :: more) := by
  obtain ⟨lexemes, scanned⟩ := mapM_of_forall clean
  obtain ⟨last, tiles⟩ := Tiles.of_scan scanned
  have apart := tiles.append ('\n' :: more) (fun l _ => l.token.endsBefore_newline) (.inr (.inr rfl))
  rwa [Nat.zero_add, ← tiles.scan] at apart

/-- Scanning meets no error exactly where the text can be tiled. -/
theorem tokenize_eq_ok {source : Text} {lexemes : List Lexeme} :
    tokenize source = .ok lexemes ↔ ∃ last, Tiles 0 source lexemes last := by
  constructor
  · exact Tiles.of_scan
  · rintro ⟨last, tiles⟩
    rw [tokenize, Outcome.scan, tiles.scan]
    exact tiles.lexemes_of_outcomes

end Stylesheet

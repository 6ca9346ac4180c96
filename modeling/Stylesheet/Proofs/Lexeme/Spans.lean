import Stylesheet.Lexeme.Cursor
import Stylesheet.Proofs.Lexeme.Scanning

/-! Where the lexemes of a source stand. Each spells its own part of the source, and
what is between two of them is spaces and line comments only. Scanning gets there by
moving on with every outcome, an error included. -/
namespace Stylesheet

/-- A gap before the text `after`: spaces and line comments. A line comment goes on to
the next newline, which is not part of it, or to the end of the source. -/
inductive Gap : Text → Text → Prop where
  | nil (after : Text) : Gap [] after
  | space {c : Char} {gap after : Text} (space : Scan.isSpace c = true) (rest : Gap gap after) :
      Gap (c :: gap) after
  | comment {line gap after : Text} (inside : line.all (!Scan.isNewline ·) = true)
      (stop : (gap ++ after).head?.all Scan.isNewline = true) (rest : Gap gap after) :
      Gap ('/' :: '/' :: line ++ gap) after

/-- The rest of a line comment before the text `after`, and the gap behind it. -/
def RestOfLine (text after : Text) : Prop :=
  ∃ line gap, text = line ++ gap ∧ line.all (!Scan.isNewline ·) = true ∧
    (gap ++ after).head?.all Scan.isNewline = true ∧ Gap gap after

namespace Scan

theorem skipTrivia_ne_cons (inComment : Bool) (c : Char) (text : Text) :
    skipTrivia inComment text ≠ c :: text := by
  intro same
  have le := (skipTrivia_suffix inComment text).length_le
  rw [same, List.length_cons] at le
  omega

/-- Inside a line comment, skipping is over only at the end of the source. -/
theorem eq_nil_of_skipTrivia {text : Text} (h : skipTrivia true text = text) : text = [] := by
  cases text with
  | nil => rfl
  | cons c text =>
    rw [skipTrivia, if_pos rfl] at h
    exact absurd h (skipTrivia_ne_cons _ c text)

/-- What skipping passes over is a gap, or in a line comment the rest of it. -/
theorem gap_of_skipTrivia {gap after : Text} :
    (skipTrivia false (gap ++ after) = after → Gap gap after) ∧
      (skipTrivia true (gap ++ after) = after → RestOfLine gap after) := by
  induction gap with
  | nil =>
    refine ⟨fun _ => .nil after, fun h => ?_⟩
    obtain rfl := eq_nil_of_skipTrivia h
    exact ⟨[], [], rfl, rfl, rfl, .nil []⟩
  | cons c gap ih =>
    constructor
    · intro h
      rw [List.cons_append, skipTrivia, if_neg Bool.false_ne_true] at h
      by_cases space : isSpace c = true
      · rw [if_pos space] at h
        exact .space space (ih.1 h)
      · rw [if_neg space] at h
        by_cases line : (c == '/' && (gap ++ after).head? == some '/') = true
        · rw [if_pos line] at h
          simp only [Bool.and_eq_true, beq_iff_eq] at line
          obtain ⟨rfl, slash⟩ := line
          obtain ⟨line, gap', rfl, inside, stop, rest⟩ := ih.2 h
          -- The second slash is part of the line, since it is no newline.
          cases line with
          | nil =>
            rw [List.nil_append] at slash
            rw [slash] at stop
            exact absurd stop (by decide)
          | cons d line =>
            obtain rfl : d = '/' := by simpa using slash
            rw [List.all_cons, Bool.and_eq_true] at inside
            exact .comment inside.2 stop rest
        · rw [if_neg line] at h
          have length := congrArg List.length h
          simp only [List.length_cons, List.length_append] at length
          omega
    · intro h
      rw [List.cons_append, skipTrivia, if_pos rfl] at h
      by_cases newline : isNewline c = true
      · rw [newline] at h
        exact ⟨[], c :: gap, rfl, rfl, by simpa using newline, .space (isSpace_of_isNewline newline) (ih.1 h)⟩
      · have newline := Bool.eq_false_iff.mpr newline
        rw [newline] at h
        obtain ⟨line, gap', rfl, inside, stop, rest⟩ := ih.2 h
        exact ⟨c :: line, gap', rfl, by simp [newline, inside], stop, rest⟩

end Scan

namespace Lexeme

def start (l : Lexeme) : Nat := (l.offset.getD 0).toNat

def finish (l : Lexeme) : Nat := l.start + l.raw.length

theorem stop_of_offset {l : Lexeme} {start : Nat} (offset : l.offset = some (start : Int)) :
    l.stop = some ((start + l.raw.length : Nat) : Int) := by
  rw [stop, offset, Option.map_some, Int.natCast_add]

end Lexeme

/-- The lexemes cover the source from an index on: each spells the part of the source
from its offset to its end, they follow one another, and before, between and behind
them are gaps. -/
structure Covers (source : Text) (index : Nat) (lexemes : List Lexeme) : Prop where
  spelled : ∀ l ∈ lexemes, l.offset = some (l.start : Int) ∧ l.stop = some (l.finish : Int) ∧ l.raw ≠ [] ∧
    source.extract l.start l.finish = l.raw
  ordered : lexemes.Pairwise fun l next => l.start < next.start ∧ l.finish ≤ next.start
  gaps : ∀ gap ∈ (index :: lexemes.map Lexeme.finish).zip (lexemes.map Lexeme.start ++ [source.length]),
    Gap (source.extract gap.1 gap.2) (source.drop gap.2)

namespace Tiles

variable {index : Nat} {text last source : Text} {lexemes : List Lexeme}

theorem start_ge (tiles : Tiles index text lexemes last) : ∀ l ∈ lexemes, index ≤ l.start := by
  induction tiles with
  | nil => exact fun l member => absurd member List.not_mem_nil
  | @cons index gap tail after last c token lexemes skipped reads ends rest ih =>
    intro l member
    rcases List.mem_cons.mp member with rfl | member
    · exact Nat.le_add_right index gap.length
    · have le := ih l member
      omega

/-- A tiling of what the source has from an index on covers it. -/
theorem covers (tiles : Tiles index text lexemes last) (here : source.drop index = text)
    (inside : index ≤ source.length) : Covers source index lexemes := by
  induction tiles with
  | @nil index gap skipped =>
    refine ⟨fun l member => absurd member List.not_mem_nil, .nil, ?_⟩
    intro span member
    obtain rfl := List.mem_singleton.mp member
    have whole : source.extract index source.length = gap := by
      rw [List.extract, here]
      exact List.take_of_length_le (Nat.le_of_eq (by rw [← here, List.length_drop]))
    rw [whole, List.drop_length]
    exact Scan.gap_of_skipTrivia.1 (by rw [List.append_nil]; exact skipped)
  | @cons index gap tail after last c token lexemes skipped reads ends rest ih =>
    have token_drop : source.drop (index + gap.length) = token.raw ++ after := by
      rw [← List.drop_drop, here, List.drop_left, reads.1]
      rfl
    have after_drop : source.drop (index + gap.length + token.raw.length) = after := by
      rw [← List.drop_drop, token_drop, List.drop_left]
    have fits : index + gap.length + token.raw.length ≤ source.length := by
      have length := congrArg List.length here
      have raw := congrArg List.length reads.1
      simp only [List.length_drop, List.length_append, List.length_cons] at length raw
      omega
    have gap_eq : source.extract index (index + gap.length) = gap := by
      rw [List.extract, here, Nat.add_sub_cancel_left, List.take_left]
    have raw_eq : source.extract (index + gap.length) (index + gap.length + token.raw.length) = token.raw := by
      rw [List.extract, token_drop, Nat.add_sub_cancel_left, List.take_left]
    have cover := ih after_drop fits
    refine ⟨?_, ?_, ?_⟩
    · intro l member
      rcases List.mem_cons.mp member with rfl | member
      · refine ⟨rfl, Lexeme.stop_of_offset rfl, ?_, raw_eq⟩
        rw [Lexeme.raw, reads.1]
        exact List.cons_ne_nil c tail
      · exact cover.spelled l member
    · refine .cons (fun next member => ?_) cover.ordered
      have behind := rest.start_ge next member
      have raw := congrArg List.length reads.1
      simp only [List.length_cons] at raw
      simp only [Lexeme.finish, Lexeme.start, Lexeme.raw, Option.getD_some, Int.toNat_natCast] at behind ⊢
      omega
    · intro span member
      rcases List.mem_cons.mp member with rfl | member
      · have here : Lexeme.start ⟨token, some ((index + gap.length : Nat) : Int)⟩ = index + gap.length := rfl
        rw [here, gap_eq]
        refine Scan.gap_of_skipTrivia.1 ?_
        rw [token_drop, reads.1]
        exact skipped
      · exact cover.gaps span member

end Tiles

namespace Outcome

/-- An outcome uses up some of the text, and what is left of the text gives the
others. -/
theorem scanFrom_step {index : Nat} {text : Text} {o : Outcome} {pending : List Outcome}
    (scanned : scanFrom index text = o :: pending) :
    ∃ used, 0 < used ∧ used ≤ text.length ∧ o.stop = index + used ∧ pending = scanFrom o.stop (text.drop used) := by
  cases found : Scan.skipTrivia false text with
  | nil =>
    rw [scanFrom_nil found] at scanned
    cases scanned
  | cons c rest =>
    rw [scanFrom_cons found] at scanned
    obtain ⟨rfl, rfl⟩ := List.cons.inj scanned
    have token : c :: rest <:+ text := found ▸ Scan.skipTrivia_suffix false text
    have behind := Scan.read_suffix rest (Scan.isSpace_of_skipTrivia found)
    have left : (Scan.read c rest).2 = text.drop (text.length - (Scan.read c rest).2.length) :=
      List.suffix_iff_eq_drop.mp ((behind.trans (List.suffix_cons c rest)).trans token)
    have shorter := behind.length_le
    have shorter' := token.length_le
    rw [List.length_cons] at shorter'
    refine ⟨text.length - (Scan.read c rest).2.length, by omega, by omega, ?_, ?_⟩
    · dsimp only
      omega
    · rw [← left]

/-- There are no more outcomes than characters. -/
theorem scanFrom_length_le (index : Nat) (text : Text) : (scanFrom index text).length ≤ text.length := by
  induction outcomes : scanFrom index text generalizing index text with
  | nil => exact Nat.zero_le _
  | cons o pending ih =>
    obtain ⟨used, positive, fits, -, rfl⟩ := scanFrom_step outcomes
    have shorter := ih _ _ rfl
    rw [List.length_drop] at shorter
    rw [List.length_cons]
    omega

end Outcome

namespace Cursor

def drawn (c : Cursor) : Nat → Cursor
  | 0 => c
  | n + 1 => (c.drawn n).draw.2

/-- The cursors that steps of reading lead to from the start of a source, whatever the
steps gave. -/
inductive Reached (source : Text) : Cursor → Prop where
  | start : Reached source (ofSource source)
  | draw {c : Cursor} (before : Reached source c) : Reached source c.draw.2
  | next {c : Cursor} (before : Reached source c) : Reached source c.next.2
  | peek {c : Cursor} (n : Nat) (before : Reached source c) : Reached source (c.peek n).2

/-- The cursor stands at its index in the source: what it has pending is what scanning
the source from there on yields. -/
structure At (source : Text) (c : Cursor) : Prop where
  index_le : c.index ≤ source.length
  length : c.length = source.length
  pending : c.pending = Outcome.scanFrom c.index (source.drop c.index)

variable {source : Text} {c : Cursor}

theorem at_ofSource (source : Text) : At source (ofSource source) := ⟨Nat.zero_le _, rfl, rfl⟩

theorem At.withView (position : At source c) (ahead : List Lexeme) : At source { c with ahead } :=
  ⟨position.index_le, position.length, position.pending⟩

theorem At.draw (position : At source c) : At source c.draw.2 := by
  obtain ⟨ahead, pending, index, length⟩ := c
  obtain ⟨index_le, rfl, scanned⟩ := position
  cases pending with
  | nil =>
    refine ⟨Nat.le_refl _, rfl, ?_⟩
    rw [Cursor.draw, List.drop_length, Outcome.scanFrom_nil rfl]
  | cons o pending =>
    obtain ⟨used, -, fits, stop, rest⟩ := Outcome.scanFrom_step scanned.symm
    rw [List.length_drop] at fits
    have index_le : index ≤ source.length := index_le
    refine ⟨?_, rfl, ?_⟩
    · change o.stop ≤ source.length
      omega
    · rw [List.drop_drop] at rest
      rw [← stop] at rest
      exact rest

theorem At.next (position : At source c) : At source c.next.2 := by
  unfold Cursor.next
  split
  · exact position.withView _
  · exact position.draw

theorem At.peek (n : Nat) (position : At source c) : At source (c.peek n).2 := by
  fun_induction Cursor.peek n c with
  | case1 => exact position
  | case2 => exact position
  | case3 => exact position
  | case4 c _ l c' drawn ih =>
    have behind := position.draw
    rw [drawn] at behind
    exact ih (behind.withView _)
  | case5 c _ c' drawn =>
    have behind := position.draw
    rwa [drawn] at behind
  | case6 c _ failure c' drawn =>
    have behind := position.draw
    rwa [drawn] at behind

theorem Reached.at (reached : Reached source c) : At source c := by
  induction reached with
  | start => exact at_ofSource source
  | draw _ ih => exact ih.draw
  | next _ ih => exact ih.next
  | peek n _ ih => exact ih.peek n

theorem draw_eq_end_iff : c.draw.1 = .ok none ↔ c.pending = [] := by
  obtain ⟨ahead, pending, index, length⟩ := c
  cases pending with
  | nil => exact ⟨fun _ => rfl, fun _ => rfl⟩
  | cons o pending =>
    refine ⟨fun ended => ?_, fun none => absurd none (List.cons_ne_nil o pending)⟩
    obtain ⟨l, -, same⟩ := map_eq_ok.mp ended
    cases same

/-- Drawing moves on, unless it meets the end of the source. -/
theorem At.index_lt (position : At source c) (more : c.draw.1 ≠ .ok none) : c.index < c.draw.2.index := by
  obtain ⟨ahead, pending, index, length⟩ := c
  cases pending with
  | nil => exact absurd rfl more
  | cons o pending =>
    obtain ⟨used, positive, -, stop, -⟩ := Outcome.scanFrom_step position.pending.symm
    change index < o.stop
    dsimp only at stop
    omega

theorem drawn_pending (c : Cursor) (n : Nat) : (c.drawn n).pending = c.pending.drop n := by
  induction n with
  | zero => rfl
  | succ n ih =>
    rw [← List.drop_drop, ← ih, drawn, draw]
    split
    · next nothing => rw [nothing]; rfl
    · next some => rw [some]; rfl

end Cursor

/-- The lexemes of a source tile it: every lexeme spells its own part of the source,
which is not empty, and all between them is gaps. Wherever reading has got to, what is
drawn next is what scanning the source from the index on yields, every draw that does
not report the end moves the index on, failing ones too, and the end is reported from
some draw on, at the latest after as many as the source has characters. -/
theorem scanning_covers (source : Text) :
    (∀ lexemes, tokenize source = .ok lexemes → Covers source 0 lexemes) ∧
      (∀ c, Cursor.Reached source c → c.pending = Outcome.scanFrom c.index (source.drop c.index) ∧
        (c.draw.1 ≠ .ok none → c.index < c.draw.2.index ∧ c.draw.2.index ≤ source.length)) ∧
      ∃ n ≤ source.length, ∀ k, ((Cursor.ofSource source).drawn k).draw.1 = .ok none ↔ n ≤ k := by
  refine ⟨?_, ?_, (Outcome.scan source).length, Outcome.scanFrom_length_le 0 source, ?_⟩
  · intro lexemes read
    obtain ⟨last, tiles⟩ := tokenize_eq_ok.mp read
    exact tiles.covers rfl (Nat.zero_le _)
  · intro c reached
    exact ⟨reached.at.pending, fun more => ⟨reached.at.index_lt more, reached.at.draw.index_le⟩⟩
  · intro k
    rw [Cursor.draw_eq_end_iff, Cursor.drawn_pending]
    exact List.drop_eq_nil_iff

theorem scanning_covers_commented :
    tokenize "a // b\n/* c */-d".toList =
        .ok [⟨.ident ['a'], some 0⟩, ⟨.comment "/* c */".toList, some 7⟩, ⟨.ident ['-', 'd'], some 14⟩] ∧
      Covers "a // b\n/* c */-d".toList 0
        [⟨.ident ['a'], some 0⟩, ⟨.comment "/* c */".toList, some 7⟩, ⟨.ident ['-', 'd'], some 14⟩] ∧
      Cursor.Reached "url(a".toList (Cursor.ofSource "url(a".toList) ∧
      (Cursor.ofSource "url(a".toList).draw.1 ≠ .ok none ∧
      0 < (Cursor.ofSource "url(a".toList).draw.2.index := by
  have read := eq_ok_of_toOption (by decide +kernel : (tokenize "a // b\n/* c */-d".toList).toOption =
    some [⟨.ident ['a'], some 0⟩, ⟨.comment "/* c */".toList, some 7⟩, ⟨.ident ['-', 'd'], some 14⟩])
  have unclosed : (Cursor.ofSource "url(a".toList).draw.1 ≠ .ok none := by
    rw [ne_eq, Cursor.draw_eq_end_iff, ← List.isEmpty_iff]
    decide +kernel
  exact ⟨read, (scanning_covers _).1 _ read, .start, unclosed, ((scanning_covers _).2.1 _ .start).2 unclosed |>.1⟩

end Stylesheet

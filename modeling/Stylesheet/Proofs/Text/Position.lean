import Stylesheet.Text.Position

/-! Positions as names of offsets. A position says how many lines end before an offset and
how far behind the last of these ends the offset is. The lines of a source, each with its
line feed, make up the source, so the offset can be counted back from the position, and the
later of two offsets has the later position. -/
namespace Stylesheet

/-- What stands between the line feeds of a source. -/
def Text.rows (source : Text) : List Text := source.splitOn '\n'

namespace Text

theorem rows_append (front text : Text) : rows (front ++ '\n' :: text) = rows front ++ rows text := by
  simp only [rows, List.splitOn_eq_splitOnP]
  exact List.splitOnP_append_cons front text rfl

theorem rows_of_notMem {row : Text} (flat : '\n' ∉ row) : rows row = [row] := List.splitOn_eq_singleton flat

/-- The last line feed cuts a text into what is before it and one row. -/
theorem exists_last_row (text : Text) : '\n' ∉ text ∨ ∃ front row, text = front ++ '\n' :: row ∧ '\n' ∉ row := by
  by_cases broken : '\n' ∈ text
  · right
    obtain ⟨row, front, cut, flat⟩ := List.eq_append_cons_of_mem (List.mem_reverse.mpr broken)
    refine ⟨front.reverse, row.reverse, ?_, by simpa using flat⟩
    rw [← List.reverse_reverse text, cut]
    simp
  · exact .inl broken

/-- Rows are cut off from the end: the last one stays, and what is before its line feed is
a shorter text. -/
theorem rows_induction {motive : Text → Prop} (last : ∀ row, '\n' ∉ row → motive row)
    (append : ∀ front row, '\n' ∉ row → motive front → motive (front ++ '\n' :: row)) (text : Text) : motive text := by
  rcases exists_last_row text with flat | ⟨front, row, cut, flat⟩
  · exact last text flat
  · rw [cut]
    exact append front row flat (rows_induction last append front)
termination_by text.length
decreasing_by simp [cut]

theorem length_rows (text : Text) : (rows text).length = text.count '\n' + 1 := by
  induction text using rows_induction with
  | last row flat => simp [rows_of_notMem flat, List.count_eq_zero.mpr flat]
  | append front row flat ih =>
    rw [rows_append, rows_of_notMem flat, List.length_append, ih]
    simp [List.count_eq_zero.mpr flat]

def span : List Text → Nat
  | [] => 0
  | row :: rows => row.length + 1 + span rows

theorem span_append (rows more : List Text) : span (rows ++ more) = span rows + span more := by
  induction rows with
  | nil => rw [List.nil_append, span, Nat.zero_add]
  | cons row rows ih => rw [List.cons_append, span, ih, span, Nat.add_assoc (row.length + 1)]

/-- A line feed behind the last row as well makes the rows one longer than the text. -/
theorem span_rows (text : Text) : span (rows text) = text.length + 1 := by
  induction text using rows_induction with
  | last row flat => rw [rows_of_notMem flat, span, span]
  | append front row flat ih =>
    rw [rows_append, rows_of_notMem flat, span_append, ih, span, span, List.length_append, List.length_cons]
    omega

end Text

namespace Position

def behind (before : Text) : Position where
  line := before.count '\n' + 1
  column := (before.reverse.takeWhile (· != '\n')).length + 1

theorem ofOffset_eq (source : Text) (offset : Int) : ofOffset source offset = behind (source.take offset.toNat) := rfl

/-- The offset of a position: the lines before its own, each with its line feed, and the
columns before its own. -/
def toOffset (source : Text) (p : Position) : Nat := Text.span (source.rows.take (p.line - 1)) + (p.column - 1)

/-- Positions in reading order: line by line, and in a line column by column. -/
def Before (p q : Position) : Prop := p.line < q.line ∨ p.line = q.line ∧ p.column < q.column

variable {source row : Text}

theorem column_behind_append (before : Text) (flat : '\n' ∉ row) :
    (behind (before ++ row)).column = (behind before).column + row.length := by
  have all : ∀ c ∈ row.reverse, (c != '\n') = true := by
    intro c member
    rw [bne_iff_ne]
    rintro rfl
    exact flat (List.mem_reverse.mp member)
  simp only [behind, List.reverse_append, List.takeWhile_append_of_pos all, List.length_append, List.length_reverse]
  omega

theorem column_behind_newline (before : Text) : (behind (before ++ ['\n'])).column = 1 := by simp [behind]

theorem line_behind_append (before more : Text) :
    (behind (before ++ more)).line = (behind before).line + more.count '\n' := by
  simp only [behind, List.count_append]
  omega

/-- The rows before the one that a text ends in make up the text, with their line feeds and
with what there is of that row. -/
theorem toOffset_behind (before after : Text) : toOffset (before ++ after) (behind before) = before.length := by
  rcases Text.exists_last_row before with flat | ⟨front, row, rfl, flat⟩
  · have column := column_behind_append [] flat
    have line : (behind before).line = 1 := by simp [behind, List.count_eq_zero.mpr flat]
    rw [List.nil_append] at column
    rw [toOffset, line, column]
    simp [Text.span, behind]
  · have cut : front ++ '\n' :: row = (front ++ ['\n']) ++ row := by simp
    have column : (behind (front ++ '\n' :: row)).column = 1 + row.length := by
      rw [cut, column_behind_append _ flat, column_behind_newline]
    have line : (behind (front ++ '\n' :: row)).line = (Text.rows front).length + 1 := by
      rw [line_behind_append, List.count_cons_self, List.count_eq_zero.mpr flat, Text.length_rows]
      rfl
    have whole : Text.rows (front ++ '\n' :: row ++ after) = Text.rows front ++ Text.rows (row ++ after) := by
      rw [List.append_assoc, List.cons_append, Text.rows_append]
    rw [toOffset, line, column, whole, Nat.add_sub_cancel, List.take_left, Text.span_rows, List.length_append,
      List.length_cons]
    omega

theorem before_behind_append (before : Text) {more : Text} (some : more ≠ []) :
    (behind before).Before (behind (before ++ more)) := by
  by_cases broken : '\n' ∈ more
  · left
    have feeds := List.count_pos_iff.mpr broken
    rw [line_behind_append]
    omega
  · right
    have length := List.length_pos_iff.mpr some
    rw [line_behind_append, column_behind_append before broken, List.count_eq_zero.mpr broken]
    omega

/-- An offset can be counted back from its position. -/
theorem toOffset_ofOffset {offset : Int} (least : 0 ≤ offset) (most : offset ≤ source.length) :
    (toOffset source (ofOffset source offset) : Int) = offset := by
  have counted := toOffset_behind (source.take offset.toNat) (source.drop offset.toNat)
  rw [List.take_append_drop, List.length_take] at counted
  rw [ofOffset_eq, counted]
  omega

theorem before_ofOffset {m n : Int} (least : 0 ≤ m) (less : m < n) (most : n ≤ source.length) :
    (ofOffset source m).Before (ofOffset source n) := by
  have cut : source.take n.toNat = source.take m.toNat ++ (source.drop m.toNat).take (n.toNat - m.toNat) := by
    rw [← List.take_add]
    congr 1
    omega
  rw [ofOffset_eq, ofOffset_eq, cut]
  apply before_behind_append
  rw [← List.length_pos_iff, List.length_take, List.length_drop]
  omega

/-- Line and column of an offset count the line feeds before it and what stands behind the
last of them, so offsets of the source are told apart by their positions and come in the
same order; an offset outside the source has the position of its nearest end. -/
theorem ofOffset_identifies (source : Text) :
    (∀ offset : Int, 0 ≤ offset → offset ≤ source.length →
      (ofOffset source offset).line = (source.take offset.toNat).count '\n' + 1 ∧
        1 ≤ (ofOffset source offset).column ∧ toOffset source (ofOffset source offset) = offset) ∧
    (∀ m n : Int, 0 ≤ m → m ≤ source.length → 0 ≤ n → n ≤ source.length →
      ofOffset source m = ofOffset source n → m = n) ∧
    (∀ m n : Int, 0 ≤ m → m < n → n ≤ source.length → (ofOffset source m).Before (ofOffset source n)) ∧
    (∀ offset < 0, ofOffset source offset = ofOffset source 0) ∧
    ∀ offset > (source.length : Int), ofOffset source offset = ofOffset source source.length := by
  refine ⟨?_, ?_, fun m n => before_ofOffset, ?_, ?_⟩
  · intro offset least most
    exact ⟨rfl, Nat.succ_pos _, toOffset_ofOffset least most⟩
  · intro m n leastM mostM leastN mostN same
    rw [← toOffset_ofOffset leastM mostM, same, toOffset_ofOffset leastN mostN]
  · intro offset negative
    rw [ofOffset_eq, Int.toNat_of_nonpos (by omega)]
    rfl
  · intro offset past
    rw [ofOffset_eq, ofOffset_eq, List.take_of_length_le (by omega), List.take_of_length_le (by omega)]

/-- On a line feed, just behind it and at the end of a source. -/
theorem ofOffset_identifies_twoRows :
    ofOffset "ab\nc".toList 2 = ⟨1, 3⟩ ∧ ofOffset "ab\nc".toList 3 = ⟨2, 1⟩ ∧ ofOffset "ab\nc".toList 4 = ⟨2, 2⟩ ∧
      toOffset "ab\nc".toList ⟨2, 2⟩ = 4 ∧ (ofOffset "ab\nc".toList 2).Before (ofOffset "ab\nc".toList 3) ∧
      ofOffset "ab\nc".toList 9 = ofOffset "ab\nc".toList 4 ∧ ofOffset "ab\nc".toList (-1) = ⟨1, 1⟩ := by
  obtain ⟨counts, -, increases, low, high⟩ := ofOffset_identifies "ab\nc".toList
  have last : toOffset "ab\nc".toList (ofOffset "ab\nc".toList 4) = (4 : Int) := (counts 4 (by decide) (by decide)).2.2
  exact ⟨rfl, rfl, rfl, Int.ofNat.inj last, increases 2 3 (by decide) (by decide) (by decide), high 9 (by decide),
    low (-1) (by decide)⟩

end Position

end Stylesheet

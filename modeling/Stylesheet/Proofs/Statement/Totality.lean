import Stylesheet.Proofs.Statement.Errors
import Stylesheet.Proofs.Statement.Reading

/-! Parsing always ends, with the statements of the source or with a syntax error. A round
that goes on has taken a lexeme at least, so the rounds come to an end. What a round looked
ahead at is still there when it is taken. -/
namespace Stylesheet

namespace Cursor

variable {c c' : Cursor} {op : Operator}

theorem boundary_stream {found : Option Operator} (searched : c.boundary = (.ok found, c')) :
    c'.stream = c.stream := by
  have yields := c.yields_boundary
  rw [searched] at yields
  obtain ⟨taken, passes, rfl, -⟩ := yields
  exact passes.stream.symm

theorem mem_of_findBoundary {depth : Nat} {ls : List Lexeme} (found : findBoundary depth ls = .inl op) :
    ∃ l ∈ ls, l.isOp op = true := by
  fun_induction findBoundary depth ls with
  | case1 => cases found
  | case2 l rest op' bound =>
    cases found
    exact ⟨l, List.mem_cons_self, Lexeme.isOp_iff.mpr (Lexeme.token_of_boundary? bound).1⟩
  | case3 depth l rest inside ih =>
    obtain ⟨l', member, isOp⟩ := ih found
    exact ⟨l', List.mem_cons_of_mem l member, isOp⟩

/-- A boundary that has been found is in view. -/
theorem mem_of_boundary (found : c.boundary = (.ok (some op), c')) : ∃ l ∈ c'.ahead, l.isOp op = true :=
  mem_of_findBoundary (findBoundary_of_boundary found)

/-- Takes lexemes one by one up to an opening brace, which is taken too. None if the
source ends before it. -/
def upToBrace (c : Cursor) : Except Failure (Option (List Lexeme)) × Cursor :=
  match _ : c.next with
  | (.error failure, c') => (.error failure, c')
  | (.ok none, c') => (.ok none, c')
  | (.ok (some l), c') =>
    if l.isOp .leftBrace then (.ok (some []), c')
    else
      let (result, c'') := upToBrace c'
      (result.map (·.map (l :: ·)), c'')
termination_by c.size
decreasing_by exact next_size_lt ‹_› (by simp)

theorem upToBrace_of_next {l : Lexeme} (taken : c.next = (.ok (some l), c')) :
    c.upToBrace =
      if l.isOp .leftBrace then (.ok (some []), c')
      else
        let (result, c'') := c'.upToBrace
        (result.map (·.map (l :: ·)), c'') := by
  rw [upToBrace.eq_def]
  split <;> next taken' => cases taken.symm.trans taken' <;> rfl

/-- A brace in view is come to before the end of the source. -/
theorem upToBrace_of_view (inView : ∃ l ∈ c.ahead, l.isOp .leftBrace = true) :
    c.upToBrace = (.ok (some (c.ahead.takeWhile (!·.isOp .leftBrace))),
      { c with ahead := (c.ahead.dropWhile (!·.isOp .leftBrace)).tail }) := by
  obtain ⟨ahead, pending, index, length⟩ := c
  dsimp only at inView ⊢
  induction ahead with
  | nil =>
    obtain ⟨l, member, -⟩ := inView
    cases member
  | cons l ahead ih =>
    have taken : next ⟨l :: ahead, pending, index, length⟩ = (.ok (some l), ⟨ahead, pending, index, length⟩) := rfl
    rw [upToBrace_of_next taken]
    by_cases brace : l.isOp .leftBrace = true
    · rw [if_pos brace, List.takeWhile_cons_of_neg (by simp [brace]), List.dropWhile_cons_of_neg (by simp [brace])]
      rfl
    · have later : ∃ l ∈ ahead, l.isOp .leftBrace = true := by
        obtain ⟨l', member, isOp⟩ := inView
        rcases List.mem_cons.mp member with rfl | member
        · exact absurd isOp brace
        · exact ⟨l', member, isOp⟩
      rw [if_neg brace, ih later, List.takeWhile_cons_of_pos (by simp [brace]),
        List.dropWhile_cons_of_pos (by simp [brace])]
      rfl

end Cursor

namespace Parser

variable {topLevel : Bool} {blocks blocks' : List Block} {body body' : List Statement} {p q q' : Parser}
  {l : Lexeme}

/-- A round that goes on has taken lexemes from the front of the stream, one at
least. -/
theorem round_takes (read : round topLevel blocks body p = .ok (.reading blocks' body') q) :
    ∃ (first : Lexeme) (more : List Lexeme), p.cursor.stream = (first :: more).map .ok ++ q.cursor.stream := by
  obtain ⟨taken, passes, nonempty, -⟩ := (leads_round topLevel blocks body p).ok read
  obtain ⟨first, more, rfl⟩ := List.exists_cons_of_ne_nil nonempty
  exact ⟨first, more, passes.stream⟩

theorem stream_of_peek (seen : peek p = .ok (some l) q) : ∃ rest, q.cursor.stream = .ok l :: rest := by
  obtain ⟨-, view, -⟩ := peek_ok seen
  obtain ⟨ahead, view⟩ := List.head?_eq_some_iff.mp view.symm
  rw [Cursor.stream, view]
  exact ⟨_, rfl⟩

theorem stream_of_boundary {found : Option Operator} (seen : peek p = .ok (some l) q)
    (searched : reading Cursor.boundary q = .ok found q') : ∃ rest, q'.cursor.stream = .ok l :: rest := by
  rw [Cursor.boundary_stream (reading_ok searched)]
  exact stream_of_peek seen

/-- What a round of the open bodies relies on: if it goes on it has taken a lexeme, the
first lexeme of an at-rule or a declaration is there to be taken, and a selector comes to
its brace. -/
structure Provided (topLevel : Bool) (blocks : List Block) (body : List Statement) (p : Parser) : Prop where
  takes : ∀ blocks' body' q, round topLevel blocks body p = .ok (.reading blocks' body') q →
    ∃ (first : Lexeme) (more : List Lexeme), p.cursor.stream = (first :: more).map .ok ++ q.cursor.stream
  keyword : ∀ l q, peek p = .ok (some l) q → ∃ q', take q = .ok (some l) q'
  name : ∀ l q found q', peek p = .ok (some l) q → reading Cursor.boundary q = .ok found q' →
    ∃ q'', (do switch .properties; take) q' = .ok (some l) q''
  selector : ∀ l q q', peek p = .ok (some l) q → reading Cursor.boundary q = .ok (some .leftBrace) q' →
    ∃ ls q'', (do switch .selectors; takeSelector) q' = .ok ls q'' ∧
      q'.cursor.upToBrace = (.ok (some ls), q''.cursor)

theorem provided (topLevel : Bool) (blocks : List Block) (body : List Statement) (p : Parser) :
    Provided topLevel blocks body p where
  takes _ _ _ read := round_takes read
  keyword l q seen := by
    obtain ⟨rest, stream⟩ := stream_of_peek seen
    obtain ⟨q', taken, -⟩ := take_of_stream stream
    exact ⟨q', taken⟩
  name l q found q' seen searched := by
    obtain ⟨rest, stream⟩ := stream_of_boundary seen searched
    obtain ⟨s, switched, cursor, -⟩ := switch_eq .properties q'
    rw [← cursor] at stream
    obtain ⟨q'', taken, -⟩ := take_of_stream stream
    exact ⟨q'', (bind_of_ok switched).trans taken⟩
  selector l q q' seen searched := by
    obtain ⟨s, switched, cursor, -⟩ := switch_eq .selectors q'
    refine ⟨_, _, (bind_of_ok switched).trans (takeSelector_eq s), ?_⟩
    rw [Cursor.upToBrace_of_view (Cursor.mem_of_boundary (reading_ok searched)), ← cursor]
    rfl

end Parser

/-- Parsing a source comes to its last round, which gives the statements of the source or
fails with an error of scanning or parsing. Every round on the way finds what it relies
on: one that goes on takes a lexeme at least, the first lexeme of an at-rule or a
declaration is there, and a selector that is taken lexeme by lexeme comes to its brace
before the source ends. -/
theorem parse_total (source : Text) :
    (∃ blocks body p, Parser.Reaches true [] [] (Parser.start source) blocks body p ∧
      ((∃ ss q, Parser.round true blocks body p = .ok (.finished ss) q ∧ (parse source).result = .ok ss) ∨
        ∃ cause offset q, Parser.round true blocks body p = .error (.error cause offset) q ∧
          (parse source).result = .error (.error cause offset) ∧
            (cause.stage = .lexing ∨ cause.stage = .parsing))) ∧
      ∀ blocks body p, Parser.Reaches true [] [] (Parser.start source) blocks body p →
        Parser.Provided true blocks body p := by
  refine ⟨?_, fun blocks body p _ => Parser.provided true blocks body p⟩
  obtain ⟨blocks, body, p, path, last⟩ := Parser.exists_last_round true [] [] (Parser.start source)
  refine ⟨blocks, body, p, path, ?_⟩
  rcases last with ⟨ss, q, finished, ran⟩ | ⟨failure, q, failed, ran⟩
  · exact .inl ⟨ss, q, finished, parse_of_rounds ran⟩
  · have result : (parse source).result = .error failure := by
      rw [parse_result, ran]
      rfl
    have isSyntax := parse_error result
    cases failure with
    | error cause offset => exact .inr ⟨cause, offset, q, failed, result, isSyntax⟩
    | _ => exact isSyntax.elim

end Stylesheet

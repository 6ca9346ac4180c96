import Stylesheet.Proofs.Statement.Errors
import Stylesheet.Proofs.Statement.Shift

/-! Sources one behind the other. Where the first is parsed, the second is parsed from
its end on as it is alone: at the outermost level, with nothing in view and no rule open. -/
namespace Stylesheet

/-- Behind a source that is parsed and a line break, more input is parsed as it is
alone, but further back and behind the statements that are there already. -/
theorem parse_append {source : Text} {ss : List Statement} (parsed : (parse source).result = .ok ss) (more : Text) :
    (parse (source ++ '\n' :: more)).result =
      shifted (source.length + 1) (ss ++ ·.map (Statement.shift (source.length + 1))) (parse more).result := by
  obtain ⟨q, path, ahead, pending⟩ := parse_reaches parsed more
  have skipped : Scan.skipTrivia false (['\n'] ++ more) = Scan.skipTrivia false more := rfl
  have start : Parser.At 0 (source ++ '\n' :: more).length (Parser.start (source ++ '\n' :: more)) := ⟨rfl, rfl⟩
  obtain ⟨depth, length⟩ := (Parser.preserves_at true _).reaches path start
  have length : q.cursor.length = more.length + (source.length + 1) := by
    rw [length, List.length_append, List.length_cons]
    omega
  have moved : Parser.Shifted (source.length + 1) (Parser.start more) q :=
    ⟨Cursor.shifted_ofSource _ more ahead (pending.trans (Outcome.scanFrom_gap skipped)) length, depth⟩
  have ran := (Parser.moves_rounds ss true [] [] _ q moved).result_eq
  have nothing : Parser.placed (source.length + 1) ss [] [] = ss := List.append_nil ss
  rw [nothing] at ran
  rw [parse_result, path.rounds_eq, parse_result]
  exact ran

/-- Further lines leave the statements of a source as they are. -/
theorem parse_initial {source more : Text} {ss all : List Statement}
    (parsed : (parse source).result = .ok ss) (both : (parse (source ++ '\n' :: more)).result = .ok all) :
    ss <+: all := by
  rw [parse_append parsed] at both
  cases parsed' : (parse more).result with
  | ok ss' =>
    rw [parsed'] at both
    cases both
    exact List.prefix_append _ _
  | error failure =>
    rw [parsed'] at both
    cases both

/-- Let a source be parsed. With a line break and more input behind it, the whole is
parsed exactly where that input alone is. Its statements are then those of the source,
followed by those of the input with every offset greater by the length of what stands
before them and all else the same. Where the input alone is an error, the whole is the
same error, of the same stage, kind and message. -/
theorem parse_append_newline {source : Text} {ss : List Statement} (parsed : (parse source).result = .ok ss)
    (more : Text) :
    ((∃ all, (parse (source ++ '\n' :: more)).result = .ok all) ↔ ∃ ss', (parse more).result = .ok ss') ∧
      (∀ ss', (parse more).result = .ok ss' →
        (parse (source ++ '\n' :: more)).result = .ok (ss ++ ss'.map (Statement.shift (source.length + 1)))) ∧
      ∀ failure, (parse more).result = .error failure →
        ∃ cause offset, failure = .error cause offset ∧
          (parse (source ++ '\n' :: more)).result =
            .error (.error cause (offset.map (· + ((source.length + 1 : Nat) : Int)))) := by
  rw [parse_append parsed]
  refine ⟨⟨?_, ?_⟩, ?_, ?_⟩
  · rintro ⟨all, both⟩
    cases alone : (parse more).result with
    | ok ss' => exact ⟨ss', rfl⟩
    | error failure =>
      rw [alone] at both
      cases both
  · rintro ⟨ss', alone⟩
    rw [alone]
    exact ⟨_, rfl⟩
  · intro ss' alone
    rw [alone]
    rfl
  · intro failure alone
    have isSyntax := parse_error alone
    cases failure with
    | error cause offset =>
      rw [alone]
      exact ⟨cause, offset, rfl, rfl⟩
    | _ => exact isSyntax.elim

/-- The first line ends with a comment that would go on in the second, which has a rule
inside a rule; cut off, the second is an error at the end of the whole. -/
theorem parse_append_newline_commented :
    ∃ ss ss', (parse "$a: 1px; //-".toList).result = .ok ss ∧
      (parse "b \x7b c \x7b d: $a \x7d \x7d".toList).result = .ok ss' ∧
      (parse ("$a: 1px; //-".toList ++ '\n' :: "b \x7b c \x7b d: $a \x7d \x7d".toList)).result =
        .ok (ss ++ ss'.map (Statement.shift 13)) ∧
      (parse "b \x7b c \x7b".toList).result = .error (.error (.endBefore .rightBrace .endOfRule) (some 7)) ∧
      (parse ("$a: 1px; //-".toList ++ '\n' :: "b \x7b c \x7b".toList)).result =
        .error (.error (.endBefore .rightBrace .endOfRule) (some 20)) := by
  obtain ⟨ss, parsed⟩ : ∃ ss, (parse "$a: 1px; //-".toList).result = .ok ss := exists_of_isOk (by decide +kernel)
  obtain ⟨ss', alone⟩ : ∃ ss', (parse "b \x7b c \x7b d: $a \x7d \x7d".toList).result = .ok ss' :=
    exists_of_isOk (by decide +kernel)
  have cut : (parse "b \x7b c \x7b".toList).result = .error (.error (.endBefore .rightBrace .endOfRule) (some 7)) :=
    eq_error_of_failure? (by decide +kernel)
  refine ⟨ss, ss', parsed, alone, (parse_append_newline parsed _).2.1 ss' alone, cut, ?_⟩
  obtain ⟨cause, offset, same, failed⟩ := (parse_append_newline parsed _).2.2 _ cut
  cases same
  exact failed

end Stylesheet

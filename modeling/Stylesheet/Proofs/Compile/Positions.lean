import Stylesheet.Proofs.Compile.Stages
import Stylesheet.Proofs.Lexeme.Scanning
import Stylesheet.Proofs.Node.Faults

/-! Where compile errors stand. A lexeme keeps the start of its token through parsing, in
the expressions of statements, on the stacks of evaluation and in the mixins of a scope, so
whatever is found wrong later is found wrong at a token of the source, at its end or at no
place at all. -/
namespace Stylesheet

/-- The offset is the start of a token that is drawn from the source, or missing. -/
def TokenAt (source : Text) (offset : Option Int) : Prop :=
  offset = none ∨ ∃ o ∈ Outcome.drawn (Outcome.scan source), offset = some (o.start : Int)

/-- A compile error is the one that the lexer meets at the first malformed token; or it is
one of another stage and stands at a token, at the end of the source or nowhere. -/
def Failure.StandsIn (source : Text) : Failure → Prop
  | .error cause offset =>
    (∃ o ∈ Outcome.drawn (Outcome.scan source), o.result = .error cause ∧ offset = some (o.start : Int)) ∨
      cause.stage ≠ .lexing ∧ (offset = some (source.length : Int) ∨ TokenAt source offset)
  | _ => True

variable {source : Text}

theorem start_lt_of_mem_drawn {o : Outcome} (member : o ∈ Outcome.drawn (Outcome.scan source)) :
    o.start < source.length := by
  have inside := (Outcome.exists_read (Outcome.drawn_subset _ member)).2.2
  rwa [Nat.zero_add] at inside

theorem reads_of_mem_drawn {o : Outcome} (member : o ∈ Outcome.drawn (Outcome.scan source)) :
    o.Reads (fun l => TokenAt source l.offset) (Failure.StandsIn source) := by
  constructor
  · intro l read
    exact .inr ⟨o, member, (Outcome.result_of_lexeme read).2⟩
  · intro failure failed
    obtain ⟨cause, result, rfl⟩ := Outcome.cause_of_lexeme failed
    exact .inl ⟨o, member, result, rfl⟩

/-- Parsing fails in the source, and what it reads stands there. -/
theorem ensures_parse_standsIn (source : Text) :
    Traced.Ensures (Failure.StandsIn source) (fun ss => ∀ s ∈ Statement.nodesAll ss, s.Placed (TokenAt source))
      (parse source) := by
  have other {cause : Cause} (own : cause.stage = .parsing) : cause.stage ≠ .lexing := by simp [own]
  have admits : Parser.Admits (fun l => TokenAt source l.offset) (Failure.StandsIn source) :=
    ⟨fun here own => .inr ⟨other own, .inr here⟩, fun own => .inr ⟨other own, .inr (.inl rfl)⟩⟩
  have each : (Cursor.ofSource source).Each (fun l => TokenAt source l.offset) (Failure.StandsIn source) :=
    Cursor.each_ofSource (fun _ => reads_of_mem_drawn) fun _ own => .inr ⟨other own, .inl rfl⟩
  exact (ensures_parse admits each).mono fun ss drawn s member => (drawn s member).placed (.inl rfl)

theorem Cause.stage_of_isReported {cause : Cause} (own : cause.isReported = true) : cause.stage ≠ .lexing := by
  unfold isReported at own
  split at own
  · cases own
  · intro lexing
    rw [lexing] at own
    cases own

theorem Failure.admits_standsIn (source : Text) (precision : Int) :
    Admits (StandsIn source) (TokenAt source) precision where
  error own here := .inr ⟨Cause.stage_of_isReported own, .inr here⟩
  nowhere := .inl rfl
  spelled _ _ _ := trivial
  shown _ _ _ := trivial
  converted _ := trivial

theorem compile_standsIn (source : Text) (style : Style) (precision : Int) :
    FailsAs (Failure.StandsIn source) (compile source style precision).result := by
  obtain ⟨syntactic, placed⟩ := ensures_parse_standsIn source
  have admits := Failure.admits_standsIn source precision
  rw [compile_result]
  refine FailsAs.bind syntactic fun ss parsed => FailsAs.bind ?_ fun nodes _ => ?_
  · exact failsAs_resolve admits trivial (placed ss parsed)
  · exact failsAs_render admits.spelled style _

/-- The error of a name that is no style stands nowhere. -/
theorem ofName_standsIn (source name : Text) : FailsAs (Failure.StandsIn source) (Style.ofName name) := by
  unfold Style.ofName
  split
  · exact failsAs_ok _
  · exact failsAs_error (.inr ⟨by simp [Cause.stage], .inr (.inl rfl)⟩)

theorem Failure.StandsIn.position {cause : Cause} {offset : Option Int}
    (stands : (Failure.error cause offset).StandsIn source) :
    offset.getD 0 = 0 ∨ offset.getD 0 = source.length ∨
      ∃ o ∈ Outcome.drawn (Outcome.scan source), offset.getD 0 = o.start := by
  rcases stands with ⟨o, member, -, rfl⟩ | ⟨-, rfl | rfl | ⟨o, member, rfl⟩⟩
  · exact .inr (.inr ⟨o, member, rfl⟩)
  · exact .inr (.inl rfl)
  · exact .inl rfl
  · exact .inr (.inr ⟨o, member, rfl⟩)

theorem bounds_of_position {n : Int} (position : n = 0 ∨ n = source.length ∨
    ∃ o ∈ Outcome.drawn (Outcome.scan source), n = o.start) : 0 ≤ n ∧ n ≤ source.length := by
  rcases position with rfl | rfl | ⟨o, member, rfl⟩
  · omega
  · omega
  · have before := start_lt_of_mem_drawn member
    omega

/-- The offset of every reported error is a position of the source, in each style and for
each name of a style: zero, the end, or the start of a token that is read before the first
malformed one or is that one. An error of the lexer is the one it met at that token. -/
theorem diagnostic_stands_in_source {precision : Int} {failure : Failure} {d : Diagnostic}
    (failed : (∃ style, (compile source style precision).result = .error failure) ∨
      ∃ name, (do (compile source (← Style.ofName name) precision).result) = .error failure)
    (reported : failure.diagnostic? = some d) :
    (d.offset = 0 ∨ d.offset = source.length ∨ ∃ o ∈ Outcome.drawn (Outcome.scan source), d.offset = o.start) ∧
      0 ≤ d.offset ∧ d.offset ≤ source.length ∧
      (d.stage = .lexing → ∃ o ∈ Outcome.drawn (Outcome.scan source), ∃ cause, o.result = .error cause ∧
        failure = .error cause (some (o.start : Int))) := by
  have stands : failure.StandsIn source := by
    rcases failed with ⟨style, failed⟩ | ⟨name, failed⟩
    · exact compile_standsIn source style precision failure failed
    · refine FailsAs.bind (ofName_standsIn source name) (fun style _ => ?_) failure failed
      exact compile_standsIn source style precision
  cases failure with
  | error cause offset =>
    cases reported
    obtain ⟨least, most⟩ := bounds_of_position stands.position
    refine ⟨stands.position, least, most, fun lexing => ?_⟩
    rcases stands with ⟨o, member, read, rfl⟩ | ⟨other, -⟩
    · exact ⟨o, member, cause, read, rfl⟩
    · exact absurd lexing other
  | _ => cases reported

def clashingDefault : Text := "@mixin m($a: 1px*2em) \x7bb: $a\x7dc \x7b@include m;\x7d".toList

/-- The clash is found while a call is expanded, and reported at the product. -/
theorem diagnostic_stands_at_product :
    ∃ failure d, (compile clashingDefault .nested 5).result = .error failure ∧ failure.diagnostic? = some d ∧
      d.offset = 16 ∧ ∃ o ∈ Outcome.drawn (Outcome.scan clashingDefault), d.offset = o.start := by
  have failed := eq_error_of_failure? (by decide +kernel : failure? (compile clashingDefault .nested 5).result =
    some (.error (.unitMismatch "px".toList "em".toList) (some 16)))
  refine ⟨_, _, failed, rfl, rfl, ?_⟩
  obtain ⟨first | last | token, -⟩ := diagnostic_stands_in_source (.inl ⟨_, failed⟩) rfl
  · cases first
  · exact absurd last (by decide +kernel)
  · exact token

end Stylesheet

import Stylesheet.Statement.Steps

/-! Parsing of whole bodies. Rounds repeat until a body is finished; each round before
that takes at least one lexeme, so there is less left to read. -/
namespace Stylesheet

namespace Parser

/-- A round that goes on has taken a lexeme. -/
theorem round_size_lt {topLevel : Bool} {blocks blocks' : List Block} {body body' : List Statement}
    {p p' : Parser} (h : round topLevel blocks body p = .ok (.reading blocks' body') p') :
    p'.cursor.size < p.cursor.size := by
  obtain ⟨taken, passes, nonempty, -⟩ := (leads_round topLevel blocks body p).ok h
  rw [← Cursor.stream_length, ← Cursor.stream_length, passes.stream, List.length_append, List.length_map]
  have some := List.length_pos_iff.mpr nonempty
  omega

/-- Rounds until the body is finished. -/
def rounds (topLevel : Bool) (blocks : List Block) (body : List Statement) (p : Parser) :
    EStateM.Result Failure Parser (List Statement) :=
  match _ : round topLevel blocks body p with
  | .error failure p' => .error failure p'
  | .ok (.finished body) p' => .ok body p'
  | .ok (.reading blocks body) p' => rounds topLevel blocks body p'
termination_by p.cursor.size
decreasing_by exact round_size_lt ‹_›

/-- A body: at the top level up to the end of the source, else up to the brace that
closes it. -/
def body (topLevel : Bool) : Parse (List Statement) := rounds topLevel [] []

end Parser

/-- The statements of a source. -/
def parse (source : Text) : Traced (List Statement) :=
  match (do Parser.report .parsingStylesheet; Parser.body true) (Parser.ofSource source) with
  | .ok statements p => ⟨p.events.reverse, .ok statements⟩
  | .error failure p => ⟨p.events.reverse, .error failure⟩

end Stylesheet

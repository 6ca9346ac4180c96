import Stylesheet.Proofs.Statement.Items

/-! What parsing makes of lexemes. A round puts the lexemes it takes into the expressions
of its statement and fails at their offsets, or with the error that it draws. So what
holds of every lexeme up to the first error of a scan holds of every lexeme in the
expressions of a parsed source, at any depth, and what holds of the errors at such lexemes
holds of every error of the parser. -/
namespace Stylesheet

namespace Statement

/-- The expressions of a statement itself, those of its body apart. -/
def expressions : Statement → List Expression
  | .property _ _ value | .assignment _ _ value _ _ => [value]
  | .mixin _ parameters _ => parameters.filterMap (·.default)
  | .call _ arguments _ => arguments.map (·.value)
  | .rule .. | .comment _ => []

def Worded (P : Lexeme → Prop) (s : Statement) : Prop := ∀ e ∈ s.expressions, ∀ l ∈ e, P l

def offset : Statement → Option Int
  | .property _ offset _ | .assignment _ offset _ _ _ | .call _ _ offset => offset
  | .mixin .. | .rule .. | .comment _ => none

/-- The statement is made of lexemes as `P` says, and stands where one of them does. -/
structure Drawn (P : Lexeme → Prop) (s : Statement) : Prop where
  worded : s.Worded P
  stands : ∀ index ∈ s.offset, ∃ l, P l ∧ l.offset = some index

end Statement

/-- An expression stands where its first lexeme does, or nowhere. -/
theorem Expression.at_offset {At : Option Int → Prop} (nowhere : At none) {e : Expression}
    (inside : ∀ l ∈ e, At l.offset) : At e.offset := by
  cases e with
  | nil => exact nowhere
  | cons l e => exact inside l List.mem_cons_self

namespace Outcome

/-- The outcomes that are drawn before a scan fails, and the error it fails with. -/
def drawn : List Outcome → List Outcome
  | [] => []
  | o :: rest =>
    match o.lexeme with
    | .ok _ => o :: drawn rest
    | .error _ => [o]

theorem drawn_cons {o : Outcome} {l : Lexeme} (read : o.lexeme = .ok l) (rest : List Outcome) :
    drawn (o :: rest) = o :: drawn rest := by
  rw [drawn, read]

theorem mem_drawn_self (o : Outcome) (rest : List Outcome) : o ∈ drawn (o :: rest) := by
  rw [drawn]
  split <;> exact List.mem_cons_self

theorem drawn_subset (os : List Outcome) : drawn os ⊆ os := by
  induction os with
  | nil => exact List.Subset.refl _
  | cons o os ih =>
    rw [drawn]
    split
    · exact List.cons_subset_cons o ih
    · exact List.cons_subset_cons o (List.nil_subset _)

/-- What is drawn is a lexeme as `P` says or an error as `F` says. -/
def Reads (P : Lexeme → Prop) (F : Failure → Prop) (o : Outcome) : Prop :=
  (∀ l, o.lexeme = .ok l → P l) ∧ FailsAs F o.lexeme

end Outcome

variable {P : Lexeme → Prop} {F : Failure → Prop}

/-- What is read of outcomes before the first error is as `P` says, and that error as `F`
says. -/
theorem Outcome.reads_of_drawn {os : List Outcome} (all : ∀ o ∈ drawn os, o.Reads P F) {read : List Lexeme}
    {rest : List (Except Failure Lexeme)} (split : os.map Outcome.lexeme = read.map .ok ++ rest) :
    (∀ l ∈ read, P l) ∧ ∀ failure more, rest = .error failure :: more → F failure := by
  induction os generalizing read with
  | nil =>
    obtain ⟨nothing, rfl⟩ := List.append_eq_nil_iff.mp split.symm
    rw [List.map_eq_nil_iff.mp nothing]
    exact ⟨by simp, by simp⟩
  | cons o os ih =>
    cases read with
    | nil =>
      refine ⟨by simp, fun failure more error => ?_⟩
      rw [error] at split
      exact (all o (mem_drawn_self o os)).2 failure (List.cons.inj split).1
    | cons l read =>
      obtain ⟨here, there⟩ := List.cons.inj split
      rw [drawn_cons here, List.forall_mem_cons] at all
      obtain ⟨others, failure⟩ := ih all.2 there
      exact ⟨List.forall_mem_cons.mpr ⟨all.1.1 l here, others⟩, failure⟩

namespace Cursor

/-- Every lexeme that can be read before an error is as `P` says, and the error, or one
that the parser finds at the end of the source, is as `F` says. -/
structure Each (P : Lexeme → Prop) (F : Failure → Prop) (c : Cursor) : Prop where
  lexemes {read : List Lexeme} {rest : List (Except Failure Lexeme)} : c.stream = read.map .ok ++ rest → ∀ l ∈ read, P l
  failure {read : List Lexeme} {failure : Failure} {rest : List (Except Failure Lexeme)} :
    c.stream = read.map .ok ++ .error failure :: rest → F failure
  atEnd {cause : Cause} : cause.stage = .parsing → F (.error cause (some c.length))

theorem each_ofSource {source : Text} (scanned : ∀ o ∈ Outcome.drawn (Outcome.scan source), o.Reads P F)
    (atEnd : ∀ cause : Cause, cause.stage = .parsing → F (.error cause (some source.length))) :
    (ofSource source).Each P F where
  lexemes split := (Outcome.reads_of_drawn scanned split).1
  failure split := (Outcome.reads_of_drawn scanned split).2 _ _ rfl
  atEnd := atEnd _

theorem Each.passes {c c' : Cursor} {taken : List Lexeme} (each : c.Each P F) (passes : c.Passes taken c') :
    c'.Each P F where
  lexemes split l member := each.lexemes (passes.read split) l (List.mem_append_right taken member)
  failure split := each.failure (passes.read split)
  atEnd := by
    rw [passes.length]
    exact each.atEnd

end Cursor

/-- What is read from lexemes as `P` says is made of such lexemes. -/
theorem Statement.ReadFrom.drawn {inRoot : Bool} {taken : List Lexeme} {s : Statement} (read : s.ReadFrom inRoot taken)
    (good : ∀ l ∈ taken, P l) : s.Drawn P := by
  have part {e : List Lexeme} (written : e.Sublist taken) : ∀ l ∈ e, P l :=
    fun l member => good l (written.subset member)
  cases read with
  | property named isValue written inside =>
    obtain ⟨first, others⟩ := List.forall_mem_cons.mp (part written)
    exact ⟨List.forall_mem_singleton.mpr others, fun _ same => ⟨_, first, same⟩⟩
  | assignment named isValue noFlag written =>
    obtain ⟨first, others⟩ := List.forall_mem_cons.mp (part written)
    exact ⟨List.forall_mem_singleton.mpr others, fun _ same => ⟨_, first, same⟩⟩
  | comment here => exact ⟨by simp [Worded, expressions], by simp [offset]⟩
  | call here values written =>
    refine ⟨fun e member l inside => ?_, fun _ same => ⟨_, good _ here, same⟩⟩
    obtain ⟨argument, passed, rfl⟩ := List.mem_map.mp member
    exact part written l (List.mem_flatMap.mpr ⟨argument, passed, inside⟩)

namespace Parser

/-- `F` holds of the errors that the parser finds at a lexeme as `P` says, or nowhere. -/
structure Admits (P : Lexeme → Prop) (F : Failure → Prop) : Prop where
  here {l : Lexeme} {cause : Cause} : P l → cause.stage = .parsing → F (.error cause l.offset)
  nowhere {cause : Cause} : cause.stage = .parsing → F (.error cause none)

theorem Meets.admitted {c : Cursor} {failure : Failure} (meets : Meets [] c failure) (admits : Admits P F)
    (each : c.Each P F) : F failure := by
  cases meets with
  | drawn read stream => exact each.failure stream
  | found read stream here own => exact admits.here (each.lexemes stream _ here) own
  | atEnd own => exact each.atEnd own
  | nowhere own => exact admits.nowhere own

theorem Opening.ReadFrom.drawn {depth : Nat} {taken : List Lexeme} {opening : Opening}
    (head : opening.ReadFrom depth taken) (good : ∀ l ∈ taken, P l) (body : List Statement) :
    (opening.statement body).Drawn P := by
  cases head with
  | rule named =>
    exact ⟨by simp [statement, Statement.Worded, Statement.expressions], by simp [statement, Statement.offset]⟩
  | mixin defaults written =>
    refine ⟨fun e member l inside => ?_, by simp [statement, Statement.offset]⟩
    obtain ⟨parameter, declared, default⟩ := List.mem_filterMap.mp member
    refine good l (written.subset (List.mem_flatMap.mpr ⟨parameter, declared, ?_⟩))
    rwa [default]

theorem preserves_drawn (P : Lexeme → Prop) (F : Failure → Prop) (topLevel : Bool) :
    Preserves topLevel fun blocks body p => p.cursor.Each P F ∧ Every (Statement.Drawn P) blocks body := by
  intro blocks body p taken blocks' body' q start passes advance
  obtain ⟨each, every⟩ := start
  have good := each.lexemes passes.stream
  exact ⟨each.passes passes, advance.every every (fun _ _ read => read.drawn good) fun _ head => head.drawn good⟩

end Parser

/-- What holds of every lexeme that is drawn from a source holds of every lexeme in its
statements, and parsing fails as drawing does or with an error at such a lexeme. -/
theorem ensures_parse {source : Text} (admits : Parser.Admits P F) (each : (Cursor.ofSource source).Each P F) :
    Traced.Ensures F (fun ss => ∀ s ∈ Statement.nodesAll ss, s.Drawn P) (parse source) := by
  have step := Parser.preserves_drawn P F true
  have start : (Parser.start source).cursor.Each P F ∧ Parser.Every (Statement.Drawn P) [] [] :=
    ⟨each, Parser.every_nil⟩
  unfold Traced.Ensures Traced.FailsAs
  rw [parse_result]
  cases ran : Parser.rounds true [] [] (Parser.start source) with
  | ok ss p =>
    refine ⟨failsAs_ok _, ?_⟩
    rintro _ ⟨⟩
    obtain ⟨q, ⟨-, every⟩, -⟩ := step.rounds_ok start ran
    exact every.2
  | error failure p =>
    obtain ⟨blocks, body, q, ⟨each, -⟩, meets⟩ := step.rounds_error start ran
    refine ⟨failsAs_error (meets.admitted admits each), ?_⟩
    rintro _ ⟨⟩

/-- What holds of every lexeme of a source holds of every lexeme in the expressions of its
statements. -/
theorem parse_worded {source : Text} {ss : List Statement}
    (scanned : ∀ o ∈ Outcome.scan source, ∀ l, o.lexeme = .ok l → P l)
    (parsed : (parse source).result = .ok ss) : ∀ s ∈ Statement.nodesAll ss, s.Worded P := by
  have admits : Parser.Admits P fun _ => True := ⟨fun _ _ => trivial, fun _ => trivial⟩
  have each : (Cursor.ofSource source).Each P fun _ => True :=
    Cursor.each_ofSource (fun o member => ⟨scanned o (Outcome.drawn_subset _ member), fun _ _ => trivial⟩)
      fun _ _ => trivial
  exact fun s member => ((ensures_parse admits each).2 ss parsed s member).worded

end Stylesheet

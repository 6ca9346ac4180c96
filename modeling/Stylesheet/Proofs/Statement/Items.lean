import Stylesheet.Proofs.Lexeme.Groups
import Stylesheet.Statement.Parse

/-! What rounds do to the bodies that are open, and what follows for a whole parse. A
round adds a statement to the innermost body, opens a body inside it or closes it; so
what each of these keeps holds wherever the rounds lead, and of the statements of a
source in the end. -/
namespace Stylesheet

namespace Statement

def IsLeaf : Statement → Prop
  | .rule .. | .mixin .. => False
  | _ => True

def HasHead : Statement → Prop
  | .rule selectors _ _ => selectors ≠ []
  | _ => True

mutual
/-- A statement and all statements inside it, the bodies of mixins included. -/
def nodes : Statement → List Statement
  | s@(.rule _ body _) | s@(.mixin _ _ body) => s :: nodesAll body
  | s => [s]

def nodesAll : List Statement → List Statement
  | [] => []
  | s :: rest => nodes s ++ nodesAll rest
end

@[simp] theorem nodesAll_append (ss more : List Statement) :
    nodesAll (ss ++ more) = nodesAll ss ++ nodesAll more := by
  induction ss with
  | nil => rfl
  | cons s ss ih => rw [List.cons_append, nodesAll, nodesAll, ih, List.append_assoc]

theorem nodes_of_isLeaf {s : Statement} (leaf : s.IsLeaf) : s.nodes = [s] := by
  cases s with
  | rule | mixin => exact leaf.elim
  | _ => rfl

theorem ReadFrom.isLeaf {inRoot : Bool} {taken : List Lexeme} {s : Statement} (read : s.ReadFrom inRoot taken) :
    s.IsLeaf := by
  cases read <;> trivial

theorem hasHead_of_isLeaf {s : Statement} (leaf : s.IsLeaf) : s.HasHead := by
  cases s with
  | rule => exact leaf.elim
  | _ => trivial

end Statement

namespace Parser

theorem Opening.nodes_statement (opening : Opening) (body : List Statement) :
    (opening.statement body).nodes = opening.statement body :: Statement.nodesAll body := by
  cases opening <;> rfl

/-- A rule has at least one selector. -/
theorem Opening.ReadFrom.hasHead {depth : Nat} {taken : List Lexeme} {opening : Opening}
    (head : opening.ReadFrom depth taken) (body : List Statement) : (opening.statement body).HasHead := by
  cases head with
  | rule named => exact mt List.map_eq_nil_iff.mp (Expression.splitFrom_ne_nil _ _ _)
  | mixin defaults written => trivial

theorem rounds_eq (topLevel : Bool) (blocks : List Block) (body : List Statement) (p : Parser) :
    rounds topLevel blocks body p =
      match round topLevel blocks body p with
      | .error failure p' => .error failure p'
      | .ok (.finished body) p' => .ok body p'
      | .ok (.reading blocks body) p' => rounds topLevel blocks body p' := by
  rw [rounds.eq_def]
  split <;> next ran => rw [ran]

theorem rounds_of_reading {topLevel : Bool} {blocks blocks' : List Block} {body body' : List Statement}
    {p p' : Parser} (h : round topLevel blocks body p = .ok (.reading blocks' body') p') :
    rounds topLevel blocks body p = rounds topLevel blocks' body' p' := by
  rw [rounds_eq, h]

/-- Rounds lead from some open bodies and a parser to others. -/
inductive Reaches (topLevel : Bool) :
    List Block → List Statement → Parser → List Block → List Statement → Parser → Prop where
  | refl (blocks : List Block) (body : List Statement) (p : Parser) :
      Reaches topLevel blocks body p blocks body p
  | next {blocks blocks₁ blocks' : List Block} {body body₁ body' : List Statement} {p p₁ p' : Parser}
      (first : round topLevel blocks body p = .ok (.reading blocks₁ body₁) p₁)
      (rest : Reaches topLevel blocks₁ body₁ p₁ blocks' body' p') :
      Reaches topLevel blocks body p blocks' body' p'

theorem Reaches.rounds_eq {topLevel : Bool} {blocks blocks' : List Block} {body body' : List Statement}
    {p p' : Parser} (path : Reaches topLevel blocks body p blocks' body' p') :
    rounds topLevel blocks body p = rounds topLevel blocks' body' p' := by
  induction path with
  | refl => rfl
  | next first rest ih => exact (rounds_of_reading first).trans ih

/-- The rounds lead to one that finishes the body or fails, and end as it does. -/
theorem exists_last_round (topLevel : Bool) (blocks : List Block) (body : List Statement) (p : Parser) :
    ∃ blocks' body' p', Reaches topLevel blocks body p blocks' body' p' ∧
      ((∃ ss q, round topLevel blocks' body' p' = .ok (.finished ss) q ∧ rounds topLevel blocks body p = .ok ss q) ∨
        ∃ failure q, round topLevel blocks' body' p' = .error failure q ∧
          rounds topLevel blocks body p = .error failure q) := by
  fun_induction rounds topLevel blocks body p with
  | case1 blocks body p failure q failed => exact ⟨blocks, body, p, .refl .., .inr ⟨failure, q, failed, rfl⟩⟩
  | case2 blocks body p ss q finished => exact ⟨blocks, body, p, .refl .., .inl ⟨ss, q, finished, rfl⟩⟩
  | case3 blocks body p blocks₁ body₁ p₁ first ih =>
    obtain ⟨blocks', body', p', rest, last⟩ := ih
    exact ⟨blocks', body', p', .next first rest, last⟩

section

variable {I : List Block → List Statement → Parser → Prop} {topLevel : Bool} {blocks blocks' : List Block}
  {body body' ss : List Statement} {p p' : Parser}

/-- Every round that goes on keeps `I`. -/
def Preserves (topLevel : Bool) (I : List Block → List Statement → Parser → Prop) : Prop :=
  ∀ ⦃blocks body p taken blocks' body' q⦄, I blocks body p → p.cursor.Passes taken q.cursor →
    Advance topLevel blocks body p.depth taken blocks' body' q.depth → I blocks' body' q

theorem Preserves.reaches (step : Preserves topLevel I) (path : Reaches topLevel blocks body p blocks' body' p')
    (start : I blocks body p) : I blocks' body' p' := by
  induction path with
  | refl => exact start
  | next first rest ih =>
    obtain ⟨taken, passes, -, advance⟩ := (leads_round ..).ok first
    exact ih (step start passes advance)

/-- At the top level nothing is left to read where the body is finished. -/
theorem Preserves.rounds_ok (step : Preserves topLevel I) (start : I blocks body p)
    (ran : rounds topLevel blocks body p = .ok ss p') : ∃ q, I [] ss q ∧ (topLevel = true → q.cursor.stream = []) := by
  obtain ⟨blocks', body', q, path, ⟨ss', r, finished, ends⟩ | ⟨failure, r, -, ends⟩⟩ :=
    exists_last_round topLevel blocks body p
  · cases ran.symm.trans ends
    obtain ⟨taken, passes, rfl, rfl, whole⟩ := (leads_round ..).ok finished
    refine ⟨q, step.reaches path start, fun top => ?_⟩
    obtain ⟨rfl, nothing⟩ := whole top
    exact passes.stream.trans nothing
  · cases ran.symm.trans ends

theorem Preserves.rounds_error {failure : Failure} (step : Preserves topLevel I) (start : I blocks body p)
    (ran : rounds topLevel blocks body p = .error failure p') :
    ∃ blocks' body' q, I blocks' body' q ∧ Meets [] q.cursor failure := by
  obtain ⟨blocks', body', q, path, ⟨ss', r, -, ends⟩ | ⟨failure', r, failed, ends⟩⟩ :=
    exists_last_round topLevel blocks body p
  · cases ran.symm.trans ends
  · cases ran.symm.trans ends
    exact ⟨blocks', body', q, step.reaches path start, (leads_round ..).error failed⟩

end

/-- All statements so far are as `G` says, and so is what is still open, whatever its
body. -/
def Every (G : Statement → Prop) (blocks : List Block) (body : List Statement) : Prop :=
  (∀ block ∈ blocks, (∀ body, G (block.opening.statement body)) ∧ ∀ s ∈ Statement.nodesAll block.before, G s) ∧
    ∀ s ∈ Statement.nodesAll body, G s

section

variable {G : Statement → Prop} {blocks : List Block} {body : List Statement}

theorem every_nil : Every G [] [] := ⟨by simp, by simp [Statement.nodesAll]⟩

theorem Every.add {s : Statement} (every : Every G blocks body) (leaf : s.IsLeaf) (good : G s) :
    Every G blocks (body ++ [s]) := by
  refine ⟨every.1, ?_⟩
  rw [Statement.nodesAll_append, Statement.nodesAll, Statement.nodes_of_isLeaf leaf, Statement.nodesAll]
  exact List.forall_mem_append.mpr ⟨every.2, List.forall_mem_singleton.mpr good⟩

theorem Every.enter {opening : Opening} (every : Every G blocks body)
    (good : ∀ body, G (opening.statement body)) : Every G (⟨opening, body⟩ :: blocks) [] := by
  refine ⟨?_, by simp [Statement.nodesAll]⟩
  exact List.forall_mem_cons.mpr ⟨⟨good, every.2⟩, every.1⟩

theorem Every.close {block : Block} {outer : List Block} (every : Every G (block :: outer) body) :
    Every G outer (block.before ++ [block.opening.statement body]) := by
  obtain ⟨⟨good, before⟩, outside⟩ := List.forall_mem_cons.mp every.1
  refine ⟨outside, ?_⟩
  rw [Statement.nodesAll_append, Statement.nodesAll, Opening.nodes_statement, Statement.nodesAll, List.append_nil]
  exact List.forall_mem_append.mpr ⟨before, List.forall_mem_cons.mpr ⟨good body, every.2⟩⟩

/-- What holds of all that is read from the lexemes taken goes on to hold of all so far. -/
theorem Advance.every {topLevel : Bool} {blocks' : List Block} {body' : List Statement} {depth depth' : Nat}
    {taken : List Lexeme} (advance : Advance topLevel blocks body depth taken blocks' body' depth')
    (every : Every G blocks body) (leaf : ∀ (inRoot : Bool) (s : Statement), s.ReadFrom inRoot taken → G s)
    (head : ∀ opening : Opening, opening.ReadFrom depth taken → ∀ body, G (opening.statement body)) :
    Every G blocks' body' := by
  cases advance with
  | skip => exact every
  | add read => exact every.add read.isLeaf (leaf _ _ read)
  | enter read => exact every.enter (head _ read)
  | close inside =>
    subst inside
    exact every.close

end

theorem preserves_hasHead (topLevel : Bool) :
    Preserves topLevel fun blocks body _ => Every Statement.HasHead blocks body :=
  fun _ _ _ _ _ _ _ every _ advance =>
    advance.every every (fun _ _ read => Statement.hasHead_of_isLeaf read.isLeaf) fun _ read => read.hasHead

def openRules : List Block → Nat
  | [] => 0
  | block :: outer => openRules outer + block.opening.rules

/-- A parser that is as deep as there are rules open stays so. -/
theorem Advance.depth_eq {topLevel : Bool} {blocks blocks' : List Block} {body body' : List Statement} {depth' : Nat}
    {taken : List Lexeme} (advance : Advance topLevel blocks body (openRules blocks) taken blocks' body' depth') :
    depth' = openRules blocks' := by
  cases advance with
  | skip => rfl
  | add leaf => rfl
  | enter head => rfl
  | close inside => rw [inside, openRules, Nat.add_sub_cancel]

def At (depth length : Nat) (p : Parser) : Prop := p.depth = depth ∧ p.cursor.length = length

theorem preserves_at (topLevel : Bool) (length : Nat) :
    Preserves topLevel fun blocks _ p => At (openRules blocks) length p := by
  intro blocks body p taken blocks' body' q here passes advance
  rw [here.1] at advance
  exact ⟨advance.depth_eq, passes.length.trans here.2⟩

def start (source : Text) : Parser := ⟨Cursor.ofSource source, .selectors, 0, [.parsingStylesheet]⟩

def result : EStateM.Result Failure Parser α → Except Failure α
  | .ok a _ => .ok a
  | .error failure _ => .error failure

end Parser

theorem parse_result (source : Text) :
    (parse source).result = Parser.result (Parser.rounds true [] [] (Parser.start source)) := by
  have whole : (do Parser.report .parsingStylesheet; Parser.body true) (Parser.ofSource source) =
      Parser.rounds true [] [] (Parser.start source) := rfl
  rw [parse, whole]
  cases Parser.rounds true [] [] (Parser.start source) <;> rfl

theorem parse_ok {source : Text} {ss : List Statement} (parsed : (parse source).result = .ok ss) :
    ∃ p, Parser.rounds true [] [] (Parser.start source) = .ok ss p := by
  rw [parse_result] at parsed
  cases ran : Parser.rounds true [] [] (Parser.start source) with
  | ok ss' p =>
    rw [ran] at parsed
    cases parsed
    exact ⟨p, rfl⟩
  | error failure p =>
    rw [ran] at parsed
    cases parsed

theorem parse_of_rounds {source : Text} {ss : List Statement} {p : Parser}
    (ran : Parser.rounds true [] [] (Parser.start source) = .ok ss p) : (parse source).result = .ok ss := by
  rw [parse_result, ran]
  rfl

/-- Every rule of a parsed source has a selector, at any depth. -/
theorem parse_hasHead {source : Text} {ss : List Statement} (parsed : (parse source).result = .ok ss) :
    ∀ s ∈ Statement.nodesAll ss, s.HasHead := by
  obtain ⟨p, ran⟩ := parse_ok parsed
  obtain ⟨q, every, -⟩ := (Parser.preserves_hasHead true).rounds_ok Parser.every_nil ran
  exact every.2

end Stylesheet

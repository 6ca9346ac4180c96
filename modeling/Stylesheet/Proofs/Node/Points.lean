import Mathlib.Logic.Relation
import Stylesheet.Proofs.Node.Resolution

/-! The points that resolution comes to. From a point it goes past a statement, or into
the body of a rule or of a mixin that is called; what it meets on the way to a point does
not depend on whether the rest resolves. For this the relation of resolution is shown to
be what is resolved within some limit: nothing is lost where calls may nest deeper. -/
namespace Stylesheet

namespace Resolve

/-- What the one expansion resolves, the other resolves alike. -/
def Expansion.Below (expand more : Expansion) : Prop :=
  ∀ scope inRule name arguments offset result,
    (expand scope inRule name arguments offset).result = .ok result →
      (more scope inRule name arguments offset).result = .ok result

/-- What a call comes to with the one expansion, it comes to with the other, failures
apart that do not count. -/
def Expansion.Kept (Counts : Failure → Prop) (expand more : Expansion) : Prop :=
  ∀ scope inRule name arguments offset,
    Keeps Counts (expand scope inRule name arguments offset).result (more scope inRule name arguments offset).result

section

variable {Counts : Failure → Prop} {expand more : Expansion}

mutual
theorem statement_keeps (kept : expand.Kept Counts more) (s : Statement) (scope : Scope) (inRule : Bool) :
    Keeps Counts (statement expand scope inRule s).result (statement more scope inRule s).result := by
  cases s with
  | assignment | property | mixin | comment =>
    rw [statement, statement]
    exact keeps_refl _
  | call name arguments offset =>
    rw [statement, statement]
    exact kept _ _ _ _ _
  | rule selectors body depth =>
    rw [statement, statement, Traced.result_bind, Traced.result_bind]
    exact (statements_keeps kept body _ _).bind fun _ _ => keeps_refl _

theorem statements_keeps (kept : expand.Kept Counts more) (ss : List Statement) (scope : Scope) (inRule : Bool) :
    Keeps Counts (statements expand scope inRule ss).result (statements more scope inRule ss).result := by
  cases ss with
  | nil =>
    rw [statements, statements]
    exact keeps_refl _
  | cons s ss =>
    simp only [statements, Traced.result_bind]
    exact (statement_keeps kept s _ _).bind fun _ _ => (statements_keeps kept ss _ _).bind fun _ _ => keeps_refl _
end

/-- Where calls may nest deeper, nothing changes but the failure for want of depth. -/
theorem expansion_kept_succ (others : ¬ Counts .endless) (limit : Nat) :
    (expansion limit).Kept Counts (expansion (limit + 1)) := by
  induction limit with
  | zero =>
    intro scope inRule name arguments offset
    constructor
    · intro result ran
      cases ran
    · intro e counts failed
      cases failed
      exact absurd counts others
  | succ limit ih =>
    intro scope inRule name arguments offset
    rw [expansion, expansion]
    split
    · exact keeps_refl _
    · simp only [Traced.result_bind]
      refine (keeps_refl _).bind fun _ _ => (keeps_refl _).bind fun inner _ => ?_
      exact (statements_keeps ih _ inner inRule).bind fun _ _ => keeps_refl _

theorem expansion_kept (others : ¬ Counts .endless) {limit deeper : Nat} (le : limit ≤ deeper) :
    (expansion limit).Kept Counts (expansion deeper) := by
  induction le with
  | refl => exact fun _ _ _ _ _ => keeps_refl _
  | step _ ih => exact fun _ _ _ _ _ => (ih _ _ _ _ _).trans (expansion_kept_succ others _ _ _ _ _ _)

end

theorem statements_mono {expand more : Expansion} (below : expand.Below more) (ss : List Statement) {scope : Scope}
    {inRule : Bool} {result : List Node × Scope} (ran : (statements expand scope inRule ss).result = .ok result) :
    (statements more scope inRule ss).result = .ok result := by
  have kept : expand.Kept (fun _ => False) more := fun _ _ _ _ _ => ⟨below _ _ _ _ _, fun _ never => never.elim⟩
  exact (statements_keeps kept ss scope inRule).ok result ran

/-- Calls may always nest deeper. -/
theorem expansion_below {limit more : Nat} (le : limit ≤ more) : (expansion limit).Below (expansion more) := by
  have kept : (expansion limit).Kept (fun _ => False) (expansion more) := expansion_kept id le
  exact fun _ _ _ _ _ => (kept _ _ _ _ _).ok

theorem statements_cons {expand : Expansion} {scope scope₁ scope₂ : Scope} {inRule : Bool} {s : Statement}
    {ss : List Statement} (nodes : List Node) {more : List Node}
    (first : (statement expand scope inRule s).result = .ok (nodes, scope₁))
    (others : (statements expand scope₁ inRule ss).result = .ok (more, scope₂)) :
    (statements expand scope inRule (s :: ss)).result = .ok (nodes ++ more, scope₂) := by
  simp only [statements, Traced.result_bind]
  exact bind_eq_ok.mpr ⟨_, first, bind_eq_ok.mpr ⟨_, others, rfl⟩⟩

/-- What resolves is resolved within some limit. -/
theorem exists_limit {scope scope' : Scope} {inRule : Bool} {ss : List Statement} {nodes : List Node}
    (resolves : Resolves scope inRule ss nodes scope') :
    ∃ limit, (statements (expansion limit) scope inRule ss).result = .ok (nodes, scope') := by
  induction resolves with
  | nil => exact ⟨0, by rw [statements]; rfl⟩
  | assignment evaluated assigned _ ih =>
    obtain ⟨limit, others⟩ := ih
    refine ⟨limit, statements_cons [] ?_ others⟩
    simp only [statement, Traced.result_bind]
    exact bind_eq_ok.mpr ⟨_, evaluated, bind_eq_ok.mpr ⟨_, assigned, rfl⟩⟩
  | property evaluated _ ih =>
    obtain ⟨limit, others⟩ := ih
    refine ⟨limit, statements_cons [_] ?_ others⟩
    simp only [statement, if_true, Traced.result_bind]
    exact bind_eq_ok.mpr ⟨_, evaluated, rfl⟩
  | mixin _ ih =>
    obtain ⟨limit, others⟩ := ih
    exact ⟨limit, statements_cons [] (by rw [statement]; rfl) others⟩
  | @call scope inner inner' _ inRule name arguments offset mixin _ nodes _ found bound _ _ ih ih' =>
    obtain ⟨depth, expanded⟩ := ih
    obtain ⟨limit, others⟩ := ih'
    have within := statements_mono (expansion_below (Nat.le_max_left depth limit)) _ expanded
    have call : (expansion (max depth limit + 1) scope inRule name arguments offset).result =
        .ok (nodes, scope.leave inner') := by
      simp only [expansion, found, Traced.result_bind]
      exact bind_eq_ok.mpr ⟨(), rfl, bind_eq_ok.mpr ⟨inner, bound, bind_eq_ok.mpr ⟨_, within, rfl⟩⟩⟩
    refine ⟨max depth limit + 1, statements_cons nodes ?_ (statements_mono (expansion_below ?_) _ others)⟩
    · rw [statement]
      exact call
    · omega
  | rule _ _ ih ih' =>
    obtain ⟨depth, nested⟩ := ih
    obtain ⟨limit, others⟩ := ih'
    have within := statements_mono (expansion_below (Nat.le_max_left depth limit)) _ nested
    refine ⟨max depth limit, statements_cons [_] ?_
      (statements_mono (expansion_below (Nat.le_max_right depth limit)) _ others)⟩
    simp only [statement, Traced.result_bind]
    exact bind_eq_ok.mpr ⟨_, within, rfl⟩
  | comment _ ih =>
    obtain ⟨limit, others⟩ := ih
    exact ⟨limit, statements_cons [_] (by rw [statement]; rfl) others⟩

end Resolve

/-- Where resolution stands: in a scope, inside a rule or not, before statements. -/
structure Point where
  scope : Scope
  inRule : Bool
  rest : List Statement

namespace Point

open Resolve in
/-- From a statement into the body of the rule it is, or of the mixin that it calls. -/
inductive Enters : Point → Point → Prop where
  | rule {scope : Scope} {inRule : Bool} {selectors : List Text} {body rest : List Statement} {depth : Nat} :
      Enters ⟨scope, inRule, .rule selectors body depth :: rest⟩ ⟨scope.child, true, body⟩
  | call {scope inner : Scope} {inRule : Bool} {name : Text} {arguments : List Argument} {offset : Option Int}
      {mixin : Mixin} {rest : List Statement} (found : scope.mixin? name = some mixin)
      (bound : (bindArguments mixin arguments offset scope).result = .ok inner) :
      Enters ⟨scope, inRule, .call name arguments offset :: rest⟩ ⟨inner, inRule, mixin.body⟩

open Resolve in
/-- From one point to the next: past a statement that is resolved, or into its body. -/
inductive Goes : Point → Point → Prop where
  | past {scope scope' : Scope} {inRule : Bool} {s : Statement} {rest : List Statement} {nodes : List Node}
      {limit : Nat} (ran : (statement (expansion limit) scope inRule s).result = .ok (nodes, scope')) :
      Goes ⟨scope, inRule, s :: rest⟩ ⟨scope', inRule, rest⟩
  | into {p q : Point} (enters : p.Enters q) : Goes p q

abbrev LeadsTo (p q : Point) : Prop := Relation.ReflTransGen Goes p q

theorem goes_of_resolves {scope scope' : Scope} {inRule : Bool} {s : Statement} {nodes : List Node}
    (resolves : Resolves scope inRule [s] nodes scope') (rest : List Statement) :
    Goes ⟨scope, inRule, s :: rest⟩ ⟨scope', inRule, rest⟩ := by
  obtain ⟨limit, ran⟩ := Resolve.exists_limit resolves
  simp only [Resolve.statements, Traced.result_bind] at ran
  obtain ⟨⟨first, scope₁⟩, one, ran⟩ := bind_eq_ok.mp ran
  obtain ⟨-, rfl⟩ := Prod.mk.inj (Except.ok.inj ran)
  exact .past one

end Point

end Stylesheet

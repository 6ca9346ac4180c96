import Stylesheet.Proofs.Node.Resolution
import Stylesheet.Proofs.Statement.Lexemes
import Stylesheet.Proofs.Value.Faults

/-! How resolution fails, and what it keeps of scopes. What every assignment, declaration
and scope keeps, every statement keeps, if the calls in it do; and a call keeps it if the
body of its mixin does. Failures are those of evaluation, of binding arguments and of the
calls, and they stand where the statements and their lexemes do. -/
namespace Stylesheet

namespace Statement

mutual
/-- The names of the mixins that a statement calls, at any depth of rules. The bodies of
mixins that it declares do not count. -/
def calls : Statement → List Text
  | .rule _ body _ => callsAll body
  | .call name _ _ => [name]
  | _ => []

def callsAll : List Statement → List Text
  | [] => []
  | s :: rest => calls s ++ callsAll rest
end

structure Placed (At : Option Int → Prop) (s : Statement) : Prop where
  offset : At s.offset
  lexemes : ∀ e ∈ s.expressions, ∀ l ∈ e, At l.offset

theorem placed_anywhere (s : Statement) : s.Placed fun _ => True := ⟨trivial, fun _ _ _ _ => trivial⟩

theorem Drawn.placed {At : Option Int → Prop} {s : Statement} (nowhere : At none)
    (drawn : s.Drawn fun l => At l.offset) : s.Placed At := by
  refine ⟨?_, drawn.worded⟩
  cases here : s.offset with
  | none => exact nowhere
  | some index =>
    obtain ⟨l, good, same⟩ := drawn.stands index here
    rwa [same] at good

mutual
theorem nodes_subset {s t : Statement} (inside : t ∈ s.nodes) : t.nodes ⊆ s.nodes := by
  cases s with
  | rule selectors body depth | mixin name parameters body =>
    rw [nodes] at inside ⊢
    rcases List.mem_cons.mp inside with rfl | inside
    · rw [nodes]
      exact List.Subset.refl _
    · exact List.subset_cons_of_subset _ (nodesAll_subset inside)
  | _ =>
    obtain rfl := List.mem_singleton.mp inside
    exact List.Subset.refl _

theorem nodesAll_subset {ss : List Statement} {t : Statement} (inside : t ∈ nodesAll ss) : t.nodes ⊆ nodesAll ss := by
  cases ss with
  | nil => cases inside
  | cons s ss =>
    rw [nodesAll] at inside ⊢
    rcases List.mem_append.mp inside with here | later
    · exact List.subset_append_of_subset_left _ (nodes_subset here)
    · exact List.subset_append_of_subset_right _ (nodesAll_subset later)
end

theorem mem_nodes (s : Statement) : s ∈ s.nodes := by
  cases s <;> simp [nodes]

theorem body_subset {ss body : List Statement} {name : Text} {parameters : List Parameter}
    (declared : .mixin name parameters body ∈ nodesAll ss) : nodesAll body ⊆ nodesAll ss := by
  have whole := nodesAll_subset declared
  rw [nodes] at whole
  exact List.Subset.trans (List.subset_cons_self _ _) whole

end Statement

open Statement

/-- Every mixin in the scope stands under a name under which the statements declare it. -/
def Scope.Knows (ss : List Statement) (s : Scope) : Prop :=
  s.Each fun b => ∀ entry ∈ b.mixins, .mixin entry.1 entry.2.parameters entry.2.body ∈ nodesAll ss

theorem Scope.knows_empty (ss : List Statement) (precision : Int) : (Scope.empty precision).Knows ss := by
  simp [Knows, Each, Scope.empty]

theorem Scope.Knows.mixin? {ss : List Statement} {s : Scope} {name : Text} {mixin : Mixin} (knows : s.Knows ss)
    (found : s.mixin? name = some mixin) : .mixin name mixin.parameters mixin.body ∈ nodesAll ss := by
  rcases Option.or_eq_some_iff.mp found with here | ⟨-, root⟩
  · exact knows.current _ (Table.mem_of_get? here)
  · exact knows.1 _ (Table.mem_of_get? root)

theorem Scope.assign_precision {scope scope' : Scope} {name : Text} {value : Value} {isDefault isGlobal : Bool}
    (assigned : (scope.assign name value isDefault isGlobal).result = .ok scope') :
    scope'.precision = scope.precision := by
  obtain ⟨-, -, rfl⟩ | ⟨-, rfl⟩ := Scope.assign_ok assigned
  · rfl
  · cases has : scope.own with
    | none => rw [Scope.setVariable_of_root has]
    | some own => rw [Scope.setVariable_of_own has]

/-- A scope as it arises while the statements are resolved: it has the precision of the
whole compilation, and knows the mixins that the statements declare. -/
structure Scope.Arises (ss : List Statement) (precision : Int) (s : Scope) : Prop where
  precision_eq : s.precision = precision
  knows : s.Knows ss

theorem Scope.arises_empty (ss : List Statement) (precision : Int) : (Scope.empty precision).Arises ss precision :=
  ⟨rfl, Scope.knows_empty ss precision⟩

namespace Resolve

open Traced

variable {P : Failure → Prop} {At : Option Int → Prop} {D : Mixin → Prop} {I : Scope → Prop} {expand : Expansion}
  {scope : Scope}

/-- What a scope keeps while statements are resolved that declare mixins as `D` says, and
the failures there are in such a scope. -/
structure Invariant (P : Failure → Prop) (At : Option Int → Prop) (D : Mixin → Prop) (I : Scope → Prop) : Prop where
  admits {s : Scope} : I s → Failure.Admits P At s.precision
  child {s : Scope} : I s → I s.child
  leave {s inner : Scope} : I s → I inner → I (s.leave inner)
  assign {s s' : Scope} {name : Text} {value : Value} {isDefault isGlobal : Bool} : I s →
    (s.assign name value isDefault isGlobal).result = .ok s' → I s'
  declare {s : Scope} {mixin : Mixin} : I s → D mixin → I (s.declare mixin)

theorem invariant_arises {precision : Int} (admits : Failure.Admits P At precision) (ss : List Statement) :
    Invariant P At (fun mixin => .mixin mixin.name mixin.parameters mixin.body ∈ nodesAll ss)
      (Scope.Arises ss precision) where
  admits arises := arises.precision_eq ▸ admits
  child arises := ⟨arises.precision_eq, Scope.Each.child arises.knows⟩
  leave arises inside := ⟨arises.precision_eq, Scope.Each.leave arises.knows inside.knows⟩
  assign arises assigned :=
    ⟨(Scope.assign_precision assigned).trans arises.precision_eq,
      Scope.Each.assign arises.knows (fun _ before => before) assigned⟩
  declare arises new := by
    constructor
    · rw [Scope.declare, Scope.update]
      split <;> exact arises.precision_eq
    · refine Scope.Each.update arises.knows fun b before entry member => ?_
      rcases Table.mem_insert member with rfl | member
      · exact new
      · exact before entry member

theorem failsAs_assign (scope : Scope) (name : Text) (value : Value) (isDefault isGlobal : Bool) :
    (scope.assign name value isDefault isGlobal).FailsAs P := by
  unfold Scope.assign
  split
  · exact failsAs_pure _
  · exact FailsAs.bind (Stylesheet.failsAs_ok _) fun _ _ => failsAs_pure _

theorem failsAs_collect (admits : Failure.Admits P At scope.precision) (mixin : Mixin) {arguments : List Argument}
    (inside : ∀ argument ∈ arguments, ∀ l ∈ argument.value, At l.offset) (named : Table Value)
    (positional : List Value) : (collect scope mixin arguments named positional).FailsAs P := by
  induction arguments generalizing named positional with
  | nil => exact failsAs_pure _
  | cons argument rest ih =>
    obtain ⟨here, others⟩ := List.forall_mem_cons.mp inside
    unfold collect
    split
    · exact (failsAs_evaluate_at admits here).bind fun value _ => ih others _ _
    · split
      · exact (failsAs_evaluate_at admits here).bind fun value _ => ih others _ _
      · exact failsAs_fail (admits.error rfl (Expression.at_offset admits.nowhere here))

theorem failsAs_bindParameters (keeps : Invariant P At D I) {mixin : Text} {offset : Option Int} (called : At offset)
    {named : Table Value} {parameters : List Parameter}
    (defaults : ∀ parameter ∈ parameters, ∀ e ∈ parameter.default, ∀ l ∈ e, At l.offset) (positional : List Value)
    (holds : I scope) : (bindParameters mixin offset named parameters positional scope).FailsAs P := by
  induction parameters generalizing positional scope with
  | nil => exact failsAs_pure _
  | cons parameter rest ih =>
    obtain ⟨here, others⟩ := List.forall_mem_cons.mp defaults
    have bind (value : Value) (positional : List Value) : (do
        bindParameters mixin offset named rest positional
          (← scope.assign parameter.name value false false)).FailsAs P :=
      (failsAs_assign scope _ value false false).bind fun scope' assigned => ih others _ (keeps.assign holds assigned)
    unfold bindParameters
    split
    · exact bind _ _
    · exact bind _ _
    · next e _ default =>
      exact (failsAs_evaluate_at (keeps.admits holds) (here e default)).bind fun value _ => bind value []
    · exact failsAs_fail ((keeps.admits holds).error rfl called)

theorem ensures_bindArguments (keeps : Invariant P At D I) {mixin : Mixin} {name : Text}
    (declared : (Statement.mixin name mixin.parameters mixin.body).Placed At) {arguments : List Argument}
    {offset : Option Int} (called : (Statement.call name arguments offset).Placed At) (holds : I scope) :
    Ensures P I (bindArguments mixin arguments offset scope) := by
  have inside : ∀ argument ∈ arguments, ∀ l ∈ argument.value, At l.offset :=
    fun argument member => called.lexemes argument.value (List.mem_map_of_mem member)
  have defaults : ∀ parameter ∈ mixin.parameters, ∀ e ∈ parameter.default, ∀ l ∈ e, At l.offset :=
    fun parameter member e default => declared.lexemes e (List.mem_filterMap.mpr ⟨parameter, member, default⟩)
  constructor
  · refine (failsAs_collect (keeps.admits holds) mixin inside [] []).bind ?_
    rintro ⟨named, positional⟩ -
    exact failsAs_bindParameters keeps called.offset defaults _ (keeps.child holds)
  · intro inner bound
    exact bindArguments_invariant (fun _ _ _ _ => keeps.assign) (keeps.child holds) bound

mutual
theorem ensures_statement (keeps : Invariant P At D I) (s : Statement) (placed : ∀ t ∈ s.nodes, t.Placed At)
    (calls : ∀ name ∈ s.calls, ∀ scope inRule arguments offset, I scope →
      (Statement.call name arguments offset).Placed At →
      Ensures P (fun result => I result.2) (expand scope inRule name arguments offset))
    (declared : ∀ name parameters body, .mixin name parameters body ∈ s.nodes → D ⟨name, parameters, body⟩)
    {scope : Scope} (inRule : Bool) (holds : I scope) :
    Ensures P (fun result => I result.2) (statement expand scope inRule s) := by
  have here : s.Placed At := placed s s.mem_nodes
  cases s with
  | assignment name offset e isDefault isGlobal =>
    rw [statement]
    refine (failsAs_evaluate_at (keeps.admits holds) (here.lexemes e List.mem_cons_self)).then fun value => ?_
    have assigned : Ensures P I (scope.assign name value isDefault isGlobal) :=
      ⟨failsAs_assign scope _ _ _ _, fun _ => keeps.assign holds⟩
    exact assigned.bind fun _ after => ensures_pure after
  | property name offset e =>
    rw [statement]
    split
    · exact (failsAs_evaluate_at (keeps.admits holds) (here.lexemes e List.mem_cons_self)).then fun _ =>
        ensures_pure holds
    · exact ensures_fail ((keeps.admits holds).error rfl here.offset)
  | mixin name parameters body =>
    rw [statement]
    exact ensures_pure (keeps.declare holds (declared name parameters body (Statement.mem_nodes _)))
  | call name arguments offset =>
    rw [statement]
    exact calls name (by simp [Statement.calls]) scope inRule arguments offset holds here
  | rule selectors body depth =>
    rw [statement]
    rw [Statement.calls] at calls
    rw [Statement.nodes] at declared placed
    refine (ensures_statements keeps body ?_ calls ?_ true (keeps.child holds)).bind fun _ after =>
      ensures_pure (keeps.leave holds after)
    · exact fun t member => placed t (List.mem_cons_of_mem _ member)
    · exact fun name parameters body' member => declared name parameters body' (List.mem_cons_of_mem _ member)
  | comment text =>
    rw [statement]
    exact ensures_pure holds

/-- Statements keep what the calls in them keep, and fail as they do. -/
theorem ensures_statements (keeps : Invariant P At D I) (ss : List Statement)
    (placed : ∀ t ∈ Statement.nodesAll ss, t.Placed At)
    (calls : ∀ name ∈ Statement.callsAll ss, ∀ scope inRule arguments offset, I scope →
      (Statement.call name arguments offset).Placed At →
      Ensures P (fun result => I result.2) (expand scope inRule name arguments offset))
    (declared : ∀ name parameters body, .mixin name parameters body ∈ Statement.nodesAll ss →
      D ⟨name, parameters, body⟩)
    {scope : Scope} (inRule : Bool) (holds : I scope) :
    Ensures P (fun result => I result.2) (statements expand scope inRule ss) := by
  cases ss with
  | nil =>
    rw [statements]
    exact ensures_pure holds
  | cons s ss =>
    rw [statements]
    rw [Statement.callsAll] at calls
    rw [Statement.nodesAll] at declared placed
    obtain ⟨here, later⟩ := List.forall_mem_append.mp calls
    obtain ⟨head, tail⟩ := List.forall_mem_append.mp placed
    have first := ensures_statement keeps s head here
      (fun name parameters body member => declared name parameters body (List.mem_append_left _ member)) inRule holds
    refine first.bind fun _ after => ?_
    have rest := ensures_statements keeps ss tail later
      (fun name parameters body member => declared name parameters body (List.mem_append_right _ member)) inRule after
    exact rest.bind fun _ behind => ensures_pure behind
end

/-- A call keeps what the body of its mixin keeps, and fails as it does. -/
theorem ensures_expansion_succ (keeps : Invariant P At D I) {limit : Nat} {inRule : Bool} {name : Text}
    (declared : ∀ mixin, scope.mixin? name = some mixin →
      (Statement.mixin name mixin.parameters mixin.body).Placed At)
    (bodies : ∀ mixin, scope.mixin? name = some mixin → ∀ inner, I inner →
      Ensures P (fun result => I result.2) (statements (expansion limit) inner inRule mixin.body))
    {arguments : List Argument} {offset : Option Int} (called : (Statement.call name arguments offset).Placed At)
    (holds : I scope) : Ensures P (fun result => I result.2) (expansion (limit + 1) scope inRule name arguments offset) := by
  rw [expansion]
  cases found : scope.mixin? name with
  | none => exact ensures_fail ((keeps.admits holds).error rfl called.offset)
  | some mixin =>
    have reported : (Traced.report (.expanding name)).FailsAs P := Stylesheet.failsAs_ok _
    refine reported.then fun _ => ?_
    refine (ensures_bindArguments keeps (declared mixin found) called holds).bind fun inner bound => ?_
    exact (bodies mixin found inner bound).bind fun _ after => ensures_pure (keeps.leave holds after)

end Resolve

end Stylesheet

import Stylesheet.Compile
import Stylesheet.Proofs.Node.Alike

/-! A call in place of a body. The body of a mixin is resolved in a scope of its own, in
which names stand for what they stand for in the scope of the call. So where no assignment
is global, the call of a mixin without parameters comes to what the body comes to in the
place of the call, as long as the body itself binds nothing there. -/
namespace Stylesheet

/-- Neither an assignment nor a mixin, which bind a name in the scope they stand in. -/
def Statement.BindsNothing : Statement → Prop
  | .assignment .. | .mixin .. => False
  | _ => True

/-- Statements that bind nothing themselves leave the scope as it is, where no assignment
is global. -/
theorem Resolves.scope_of_bindsNothing {scope scope' : Scope} {inRule : Bool} {ss : List Statement} {nodes : List Node}
    (resolves : Resolves scope inRule ss nodes scope')
    (free : ∀ s ∈ Statement.nodesAll ss, s.IsLocal) (mixins : scope.EveryMixin Mixin.IsLocal)
    (nothing : ∀ s ∈ ss, s.BindsNothing) : scope' = scope := by
  induction resolves with
  | nil => rfl
  | assignment | mixin => exact (nothing _ List.mem_cons_self).elim
  | property _ _ ih | comment _ ih =>
    exact ih (fun s later => free s (List.mem_append_right _ later)) mixins (List.forall_mem_cons.mp nothing).2
  | call found bound expanded _ _ ih' =>
    rw [expanded.leave_call mixins found bound] at ih'
    exact ih' (fun s later => free s (List.mem_append_right _ later)) mixins (List.forall_mem_cons.mp nothing).2
  | rule nested _ _ ih' =>
    have inside := fun s member => free s (List.mem_append_left _ (List.mem_cons_of_mem _ member))
    rw [nested.leave_rule inside mixins] at ih'
    exact ih' (fun s later => free s (List.mem_append_right _ later)) mixins (List.forall_mem_cons.mp nothing).2

namespace Resolve

/-- Arguments without names that have values are collected. -/
theorem collect_unnamed {scope : Scope} (mixin : Mixin) {arguments : List Argument}
    (given : ∀ argument ∈ arguments, argument.name = none ∧ ∃ v, (evaluate scope argument.value).result = .ok v)
    (named : Table Value) (positional : List Value) :
    ∃ values, (collect scope mixin arguments named positional).result = .ok (named, values) := by
  induction arguments generalizing positional with
  | nil => exact ⟨positional, rfl⟩
  | cons argument rest ih =>
    obtain ⟨⟨unnamed, v, value⟩, others⟩ := List.forall_mem_cons.mp given
    obtain ⟨values, collected⟩ := ih others (positional ++ [v])
    refine ⟨values, ?_⟩
    rw [collect, unnamed]
    exact (Traced.bind_of_ok value).trans collected

/-- The call of a mixin without parameters comes to what its body comes to in the scope of
the call. -/
theorem expansion_eq_body {scope : Scope} {name : Text} {mixin : Mixin} {arguments : List Argument}
    (mixins : scope.EveryMixin Mixin.IsLocal) (found : scope.mixin? name = some mixin)
    (parameters : mixin.parameters = [])
    (nothing : ∀ s ∈ mixin.body, s.BindsNothing)
    (given : ∀ argument ∈ arguments, argument.name = none ∧ ∃ v, (evaluate scope argument.value).result = .ok v)
    (limit : Nat) (inRule : Bool) (offset : Option Int) :
    (expansion (limit + 1) scope inRule name arguments offset).result =
      (statements (expansion limit) scope inRule mixin.body).result := by
  have sound := sound_expansion limit
  have free := mixins.mixin? found
  have bound : (bindArguments mixin arguments offset scope).result = .ok scope.child := by
    obtain ⟨values, collected⟩ := collect_unnamed mixin given [] []
    refine (Traced.bind_of_ok collected).trans ?_
    rw [parameters]
    rfl
  have body := statements_of_alike sound (respects_expansion limit) (Scope.Alike.child_right scope) mixins mixins.child
    inRule mixin.body free
  calc (expansion (limit + 1) scope inRule name arguments offset).result
      = (statements (expansion limit) scope.child inRule mixin.body).result >>= fun r =>
          .ok (r.1, scope.leave r.2) := by
        simp only [expansion, found, Traced.result_bind, bound]
        rfl
    _ = (statements (expansion limit) scope inRule mixin.body).result >>= .ok := by
        refine (body.bind_eq fun r inner here there same => ?_).symm
        rw [(resolves_of_statements sound _ there).leave_call mixins found bound, ← same.1]
        exact congrArg (fun behind => Except.ok (r.1, behind))
          ((resolves_of_statements sound _ here).scope_of_bindsNothing free mixins nothing)
    _ = (statements (expansion limit) scope inRule mixin.body).result := bind_pure _

theorem statements_append (expand : Expansion) (scope : Scope) (inRule : Bool) (ss more : List Statement) :
    (statements expand scope inRule (ss ++ more)).result =
      (statements expand scope inRule ss).result >>= fun r =>
        (statements expand r.2 inRule more).result >>= fun r' => .ok (r.1 ++ r'.1, r'.2) := by
  induction ss generalizing scope with
  | nil =>
    simp only [List.nil_append, statements, Traced.result_pure]
    exact (bind_pure _).symm
  | cons s ss ih =>
    simp only [List.cons_append, statements, Traced.result_bind, ih, bind_assoc]
    refine bind_congr fun r => bind_congr fun r' => ?_
    change _ = (statements expand r'.2 inRule more).result >>= fun x => .ok (r.1 ++ r'.1 ++ x.1, x.2)
    refine bind_congr fun x => ?_
    rw [List.append_assoc]
    rfl

/-- What statements come to once calls may nest deep enough: that is the failure for want
of depth only where expansion never ends. -/
def ComesTo (scope : Scope) (inRule : Bool) (ss : List Statement) (outcome : Except Failure (List Node × Scope)) :
    Prop :=
  ∃ limit, ∀ deeper, limit ≤ deeper → (statements (expansion deeper) scope inRule ss).result = outcome

/-- Statements that come to the same up to one more call inside each other have one outcome. -/
theorem comesTo_of_between {scope : Scope} {inRule : Bool} {ss tt : List Statement}
    (first : ∀ limit, Keeps (· ≠ .endless) (statements (expansion limit) scope inRule ss).result
      (statements (expansion (limit + 1)) scope inRule tt).result)
    (second : ∀ limit, Keeps (· ≠ .endless) (statements (expansion (limit + 1)) scope inRule tt).result
      (statements (expansion (limit + 1)) scope inRule ss).result) :
    ∃ outcome, ComesTo scope inRule tt outcome ∧ ComesTo scope inRule ss outcome := by
  by_cases ends : ∃ limit, (statements (expansion limit) scope inRule ss).result ≠ .error .endless
  · obtain ⟨limit, ends⟩ := ends
    have settled : ∀ deeper, limit ≤ deeper →
        (statements (expansion deeper) scope inRule ss).result =
          (statements (expansion limit) scope inRule ss).result :=
      fun deeper le => (statements_keeps (expansion_kept (by simp) le) ss scope inRule).eq ends
    refine ⟨_, ⟨limit + 1, fun deeper le => ?_⟩, limit, settled⟩
    obtain ⟨before, rfl⟩ : ∃ before, deeper = before + 1 := ⟨deeper - 1, by omega⟩
    have same := settled before (by omega)
    rw [← same] at ends
    rw [(first before).eq ends, same]
  · have endless : ∀ limit, (statements (expansion limit) scope inRule ss).result = .error .endless := by
      simpa using ends
    refine ⟨.error .endless, ⟨1, fun deeper le => ?_⟩, 0, fun deeper _ => endless deeper⟩
    obtain ⟨before, rfl⟩ : ∃ before, deeper = before + 1 := ⟨deeper - 1, by omega⟩
    refine Classical.byContradiction fun other => other ?_
    exact ((second before).eq other).symm.trans (endless _)

end Resolve

open Resolve in
/-- Let no assignment be global, neither in the statements `before` nor in the mixins that
the scope knows. A call of a mixin that has no parameters, and whose body binds nothing
itself, comes to the same as the body in its place: the same nodes and scope, or the same
failure, or no end. The arguments of the call, if any, have no names and have values. -/
theorem including_inlines {scope : Scope} {inRule : Bool} {before : List Statement} {name : Text}
    {arguments : List Argument} {mixin : Mixin} (mixins : scope.EveryMixin Mixin.IsLocal)
    (free : ∀ s ∈ Statement.nodesAll before, s.IsLocal)
    (visible : ∀ nodes scope', Resolves scope inRule before nodes scope' → scope'.mixin? name = some mixin)
    (given : ∀ nodes scope', Resolves scope inRule before nodes scope' →
      ∀ argument ∈ arguments, argument.name = none ∧ ∃ v, (evaluate scope' argument.value).result = .ok v)
    (parameters : mixin.parameters = []) (nothing : ∀ s ∈ mixin.body, s.BindsNothing) (offset : Option Int)
    (after : List Statement) :
    ∃ outcome, ComesTo scope inRule (before ++ .call name arguments offset :: after) outcome ∧
      ComesTo scope inRule (before ++ (mixin.body ++ after)) outcome := by
  have deeper (limit : Nat) : (expansion limit).Kept (· ≠ .endless) (expansion (limit + 1)) :=
    expansion_kept_succ (by simp) limit
  have call (limit : Nat) {nodes : List Node} {scope' : Scope}
      (ran : (statements (expansion limit) scope inRule before).result = .ok (nodes, scope')) (n : Nat) :
      (statements (expansion (n + 1)) scope' inRule (.call name arguments offset :: after)).result =
        (statements (expansion n) scope' inRule mixin.body).result >>= fun r =>
          (statements (expansion (n + 1)) r.2 inRule after).result >>= fun r' => .ok (r.1 ++ r'.1, r'.2) := by
    have resolves := resolves_of_statements (sound_expansion limit) before ran
    have local' := (resolves.root_of_isLocal free mixins).1
    have body := expansion_eq_body local' (visible _ _ resolves) parameters nothing (given _ _ resolves) n inRule offset
    simp only [statements, statement, Traced.result_bind, body]
    rfl
  apply comesTo_of_between
  · intro limit
    rw [statements_append, statements_append]
    refine (statements_keeps (deeper limit) before scope inRule).bind ?_
    rintro ⟨nodes, scope'⟩ ran
    rw [call limit ran, statements_append, bind_assoc, bind_assoc]
    refine (keeps_refl _).bind fun r _ => ?_
    rw [bind_assoc, bind_assoc]
    exact (statements_keeps (deeper limit) after r.2 inRule).bind fun _ _ => keeps_refl _
  · intro limit
    rw [statements_append, statements_append]
    refine (keeps_refl _).bind ?_
    rintro ⟨nodes, scope'⟩ ran
    rw [call (limit + 1) ran, statements_append, bind_assoc, bind_assoc]
    exact (statements_keeps (deeper limit) mixin.body scope' inRule).bind fun r _ => keeps_refl _

/-- A mixin with a rule that binds a variable of its own, and a call of another mixin. -/
def nestingMixin : Mixin :=
  ⟨"m".toList, [],
    [.property "b".toList none [⟨.ident "$x".toList, none⟩],
      .rule ["d".toList]
        [.assignment "$x".toList none [⟨.ident "y".toList, none⟩] false false,
          .property "e".toList none [⟨.ident "$x".toList, none⟩]] 1,
      .call "n".toList [] none]⟩

def nestingScope : Scope :=
  ((Scope.empty 5).declare ⟨"n".toList, [], [.comment "/* n */".toList]⟩).declare nestingMixin

open Resolve in
theorem including_nestingMixin :
    (∃ outcome,
      ComesTo nestingScope true ([.assignment "$x".toList none [⟨.ident "z".toList, none⟩] false false] ++
        .call "m".toList [⟨none, [⟨.ident "$x".toList, none⟩]⟩] none :: []) outcome ∧
      ComesTo nestingScope true ([.assignment "$x".toList none [⟨.ident "z".toList, none⟩] false false] ++
        (nestingMixin.body ++ [])) outcome) ∧
    (statements (expansion 2) nestingScope true [.assignment "$x".toList none [⟨.ident "z".toList, none⟩] false false,
      .call "m".toList [⟨none, [⟨.ident "$x".toList, none⟩]⟩] none]).result.isOk = true := by
  have declared (mixin : Mixin) (known : mixin.IsLocal) {scope : Scope} (mixins : scope.EveryMixin Mixin.IsLocal) :
      (scope.declare mixin).EveryMixin Mixin.IsLocal := mixins.declare known
  have mixins : nestingScope.EveryMixin Mixin.IsLocal := by
    refine declared _ ?_ (declared _ ?_ (Scope.everyMixin_empty 5)) <;>
      simp [nestingMixin, Mixin.IsLocal, Statement.nodesAll, Statement.nodes, Statement.IsLocal]
  refine ⟨including_inlines mixins ?_ ?_ ?_ rfl ?_ none [], by decide +kernel⟩
  · simp [Statement.nodesAll, Statement.nodes, Statement.IsLocal]
  · intro nodes scope' resolves
    cases resolves with
    | assignment evaluated assigned rest =>
      cases rest
      obtain ⟨default, -⟩ | ⟨-, rfl⟩ := Scope.assign_ok assigned
      · cases default
      · exact Scope.mixin?_setVariable nestingScope _ _ _
  · intro nodes scope' resolves argument member
    obtain rfl := List.mem_singleton.mp member
    exact ⟨rfl, _, evaluate_ident ..⟩
  · simp [nestingMixin, Statement.BindsNothing]

def plainMixin : Mixin := ⟨"m".toList, [], [.property "b".toList none [⟨.ident "c".toList, none⟩]]⟩

open Resolve in
/-- A call that names a parameter fails where the mixin has none, and the body does not. -/
theorem including_named_argument :
    (((Scope.empty 5).declare plainMixin).EveryMixin Mixin.IsLocal ∧
      ((Scope.empty 5).declare plainMixin).mixin? "m".toList = some plainMixin ∧ plainMixin.parameters = [] ∧
      (∀ s ∈ plainMixin.body, s.BindsNothing) ∧
      ¬∃ outcome,
        ComesTo ((Scope.empty 5).declare plainMixin) true
          [.call "m".toList [⟨some "$x".toList, [⟨.ident "a".toList, none⟩]⟩] none] outcome ∧
        ComesTo ((Scope.empty 5).declare plainMixin) true plainMixin.body outcome) ∧
    failure? (compile "@mixin m \x7b b: c; \x7d a \x7b @include m($x: 1); \x7d".toList .expanded 5).result =
      some (.error (.unknownArgument "m".toList "$x".toList) (some 38)) ∧
    (compile "a \x7b b: c; \x7d".toList .expanded 5).result = .ok "a \x7b\n  b: c;\n\x7d\n".toList := by
  refine ⟨⟨?_, rfl, rfl, ?_, ?_⟩, ?_, ?_⟩
  · apply (Scope.everyMixin_empty 5).declare
    simp [plainMixin, Mixin.IsLocal, Statement.nodesAll, Statement.nodes, Statement.IsLocal]
  · simp [plainMixin, Statement.BindsNothing]
  · rintro ⟨outcome, ⟨limit, call⟩, ⟨limit', body⟩⟩
    have failed : outcome = .error (.error (.unknownArgument "m".toList "$x".toList) none) :=
      (call (limit + 1) (Nat.le_succ limit)).symm.trans rfl
    have resolved := body limit' (Nat.le_refl limit')
    simp only [plainMixin, statements, statement, if_true, Traced.result_bind, evaluate_ident, failed] at resolved
    cases resolved
  · decide +kernel
  · exact eq_ok_of_toOption (by decide +kernel)

end Stylesheet

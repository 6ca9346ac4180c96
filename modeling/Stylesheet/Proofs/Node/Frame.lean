import Stylesheet.Proofs.Node.Points
import Stylesheet.Proofs.Scope

/-! What resolution leaves as it is. A rule and a call resolve their bodies in a scope of
their own, so behind them only the root can differ; and from inside another scope the root
is reached by global assignments alone, which bind variables and no mixins. Every change
of a root variable is traced to the assignment that made it. -/
namespace Stylesheet

namespace Scope

variable {s s' inner : Scope}

structure InsideOf (s : Scope) (mixins : Table Mixin) : Prop where
  inside : s.own.isSome = true
  mixins : s.root.mixins = mixins

theorem insideOf_child (s : Scope) : s.child.InsideOf s.root.mixins := ⟨rfl, rfl⟩

theorem InsideOf.assign {mixins : Table Mixin} {name : Text} {value : Value} {isDefault isGlobal : Bool}
    (within : s.InsideOf mixins) (assigned : (s.assign name value isDefault isGlobal).result = .ok s') :
    s'.InsideOf mixins := by
  obtain ⟨own, inside⟩ := Option.isSome_iff_exists.mp within.inside
  obtain ⟨-, -, rfl⟩ | ⟨-, rfl⟩ := assign_ok assigned
  · exact within
  · rw [setVariable_of_own inside]
    cases isGlobal <;> exact ⟨rfl, within.mixins⟩

theorem InsideOf.declare {mixins : Table Mixin} (within : s.InsideOf mixins) (mixin : Mixin) :
    (s.declare mixin).InsideOf mixins := by
  obtain ⟨own, inside⟩ := Option.isSome_iff_exists.mp within.inside
  rw [declare_of_own inside]
  exact ⟨rfl, within.mixins⟩

theorem InsideOf.leave {mixins : Table Mixin} (within : s.InsideOf mixins) (behind : inner.InsideOf mixins) :
    (s.leave inner).InsideOf mixins := ⟨within.inside, behind.mixins⟩

theorem insideOf_bindArguments {mixin : Mixin} {arguments : List Argument} {offset : Option Int}
    (bound : (Resolve.bindArguments mixin arguments offset s).result = .ok inner) :
    inner.InsideOf s.root.mixins :=
  Resolve.bindArguments_invariant (I := fun t => t.InsideOf s.root.mixins)
    (fun _ _ _ _ within assigned => within.assign assigned) s.insideOf_child bound

/-- An assignment that changes a root variable from inside another scope is global, of
that name, and finds no value where it is a default. -/
theorem global_of_assign {name other : Text} {value : Value} {isDefault isGlobal : Bool}
    (inside : s.own.isSome = true) (assigned : (s.assign name value isDefault isGlobal).result = .ok s')
    (changed : s'.root.values.get? other ≠ s.root.values.get? other) :
    name = other ∧ isGlobal = true ∧ (isDefault = true → s.value? name = none) := by
  obtain ⟨own, inside⟩ := Option.isSome_iff_exists.mp inside
  obtain ⟨-, -, rfl⟩ | ⟨free, rfl⟩ := assign_ok assigned
  · exact absurd rfl changed
  · rw [setVariable_of_own inside] at changed
    cases isGlobal with
    | false => exact absurd rfl changed
    | true =>
      refine ⟨Decidable.byContradiction fun different => ?_, rfl, free⟩
      exact changed ((Table.get?_insert _ _ _ _).trans (if_neg different))

/-- Binding parameters changes no root variable. -/
theorem root_values_bindArguments {mixin : Mixin} {arguments : List Argument} {offset : Option Int}
    (bound : (Resolve.bindArguments mixin arguments offset s).result = .ok inner) (name : Text) :
    inner.root.values.get? name = s.root.values.get? name := by
  have kept : inner.own.isSome = true ∧ inner.root.values.get? name = s.root.values.get? name := by
    refine Resolve.bindArguments_invariant
      (I := fun t => t.own.isSome = true ∧ t.root.values.get? name = s.root.values.get? name) ?_ ⟨rfl, rfl⟩ bound
    intro t parameter value t' ⟨inside, same⟩ assigned
    refine ⟨((InsideOf.mk inside rfl).assign assigned).inside, Classical.byContradiction fun changed => ?_⟩
    obtain ⟨-, global, -⟩ := global_of_assign inside assigned (same ▸ changed)
    cases global
  exact kept.2

end Scope

/-- Inside another scope, resolution keeps the mixins of the root. -/
theorem Resolves.insideOf {scope scope' : Scope} {inRule : Bool} {ss : List Statement} {nodes : List Node}
    (resolves : Resolves scope inRule ss nodes scope') {mixins : Table Mixin} (within : scope.InsideOf mixins) :
    scope'.InsideOf mixins := by
  induction resolves with
  | nil => exact within
  | assignment _ assigned _ ih => exact ih (within.assign assigned)
  | property _ _ ih | comment _ ih => exact ih within
  | mixin _ ih => exact ih (within.declare _)
  | call _ bound _ _ ih ih' =>
    have entered := Scope.insideOf_bindArguments bound
    rw [within.mixins] at entered
    exact ih' (within.leave (ih entered))
  | rule _ _ ih ih' => exact ih' (within.leave (ih ⟨rfl, within.mixins⟩))

namespace Point

theorem Enters.insideOf {p q : Point} (enters : p.Enters q) : q.scope.InsideOf p.scope.root.mixins := by
  cases enters with
  | rule => exact Scope.insideOf_child _
  | call _ bound => exact Scope.insideOf_bindArguments bound

/-- Entering a body changes no root variable. -/
theorem Enters.root_values {p q : Point} (enters : p.Enters q) (name : Text) :
    q.scope.root.values.get? name = p.scope.root.values.get? name := by
  cases enters with
  | rule => rfl
  | call _ bound => exact Scope.root_values_bindArguments bound name

theorem Goes.insideOf {p q : Point} (goes : p.Goes q) {mixins : Table Mixin}
    (within : p.scope.InsideOf mixins) : q.scope.InsideOf mixins := by
  cases goes with
  | past ran =>
    exact (Resolve.resolves_of_statement (Resolve.sound_expansion _) _ ran .nil).insideOf within
  | into enters => exact within.mixins ▸ enters.insideOf

/-- Wherever resolution goes from inside another scope, the root has the same mixins. -/
theorem LeadsTo.insideOf {p q : Point} (leads : p.LeadsTo q) {mixins : Table Mixin}
    (within : p.scope.InsideOf mixins) : q.scope.InsideOf mixins := by
  induction leads with
  | refl => exact within
  | tail _ goes ih => exact goes.insideOf ih

/-- On the way from the point, a global assignment of the name takes effect. -/
def Executes (p : Point) (name : Text) : Prop :=
  ∃ scope inRule offset e isDefault rest,
    p.LeadsTo ⟨scope, inRule, .assignment name offset e isDefault true :: rest⟩ ∧
      (isDefault = true → scope.value? name = none)

theorem Goes.executes {p q : Point} {name : Text} (goes : p.Goes q) (executes : q.Executes name) :
    p.Executes name := by
  obtain ⟨scope, inRule, offset, e, isDefault, rest, leads, free⟩ := executes
  exact ⟨scope, inRule, offset, e, isDefault, rest, .head goes leads, free⟩

theorem Executes.of_rest {scope scope₁ : Scope} {inRule : Bool} {s : Statement} {rest : List Statement}
    {nodes : List Node} {name : Text} (first : Resolves scope inRule [s] nodes scope₁)
    (executes : Executes ⟨scope₁, inRule, rest⟩ name) : Executes ⟨scope, inRule, s :: rest⟩ name :=
  (goes_of_resolves first rest).executes executes

/-- Where changes of the body are executed in the body, a change behind the body is executed
on the way from the statement it belongs to. -/
theorem Enters.executes {p q : Point} {name : Text} {after : Scope} (enters : p.Enters q)
    (body : q.scope.own.isSome = true → after.root.values.get? name ≠ q.scope.root.values.get? name →
      q.Executes name)
    (changed : after.root.values.get? name ≠ p.scope.root.values.get? name) : p.Executes name := by
  rw [← enters.root_values] at changed
  exact (Goes.into enters).executes (body enters.insideOf.inside changed)

end Point

/-- Inside another scope, a root variable changes only where a global assignment of it is
executed. -/
theorem Resolves.executes_of_changed {scope scope' : Scope} {inRule : Bool} {ss : List Statement}
    {nodes : List Node} {name : Text} (resolves : Resolves scope inRule ss nodes scope')
    (inside : scope.own.isSome = true)
    (changed : scope'.root.values.get? name ≠ scope.root.values.get? name) :
    Point.Executes ⟨scope, inRule, ss⟩ name := by
  induction resolves with
  | nil => exact absurd rfl changed
  | @assignment scope scope₁ _ inRule target offset e isDefault isGlobal _ ss _ evaluated assigned _ ih =>
    by_cases here : scope₁.root.values.get? name = scope.root.values.get? name
    · have within := (Scope.InsideOf.mk inside rfl).assign assigned
      exact .of_rest (.assignment evaluated assigned .nil) (ih within.inside (here ▸ changed))
    · obtain ⟨rfl, rfl, free⟩ := Scope.global_of_assign inside assigned here
      exact ⟨_, _, _, _, _, _, .refl, free⟩
  | property evaluated _ ih => exact .of_rest (.property evaluated .nil) (ih inside changed)
  | mixin _ ih =>
    obtain ⟨own, has⟩ := Option.isSome_iff_exists.mp inside
    have declared := Scope.declare_of_own has
    exact .of_rest (.mixin .nil) (ih (by rw [declared]; rfl) (by rw [declared]; exact changed))
  | @call scope inner inner' _ inRule _ _ _ _ _ _ _ found bound expanded rest ih ih' =>
    -- Either the body changes the variable, or the statements behind the call do.
    by_cases here : inner'.root.values.get? name = scope.root.values.get? name
    · refine .of_rest (.call found bound expanded .nil) (ih' inside ?_)
      exact fun same => changed (same.trans here)
    · exact Point.Enters.executes (.call found bound) ih here
  | @rule scope inner _ _ _ _ _ _ _ _ nested rest ih ih' =>
    by_cases here : inner.root.values.get? name = scope.root.values.get? name
    · refine .of_rest (.rule nested .nil) (ih' inside ?_)
      exact fun same => changed (same.trans here)
    · exact Point.Enters.executes .rule ih here
  | comment _ ih => exact .of_rest (.comment .nil) (ih inside changed)

def Statement.OpensScope : Statement → Prop
  | .rule .. | .call .. => True
  | _ => False

/-- Behind a statement that opens a scope stands the scope before it, with the root as the
body leaves it. -/
theorem Resolves.enters_of_opensScope {scope scope' : Scope} {inRule : Bool} {s : Statement} {nodes : List Node}
    (opens : s.OpensScope) (resolves : Resolves scope inRule [s] nodes scope') :
    ∃ q children inner, Point.Enters ⟨scope, inRule, [s]⟩ q ∧
      Resolves q.scope q.inRule q.rest children inner ∧ scope' = scope.leave inner := by
  cases resolves with
  | assignment | property | mixin | comment => exact opens.elim
  | call found bound expanded rest =>
    cases rest
    exact ⟨_, _, _, .call found bound, expanded, rfl⟩
  | rule nested rest =>
    cases rest
    exact ⟨_, _, _, .rule, nested, rfl⟩

/-- Behind a rule or a call the mixins of a scope are as before, and so are its variables
if it is inside another; a root variable differs only if a global assignment of it was
executed inside. From within another scope the mixins of the root are never changed. -/
theorem opened_scopes_keep_bindings {limit : Nat} {scope scope' : Scope} {inRule : Bool} {s : Statement}
    {nodes : List Node} (opens : s.OpensScope)
    (ran : (Resolve.statement (Resolve.expansion limit) scope inRule s).result = .ok (nodes, scope')) :
    scope'.current.mixins = scope.current.mixins ∧
      (scope.own.isSome = true → scope'.current.values = scope.current.values) ∧
      (∀ name, scope'.root.values.get? name ≠ scope.root.values.get? name →
        Point.Executes ⟨scope, inRule, [s]⟩ name) ∧
      ∀ p q : Point, p.scope.own.isSome = true → p.LeadsTo q → q.scope.root.mixins = p.scope.root.mixins := by
  have resolves := Resolve.resolves_of_statement (Resolve.sound_expansion limit) s ran .nil
  obtain ⟨q, children, inner, enters, body, rfl⟩ := resolves.enters_of_opensScope opens
  refine ⟨?_, ?_, ?_, ?_⟩
  · cases has : scope.own with
    | none =>
      rw [Scope.current_of_root (by exact has), Scope.current_of_root has]
      exact (body.insideOf enters.insideOf).mixins
    | some own => rw [Scope.current_of_own (by exact has), Scope.current_of_own has]
  · intro inside
    obtain ⟨own, has⟩ := Option.isSome_iff_exists.mp inside
    rw [Scope.current_of_own (by exact has), Scope.current_of_own has]
  · intro name changed
    exact enters.executes body.executes_of_changed changed
  · intro p q inside leads
    exact (leads.insideOf ⟨inside, rfl⟩).mixins

/-- A root scope with a mixin that assigns one variable inside and one globally, and
declares itself anew. -/
def exportingScope : Scope :=
  (Scope.empty 5).declare ⟨"m".toList, [],
    [.assignment "$x".toList none [⟨.ident "a".toList, none⟩] false false,
      .assignment "$y".toList none [⟨.ident "b".toList, none⟩] true true,
      .mixin "m".toList [] []]⟩

theorem exportingScope_keeps_bindings : ∃ nodes scope',
    (Resolve.statement (Resolve.expansion 1) exportingScope false (.call "m".toList [] none)).result =
        .ok (nodes, scope') ∧
      scope'.root.values.names = ["$y".toList] ∧
      scope'.current.mixins = exportingScope.current.mixins ∧
      Point.Executes ⟨exportingScope, false, [.call "m".toList [] none]⟩ "$y".toList := by
  have names : (Resolve.statement (Resolve.expansion 1) exportingScope false
      (.call "m".toList [] none)).result.toOption.map
        (fun r => (r.2.root.values.names, (r.2.root.values.get? "$y".toList).isSome)) =
      some (["$y".toList], true) := by decide +kernel
  obtain ⟨⟨nodes, scope'⟩, found, seen⟩ := Option.map_eq_some_iff.mp names
  obtain ⟨named, bound⟩ := Prod.mk.inj seen
  have ran := eq_ok_of_toOption found
  obtain ⟨mixins, -, changes, -⟩ := opened_scopes_keep_bindings (s := .call _ _ _) trivial ran
  refine ⟨nodes, scope', ran, named, mixins, changes _ ?_⟩
  intro same
  rw [same] at bound
  cases bound

end Stylesheet

import Stylesheet.Proofs.Node.Points
import Stylesheet.Proofs.Node.Shape
import Stylesheet.Proofs.Statement.Lexemes
import Stylesheet.Proofs.Value.WellFormed

/-! Well formed values throughout a resolution. Wherever it stands, every variable of
every scope is well formed and, if it is a number, computed; for the expressions it
evaluates are those of the statements and of the mixins declared so far, whose tokens come
from scanning. -/
namespace Stylesheet

/-- A value as a variable holds it: well formed and, if it is a number, computed. -/
def Value.IsBound (v : Value) : Prop := v.IsWellFormed ∧ ∀ q, v = .number q → q.computed = true

theorem Value.IsWellFormed.asBound {v : Value} (good : v.IsWellFormed) : v.asBound.IsBound := by
  cases v with
  | number q =>
    refine ⟨good, ?_⟩
    intro q' same
    cases same
    rfl
  | text | list | color => exact ⟨good, by simp [Value.asBound]⟩

def Node.IsWellFormed : Node → Prop
  | .property _ _ value => value.IsWellFormed
  | _ => True

abbrev Statement.IsMade (s : Statement) : Prop := s.Worded (·.token.IsMade)

/-- The tokens in the defaults and in the body of the mixin are made. -/
def Mixin.IsMade (m : Mixin) : Prop := ∀ s ∈ (Statement.mixin m.name m.parameters m.body).nodes, s.IsMade

theorem Mixin.IsMade.body {m : Mixin} (made : m.IsMade) : ∀ s ∈ Statement.nodesAll m.body, s.IsMade :=
  fun s member => made s (List.mem_cons_of_mem _ member)

theorem Mixin.IsMade.default {m : Mixin} (made : m.IsMade) {parameter : Parameter} (member : parameter ∈ m.parameters)
    {e : Expression} (default : e ∈ parameter.default) : ∀ l ∈ e, l.token.IsMade :=
  made _ List.mem_cons_self e (List.mem_filterMap.mpr ⟨parameter, member, default⟩)

/-- Every variable is as variables are, and every mixin is made. -/
structure Bindings.IsRegular (b : Bindings) : Prop where
  values : ∀ entry ∈ b.values, entry.2.IsBound
  mixins : ∀ entry ∈ b.mixins, entry.2.IsMade

namespace Scope

variable {s s' inner : Scope}

abbrev IsRegular (s : Scope) : Prop := s.Each Bindings.IsRegular

theorem isRegular_empty (precision : Int) : (empty precision).IsRegular :=
  ⟨⟨by simp [empty], by simp [empty]⟩, by simp [empty]⟩

theorem IsRegular.everyValue (regular : s.IsRegular) : s.EveryValue Value.IsBound :=
  ⟨regular.1.values, fun own has => (regular.2 own has).values⟩

theorem IsRegular.wellFormed (regular : s.IsRegular) : s.EveryValue Value.IsWellFormed :=
  ⟨fun entry member => (regular.1.values entry member).1,
    fun own has entry member => ((regular.2 own has).values entry member).1⟩

theorem IsRegular.mixin? {name : Text} {mixin : Mixin} (regular : s.IsRegular)
    (found : s.mixin? name = some mixin) : mixin.IsMade :=
  EveryMixin.mixin? ⟨regular.1.mixins, fun own has => (regular.2 own has).mixins⟩ found

theorem IsRegular.assign {name : Text} {value : Value} {isDefault isGlobal : Bool} (regular : s.IsRegular)
    (good : value.IsWellFormed) (assigned : (s.assign name value isDefault isGlobal).result = .ok s') :
    s'.IsRegular :=
  Each.assign regular (fun _ before => ⟨Table.forall_mem_insert before.values good.asBound, before.mixins⟩) assigned

theorem IsRegular.declare {mixin : Mixin} (regular : s.IsRegular) (made : mixin.IsMade) :
    (s.declare mixin).IsRegular :=
  Each.update regular fun _ before => ⟨before.values, Table.forall_mem_insert before.mixins made⟩

theorem IsRegular.evaluate {e : Expression} {v : Value} (regular : s.IsRegular) (made : ∀ l ∈ e, l.token.IsMade)
    (evaluated : (evaluate s e).result = .ok v) : v.IsWellFormed :=
  evaluate_isWellFormed regular.wellFormed made evaluated

/-- Whichever of the parameters are bound, the scope is regular. -/
theorem IsRegular.bindParameters {mixin : Mixin} {arguments : List Argument} {offset : Option Int}
    {parameters : List Parameter} {named : Table Value} {positional : List Value} (regular : s.IsRegular)
    (made : ∀ argument ∈ arguments, ∀ l ∈ argument.value, l.token.IsMade)
    (defaults : ∀ parameter ∈ parameters, ∀ e ∈ parameter.default, ∀ l ∈ e, l.token.IsMade)
    (collected : (Resolve.collect s mixin arguments [] []).result = .ok (named, positional))
    (bound : (Resolve.bindParameters mixin.name offset named parameters positional s.child).result = .ok inner) :
    inner.IsRegular := by
  obtain ⟨given, others⟩ := Resolve.collect_values (V := Value.IsWellFormed)
    (fun argument member v evaluated => regular.evaluate (made argument member) evaluated) (by simp) (by simp)
    collected
  refine Resolve.bindParameters_keeps (fun _ _ _ _ _ before good assigned => before.assign good assigned) given others
    ?_ (Each.child regular) bound
  intro parameter member e default t v before evaluated
  exact before.evaluate (defaults parameter member e default) evaluated

theorem IsRegular.bindArguments {mixin : Mixin} {arguments : List Argument} {offset : Option Int}
    (regular : s.IsRegular) (made : ∀ argument ∈ arguments, ∀ l ∈ argument.value, l.token.IsMade)
    (declared : mixin.IsMade)
    (bound : (Resolve.bindArguments mixin arguments offset s).result = .ok inner) : inner.IsRegular := by
  obtain ⟨named, positional, collected, bound⟩ := Resolve.bindArguments_ok bound
  exact regular.bindParameters made (fun _ member _ default => declared.default member default) collected bound

end Scope

/-- What is made at any depth is made here, in the body and in what follows. -/
theorem Statement.isMade_cons {s : Statement} {ss : List Statement} (made : ∀ r ∈ nodesAll (s :: ss), r.IsMade) :
    (∀ e ∈ s.expressions, ∀ l ∈ e, l.token.IsMade) ∧ (∀ r ∈ s.nodes, r.IsMade) ∧ ∀ r ∈ nodesAll ss, r.IsMade := by
  obtain ⟨here, there⟩ := List.forall_mem_append.mp made
  have first : s ∈ s.nodes := by cases s <;> simp [nodes]
  exact ⟨here s first, here, there⟩

/-- Resolution keeps scopes regular and makes well formed values. -/
theorem Resolves.isRegular {scope scope' : Scope} {inRule : Bool} {ss : List Statement} {nodes : List Node}
    (resolves : Resolves scope inRule ss nodes scope') (regular : scope.IsRegular)
    (made : ∀ s ∈ Statement.nodesAll ss, s.IsMade) :
    scope'.IsRegular ∧ ∀ n ∈ Node.nodesAll nodes, n.IsWellFormed := by
  induction resolves with
  | nil => exact ⟨regular, by simp [Node.nodesAll]⟩
  | assignment evaluated assigned _ ih =>
    obtain ⟨here, -, there⟩ := Statement.isMade_cons made
    have good := regular.evaluate (here _ List.mem_cons_self) evaluated
    exact ih (regular.assign good assigned) there
  | property evaluated _ ih =>
    obtain ⟨here, -, there⟩ := Statement.isMade_cons made
    obtain ⟨behind, others⟩ := ih regular there
    have good := regular.evaluate (here _ List.mem_cons_self) evaluated
    exact ⟨behind, List.forall_mem_cons.mpr ⟨good, others⟩⟩
  | mixin _ ih =>
    obtain ⟨-, whole, there⟩ := Statement.isMade_cons made
    exact ih (regular.declare whole) there
  | call found bound _ _ ih ih' =>
    obtain ⟨here, -, there⟩ := Statement.isMade_cons made
    have declared := regular.mixin? found
    have entered := regular.bindArguments (fun _ member => here _ (List.mem_map_of_mem member)) declared bound
    obtain ⟨inner, expanded⟩ := ih entered declared.body
    obtain ⟨behind, others⟩ := ih' (Scope.Each.leave regular inner) there
    rw [Node.nodesAll_append]
    exact ⟨behind, List.forall_mem_append.mpr ⟨expanded, others⟩⟩
  | rule _ _ ih ih' =>
    obtain ⟨-, whole, there⟩ := Statement.isMade_cons made
    obtain ⟨inner, children⟩ := ih (Scope.Each.child regular) (List.forall_mem_cons.mp whole).2
    obtain ⟨behind, others⟩ := ih' (Scope.Each.leave regular inner) there
    exact ⟨behind, List.forall_mem_append.mpr ⟨List.forall_mem_cons.mpr ⟨trivial, children⟩, others⟩⟩
  | comment _ ih =>
    obtain ⟨-, -, there⟩ := Statement.isMade_cons made
    obtain ⟨behind, others⟩ := ih regular there
    exact ⟨behind, List.forall_mem_cons.mpr ⟨trivial, others⟩⟩

namespace Point

variable {p q : Point} {s : Scope}

structure IsRegular (p : Point) : Prop where
  scope : p.scope.IsRegular
  rest : ∀ s ∈ Statement.nodesAll p.rest, s.IsMade

theorem Enters.isRegular (enters : p.Enters q) (regular : p.IsRegular) : q.IsRegular := by
  cases enters with
  | rule =>
    obtain ⟨-, whole, -⟩ := Statement.isMade_cons regular.rest
    exact ⟨Scope.Each.child regular.scope, (List.forall_mem_cons.mp whole).2⟩
  | call found bound =>
    obtain ⟨here, -, -⟩ := Statement.isMade_cons regular.rest
    have declared := regular.scope.mixin? found
    exact ⟨regular.scope.bindArguments (fun _ member => here _ (List.mem_map_of_mem member)) declared bound,
      declared.body⟩

theorem Goes.isRegular (goes : p.Goes q) (regular : p.IsRegular) : q.IsRegular := by
  cases goes with
  | past ran =>
    obtain ⟨-, whole, there⟩ := Statement.isMade_cons regular.rest
    have resolves := Resolve.resolves_of_statement (Resolve.sound_expansion _) _ ran .nil
    refine ⟨(resolves.isRegular regular.scope ?_).1, there⟩
    rw [Statement.nodesAll, Statement.nodesAll, List.append_nil]
    exact whole
  | into enters => exact enters.isRegular regular

theorem LeadsTo.isRegular (leads : p.LeadsTo q) (regular : p.IsRegular) : q.IsRegular := by
  induction leads with
  | refl => exact regular
  | tail _ goes ih => exact goes.isRegular ih

/-- On the way from the point there is this scope: that of a point which resolution comes
to, one in which some of the parameters of a called mixin are bound, or one around those,
which shares their root. -/
inductive Visits : Point → Scope → Prop where
  | here {p q : Point} (leads : p.LeadsTo q) : Visits p q.scope
  | binding {p : Point} {scope inner : Scope} {inRule : Bool} {name : Text} {arguments : List Argument}
      {offset : Option Int} {rest : List Statement} {mixin : Mixin} {named : Table Value} {positional : List Value}
      {parameters : List Parameter} (leads : p.LeadsTo ⟨scope, inRule, .call name arguments offset :: rest⟩)
      (found : scope.mixin? name = some mixin)
      (collected : (Resolve.collect scope mixin arguments [] []).result = .ok (named, positional))
      (some : parameters <+: mixin.parameters)
      (bound : (Resolve.bindParameters mixin.name offset named parameters positional scope.child).result = .ok inner) :
      Visits p inner
  | around {p q r : Point} {s : Scope} (leads : p.LeadsTo q) (enters : q.Enters r) (visits : Visits r s) :
      Visits p (q.scope.leave s)

theorem Visits.isRegular (visits : p.Visits s) (regular : p.IsRegular) : s.IsRegular := by
  induction visits with
  | here leads => exact (leads.isRegular regular).scope
  | binding leads found collected some bound =>
    have calling := leads.isRegular regular
    obtain ⟨here, -, -⟩ := Statement.isMade_cons calling.rest
    have declared := calling.scope.mixin? found
    exact calling.scope.bindParameters (fun _ member => here _ (List.mem_map_of_mem member))
      (fun _ member _ default => declared.default (some.subset member) default) collected bound
  | around leads enters _ ih =>
    have outer := leads.isRegular regular
    exact Scope.Each.leave outer.scope (ih (enters.isRegular outer))

end Point

/-- Where parsed statements are resolved from, everything is made and nothing is bound. -/
theorem isRegular_of_parse {source : Text} {ss : List Statement} (parsed : (parse source).result = .ok ss)
    (precision : Int) (inRule : Bool) : Point.IsRegular ⟨Scope.empty precision, inRule, ss⟩ :=
  ⟨Scope.isRegular_empty precision,
    parse_worded (fun _ member _ read => Outcome.isMade_of_mem_scan member read) parsed⟩

/-- Values are well formed: that of every expression in a scope whose variables are, every
variable of every scope on the way of a resolution, where numbers are computed besides, and
those of the properties it comes to. -/
theorem values_isWellFormed :
    (∀ scope e v, scope.EveryValue Value.IsWellFormed → (∀ l ∈ e, l.token.IsMade) →
        (evaluate scope e).result = .ok v → v.IsWellFormed) ∧
      ∀ source ss precision, (parse source).result = .ok ss →
        (∀ scope, Point.Visits ⟨Scope.empty precision, false, ss⟩ scope → scope.EveryValue Value.IsBound) ∧
          ∀ nodes, (resolve (Scope.empty precision) ss).result = .ok nodes →
            ∀ n ∈ Node.nodesAll nodes, n.IsWellFormed := by
  refine ⟨?_, ?_⟩
  · intro scope e v every made evaluated
    exact evaluate_isWellFormed every made evaluated
  · intro source ss precision parsed
    have regular := isRegular_of_parse parsed precision false
    refine ⟨?_, ?_⟩
    · intro scope visits
      exact (visits.isRegular regular).everyValue
    · intro nodes resolved
      obtain ⟨_, resolves⟩ := resolve_ok resolved
      exact (resolves.isRegular regular.scope regular.rest).2

/-- A mixin with a list for a default changes a colour globally. -/
def recoloringSource : Text :=
  "$c: #abc; @mixin m($n: 1/2 a) \x7b $c: $c + 99 !global; p: $n; \x7d a \x7b @include m; q: rgb(300, 0, 0), $c; \x7d".toList

theorem values_isWellFormed_recoloring : ∃ ss nodes,
    (parse recoloringSource).result = .ok ss ∧ (resolve (Scope.empty 5) ss).result = .ok nodes ∧
      (Node.properties nodes).length = 2 ∧ (∀ n ∈ Node.nodesAll nodes, n.IsWellFormed) ∧
      ∀ scope, Point.Visits ⟨Scope.empty 5, false, ss⟩ scope → scope.EveryValue Value.IsBound := by
  have ran : ((parse recoloringSource).result.toOption.bind fun ss =>
      (resolve (Scope.empty 5) ss).result.toOption.map fun nodes => (Node.properties nodes).length) = some 2 := by
    decide +kernel
  obtain ⟨ss, parsed, ran⟩ := Option.bind_eq_some_iff.mp ran
  obtain ⟨nodes, resolved, count⟩ := Option.map_eq_some_iff.mp ran
  have parsed := eq_ok_of_toOption parsed
  have resolved := eq_ok_of_toOption resolved
  obtain ⟨-, wellFormed⟩ := values_isWellFormed
  obtain ⟨visited, listed⟩ := wellFormed _ ss 5 parsed
  exact ⟨ss, nodes, parsed, resolved, count, listed nodes resolved, visited⟩

end Stylesheet

import Stylesheet.Proofs.Node.Points

/-! Resolution one statement at a time. A walk keeps the scopes that are open. It goes
past a statement, into the body of a rule or of a mixin that is called, or out of a body
at its end. All resolution is such a walk, and a walk that comes to its end has resolved
what it started with. -/
namespace Stylesheet

/-- A scope that is open: the heading of the rule whose body it is, the point reached in
it, its nodes so far, and the names that have been bound in it, by assignments or as
parameters. -/
structure OpenScope where
  heading : Option (List Text × Nat)
  point : Point
  nodes : List Node
  bound : List Text

/-- What a body becomes around it, once more nodes have been added: a rule, or the nodes
themselves where it is that of a mixin. -/
def OpenScope.closed (s : OpenScope) (more : List Node) : List Node :=
  match s.heading with
  | some (selectors, depth) => [.rule selectors (s.nodes ++ more) depth]
  | none => s.nodes ++ more

/-- The open scopes, the innermost and those around it, the nearest first. Those around
stand behind the statement whose body is being resolved. -/
structure Walk where
  inner : OpenScope
  outer : List OpenScope

namespace Walk

def start (root : Bindings) (precision : Int) (ss : List Statement) : Walk :=
  ⟨⟨none, ⟨⟨root, none, precision⟩, false, ss⟩, [], []⟩, []⟩

open Resolve in
/-- One step. A default that finds a value binds nothing. -/
inductive Step : Walk → Walk → Prop where
  | assignment {s : OpenScope} {outer : List OpenScope} {scope scope' : Scope} {inRule : Bool} {name : Text}
      {offset : Option Int} {e : Expression} {isDefault isGlobal : Bool} {value : Value} {rest : List Statement}
      (here : s.point = ⟨scope, inRule, .assignment name offset e isDefault isGlobal :: rest⟩)
      (evaluated : (evaluate scope e).result = .ok value)
      (assigned : (scope.assign name value isDefault isGlobal).result = .ok scope') :
      Step ⟨s, outer⟩
        ⟨{ s with
            point := ⟨scope', inRule, rest⟩
            bound := if isDefault && (scope.value? name).isSome then s.bound else name :: s.bound }, outer⟩
  | property {s : OpenScope} {outer : List OpenScope} {scope : Scope} {name : Text} {offset : Option Int}
      {e : Expression} {value : Value} {rest : List Statement}
      (here : s.point = ⟨scope, true, .property name offset e :: rest⟩)
      (evaluated : (evaluate scope e).result = .ok value) :
      Step ⟨s, outer⟩
        ⟨{ s with point := ⟨scope, true, rest⟩, nodes := s.nodes ++ [.property name offset value] }, outer⟩
  | mixin {s : OpenScope} {outer : List OpenScope} {scope : Scope} {inRule : Bool} {name : Text}
      {parameters : List Parameter} {body rest : List Statement}
      (here : s.point = ⟨scope, inRule, .mixin name parameters body :: rest⟩) :
      Step ⟨s, outer⟩ ⟨{ s with point := ⟨scope.declare ⟨name, parameters, body⟩, inRule, rest⟩ }, outer⟩
  | comment {s : OpenScope} {outer : List OpenScope} {scope : Scope} {inRule : Bool} {text : Text}
      {rest : List Statement} (here : s.point = ⟨scope, inRule, .comment text :: rest⟩) :
      Step ⟨s, outer⟩ ⟨{ s with point := ⟨scope, inRule, rest⟩, nodes := s.nodes ++ [.comment text] }, outer⟩
  | enterRule {s : OpenScope} {outer : List OpenScope} {scope : Scope} {inRule : Bool} {selectors : List Text}
      {body rest : List Statement} {depth : Nat}
      (here : s.point = ⟨scope, inRule, .rule selectors body depth :: rest⟩) :
      Step ⟨s, outer⟩
        ⟨⟨some (selectors, depth), ⟨scope.child, true, body⟩, [], []⟩,
          { s with point := ⟨scope, inRule, rest⟩ } :: outer⟩
  | enterCall {s : OpenScope} {outer : List OpenScope} {scope inner : Scope} {inRule : Bool} {name : Text}
      {arguments : List Argument} {offset : Option Int} {mixin : Mixin} {rest : List Statement}
      (here : s.point = ⟨scope, inRule, .call name arguments offset :: rest⟩)
      (found : scope.mixin? name = some mixin)
      (bound : (bindArguments mixin arguments offset scope).result = .ok inner) :
      Step ⟨s, outer⟩
        ⟨⟨none, ⟨inner, inRule, mixin.body⟩, [], mixin.parameters.map (·.name)⟩,
          { s with point := ⟨scope, inRule, rest⟩ } :: outer⟩
  | leave {s around : OpenScope} {outer : List OpenScope} (ended : s.point.rest = []) :
      Step ⟨s, around :: outer⟩
        ⟨{ around with
            point := { around.point with scope := around.point.scope.leave s.point.scope }
            nodes := around.nodes ++ s.closed [] }, outer⟩

abbrev Reaches (u w : Walk) : Prop := Relation.ReflTransGen Step u w

/-- What resolves is walked through, in a scope inside any others. -/
theorem reaches_of_resolves {scope scope' : Scope} {inRule : Bool} {ss : List Statement} {nodes : List Node}
    (resolves : Resolves scope inRule ss nodes scope') (heading : Option (List Text × Nat)) (before : List Node)
    (bound : List Text) (outer : List OpenScope) :
    ∃ bound', Reaches ⟨⟨heading, ⟨scope, inRule, ss⟩, before, bound⟩, outer⟩
      ⟨⟨heading, ⟨scope', inRule, []⟩, before ++ nodes, bound'⟩, outer⟩ := by
  induction resolves generalizing heading before bound outer with
  | nil => exact ⟨bound, by rw [List.append_nil]⟩
  | assignment evaluated assigned _ ih =>
    obtain ⟨bound', path⟩ := ih heading before _ outer
    exact ⟨bound', .head (.assignment rfl evaluated assigned) path⟩
  | property evaluated _ ih =>
    obtain ⟨bound', path⟩ := ih heading (before ++ [_]) bound outer
    rw [List.append_assoc] at path
    exact ⟨bound', .head (.property rfl evaluated) path⟩
  | mixin _ ih =>
    obtain ⟨bound', path⟩ := ih heading before bound outer
    exact ⟨bound', .head (.mixin rfl) path⟩
  | @call scope _ _ _ inRule _ _ _ mixin rest nodes _ found entered _ _ ih ih' =>
    obtain ⟨names, body⟩ := ih none [] (mixin.parameters.map (·.name))
      (⟨heading, ⟨scope, inRule, rest⟩, before, bound⟩ :: outer)
    obtain ⟨bound', path⟩ := ih' heading (before ++ nodes) bound outer
    rw [List.append_assoc] at path
    refine ⟨bound', .head (.enterCall rfl found entered) (body.trans (.head (.leave rfl) ?_))⟩
    simpa [OpenScope.closed] using path
  | @rule scope _ _ inRule selectors depth _ rest children _ _ _ ih ih' =>
    obtain ⟨names, body⟩ := ih (some (selectors, depth)) [] []
      (⟨heading, ⟨scope, inRule, rest⟩, before, bound⟩ :: outer)
    obtain ⟨bound', path⟩ := ih' heading (before ++ [.rule selectors children depth]) bound outer
    rw [List.append_assoc] at path
    refine ⟨bound', .head (.enterRule rfl) (body.trans (.head (.leave rfl) ?_))⟩
    simpa [OpenScope.closed] using path
  | comment _ ih =>
    obtain ⟨bound', path⟩ := ih heading (before ++ [_]) bound outer
    rw [List.append_assoc] at path
    exact ⟨bound', .head (.comment rfl) path⟩

/-- Once a body has become nodes, and has left a scope behind, the scopes around it resolve
to the nodes of the whole. -/
def Awaits (nodes : List Node) (scope : Scope) : List OpenScope → List Node → Scope → Prop
  | [], inside, inner => inside = nodes ∧ inner = scope
  | s :: outer, inside, inner => ∃ more scope',
      Resolves (s.point.scope.leave inner) s.point.inRule s.point.rest more scope' ∧
        Awaits nodes scope outer (s.closed (inside ++ more)) scope'

/-- What is left to resolve leads to the nodes of the whole, and leaves the scope
behind. -/
def Finishes (nodes : List Node) (scope : Scope) (w : Walk) : Prop :=
  ∃ more scope', Resolves w.inner.point.scope w.inner.point.inRule w.inner.point.rest more scope' ∧
    Awaits nodes scope w.outer (w.inner.closed more) scope'

theorem closed_append (s : OpenScope) (point : Point) (new more : List Node) (bound : List Text) :
    (OpenScope.mk s.heading point (s.nodes ++ new) bound).closed more = s.closed (new ++ more) := by
  simp only [OpenScope.closed, List.append_assoc]

/-- Backwards, a step keeps what the walk leads to. -/
theorem Step.finishes {u w : Walk} {nodes : List Node} {scope : Scope} (step : u.Step w)
    (finishes : w.Finishes nodes scope) : u.Finishes nodes scope := by
  obtain ⟨more, scope', resolves, awaits⟩ := finishes
  cases step with
  | assignment here evaluated assigned =>
    refine ⟨more, scope', ?_, awaits⟩
    rw [here]
    exact .assignment evaluated assigned resolves
  | property here evaluated =>
    refine ⟨_ :: more, scope', ?_, closed_append .. ▸ awaits⟩
    rw [here]
    exact .property evaluated resolves
  | mixin here =>
    refine ⟨more, scope', ?_, awaits⟩
    rw [here]
    exact .mixin resolves
  | comment here =>
    refine ⟨_ :: more, scope', ?_, closed_append .. ▸ awaits⟩
    rw [here]
    exact .comment resolves
  | enterRule here =>
    obtain ⟨others, scope₁, rest, awaits⟩ := awaits
    refine ⟨_ :: others, scope₁, ?_, awaits⟩
    rw [here]
    exact .rule resolves rest
  | enterCall here found bound =>
    obtain ⟨others, scope₁, rest, awaits⟩ := awaits
    refine ⟨more ++ others, scope₁, ?_, awaits⟩
    rw [here]
    exact .call found bound resolves rest
  | leave ended =>
    refine ⟨[], _, ?_, more, scope', resolves, closed_append .. ▸ awaits⟩
    rw [ended]
    exact .nil

theorem Reaches.finishes {u w : Walk} {nodes : List Node} {scope : Scope} (path : u.Reaches w)
    (finishes : w.Finishes nodes scope) : u.Finishes nodes scope := by
  induction path using Relation.ReflTransGen.head_induction_on with
  | refl => exact finishes
  | head step _ ih => exact step.finishes ih

/-- The walks from the start to the end are what is resolved within some limit. -/
theorem reaches_end_iff {root : Bindings} {precision : Int} {ss : List Statement} {nodes : List Node}
    {scope : Scope} :
    (∃ bound, (start root precision ss).Reaches ⟨⟨none, ⟨scope, false, []⟩, nodes, bound⟩, []⟩) ↔
      ∃ limit, (Resolve.statements (Resolve.expansion limit) ⟨root, none, precision⟩ false ss).result =
        .ok (nodes, scope) := by
  constructor
  · rintro ⟨bound, path⟩
    have ended : Finishes nodes scope ⟨⟨none, ⟨scope, false, []⟩, nodes, bound⟩, []⟩ :=
      ⟨[], scope, .nil, List.append_nil nodes, rfl⟩
    obtain ⟨more, scope', resolves, same, rfl⟩ := Reaches.finishes path ended
    have whole : more = nodes := same
    rw [whole] at resolves
    exact Resolve.exists_limit resolves
  · rintro ⟨limit, ran⟩
    have resolves := Resolve.resolves_of_statements (Resolve.sound_expansion limit) ss ran
    exact reaches_of_resolves resolves none [] [] []

end Walk

end Stylesheet

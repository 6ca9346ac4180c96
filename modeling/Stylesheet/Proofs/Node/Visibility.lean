import Stylesheet.Compile
import Stylesheet.Proofs.Node.Frame
import Stylesheet.Proofs.Node.Walk
import Stylesheet.Proofs.Value.Nesting

/-! Where a global binding is seen. A scope copies what is around it when it is entered, so
open scopes that have not bound a name all have what the root had of it when the outermost
of them was entered. A global binding that is made later, in a scope inside, is seen by
them only if that was nothing. -/
namespace Stylesheet

/-- A mixin's body has what the caller has of a name that is no parameter. -/
theorem Scope.current_bindArguments {s inner : Scope} {name : Text} {mixin : Mixin} {arguments : List Argument}
    {offset : Option Int} (bound : (Resolve.bindArguments mixin arguments offset s).result = .ok inner)
    (free : name ∉ mixin.parameters.map (·.name)) :
    inner.current.values.get? name = s.current.values.get? name := by
  obtain ⟨named, positional, -, bound⟩ := Resolve.bindArguments_ok bound
  have start : s.child.current.values.get? name = s.current.values.get? name := rfl
  refine Resolve.bindParameters_keeps (V := fun _ => True)
    (I := fun t => t.current.values.get? name = s.current.values.get? name) ?_ (fun _ _ => trivial)
    (fun _ _ => trivial) (fun _ _ _ _ _ _ _ _ => trivial) start bound
  intro parameter member t value t' same _ assigned
  obtain ⟨default, -⟩ | ⟨-, rfl⟩ := assign_ok assigned
  · cases default
  · have other : parameter.name ≠ name := fun same => free (same ▸ List.mem_map_of_mem member)
    rw [current_setVariable, if_neg other, same]

def OpenScope.own (s : OpenScope) (name : Text) : Option Value := s.point.scope.current.values.get? name

namespace Walk

variable {u w : Walk} {name : Text}

def value? (w : Walk) (name : Text) : Option Value := w.inner.point.scope.value? name

def root (w : Walk) (name : Text) : Option Value := w.inner.point.scope.root.values.get? name

def inside (w : Walk) : List OpenScope := (w.inner :: w.outer).dropLast

/-- What the root had of a name when the outermost scope inside it that is still open was
entered; what it has now if there is none. -/
def atEntry (w : Walk) (name : Text) : Option Value :=
  (w.outer.getLastD w.inner).point.scope.root.values.get? name

/-- The last of the scopes is the root. Any other has of the name what the next one has,
unless it has bound it. -/
def Inherits (name : Text) : OpenScope → List OpenScope → Prop
  | s, [] => s.point.scope.own = none
  | s, around :: outer =>
    s.point.scope.own.isSome = true ∧ (name ∉ s.bound → s.own name = around.own name) ∧ Inherits name around outer

/-- The innermost scope may change, as far as it is not the root and has not bound the
name. -/
theorem Inherits.change {s s' : OpenScope} {outer : List OpenScope} (inherits : Inherits name s outer)
    (level : s'.point.scope.own.isSome = s.point.scope.own.isSome)
    (keeps : s.point.scope.own.isSome = true → name ∉ s'.bound → name ∉ s.bound ∧ s'.own name = s.own name) :
    Inherits name s' outer := by
  cases outer with
  | nil =>
    have outermost : s.point.scope.own = none := inherits
    rw [outermost] at level
    exact Option.not_isSome_iff_eq_none.mp (by simp [level])
  | cons around outer =>
    obtain ⟨inside, same, further⟩ := inherits
    refine ⟨level.trans inside, fun free => ?_, further⟩
    obtain ⟨free, kept⟩ := keeps inside free
    exact kept.trans (same free)

/-- A scope may move on as it is. -/
theorem Inherits.move {s s' : OpenScope} {outer : List OpenScope} (inherits : Inherits name s outer)
    (scope : s'.point.scope = s.point.scope) (bound : s'.bound = s.bound) : Inherits name s' outer := by
  refine inherits.change (by rw [scope]) fun _ free => ⟨bound ▸ free, ?_⟩
  rw [OpenScope.own, OpenScope.own, scope]

theorem Step.inherits (step : u.Step w) (inherits : Inherits name u.inner u.outer) :
    Inherits name w.inner w.outer := by
  cases step with
  | assignment here evaluated assigned =>
    refine inherits.change (by rw [here]; exact Scope.isSome_own_assign assigned) fun _ free => ?_
    rw [OpenScope.own, OpenScope.own, here]
    exact Scope.current_assign assigned free
  | property here _ | comment here => exact inherits.move (by rw [here]) rfl
  | @mixin s _ scope _ _ _ _ _ here =>
    refine inherits.change (by rw [here]; exact (scope.current_declare _ name).2) fun _ free => ⟨free, ?_⟩
    rw [OpenScope.own, OpenScope.own, here]
    exact (scope.current_declare _ name).1
  | enterRule here => exact ⟨rfl, fun _ => rfl, inherits.move (by rw [here]) rfl⟩
  | enterCall here found bound =>
    exact ⟨(Scope.insideOf_bindArguments bound).inside, fun free => Scope.current_bindArguments bound free,
      inherits.move (by rw [here]) rfl⟩
  | @leave s around outer ended =>
    refine inherits.2.2.change rfl fun inside free => ⟨free, ?_⟩
    -- Behind a body only the root is new, and the scope has bindings of its own.
    obtain ⟨own, has⟩ := Option.isSome_iff_exists.mp inside
    rw [OpenScope.own, OpenScope.own, Scope.current_of_own has, Scope.current_of_own (by exact has)]

theorem Reaches.inherits {root : Bindings} {precision : Int} {ss : List Statement}
    (path : (start root precision ss).Reaches w) (name : Text) : Inherits name w.inner w.outer := by
  induction path with
  | refl => exact rfl
  | tail _ step ih => exact step.inherits ih

/-- Scopes that have not bound a name have what the root around them has. -/
theorem Inherits.own_eq {s : OpenScope} {outer : List OpenScope} (inherits : Inherits name s outer)
    (unbound : ∀ t ∈ (s :: outer).dropLast, name ∉ t.bound) :
    s.own name = (outer.getLastD s).point.scope.root.values.get? name := by
  induction outer generalizing s with
  | nil =>
    have outermost : s.point.scope.own = none := inherits
    rw [OpenScope.own, Scope.current_of_root outermost]
    rfl
  | cons around outer ih =>
    obtain ⟨-, same, further⟩ := inherits
    rw [List.dropLast_cons_cons, List.forall_mem_cons] at unbound
    rw [List.getLastD_cons, same unbound.1, ih further unbound.2]

/-- A read finds what the root had when the outermost open scope was entered, and only
where that was nothing what the root has now. -/
theorem value?_eq (inherits : Inherits name w.inner w.outer) (unbound : ∀ s ∈ w.inside, name ∉ s.bound) :
    w.value? name = (w.atEntry name).or (w.root name) :=
  congrArg (Option.or · (w.root name)) (inherits.own_eq unbound)

/-- What the root had when the outermost scope was entered stays, or is taken anew. -/
theorem Step.atEntry (step : u.Step w) (name : Text) :
    w.atEntry name = u.atEntry name ∨ w.atEntry name = w.root name := by
  -- A change of the innermost scope matters only where it is the outermost.
  have change (s s' : OpenScope) (outer : List OpenScope) :
      (mk s' outer).atEntry name = (mk s outer).atEntry name ∨
        (mk s' outer).atEntry name = (mk s' outer).root name := by
    cases outer with
    | nil => exact .inr rfl
    | cons around outer => exact .inl rfl
  -- Around a body that is entered, a scope stays as it is.
  have enter (s s' inner : OpenScope) (outer : List OpenScope) (same : s'.point.scope = s.point.scope) :
      (mk inner (s' :: outer)).atEntry name = (mk s outer).atEntry name := by
    cases outer with
    | nil => exact congrArg (fun scope : Scope => scope.root.values.get? name) same
    | cons around outer => rfl
  cases step with
  | assignment | property | mixin | comment => exact change _ _ _
  | enterRule here | enterCall here _ _ => exact .inl (enter _ _ _ _ (by rw [here]))
  | @leave s around outer ended =>
    have before : (mk s (around :: outer)).atEntry name = (mk around outer).atEntry name := by
      rw [Walk.atEntry, List.getLastD_cons, Walk.atEntry]
    rw [before]
    exact change around _ outer

/-- In the step a global declaration of the name takes effect and binds it to the
value. -/
def Declares (name : Text) (value : Value) (u u' : Walk) : Prop :=
  u.Step u' ∧ ∃ offset e isDefault rest v, u.inner.point.rest = .assignment name offset e isDefault true :: rest ∧
    (isDefault = true → u.value? name = none) ∧ (evaluate u.inner.point.scope e).result = .ok v ∧
    v.asBound = value

abbrev ReachesKeeping (name : Text) (u w : Walk) : Prop :=
  Relation.ReflTransGen (fun u w => u.Step w ∧ w.root name = u.root name) u w

variable {u' : Walk} {value : Value}

theorem Declares.root (declares : Declares name value u u') : u'.root name = some value := by
  obtain ⟨step, offset, e, isDefault, rest, v, next, free, evaluated, rfl⟩ := declares
  cases step with
  | assignment here evaluated' assigned =>
    rw [value?, here] at free
    rw [here] at next evaluated
    cases next
    obtain rfl := Except.ok.inj (evaluated.symm.trans evaluated')
    obtain ⟨default, found, -⟩ | ⟨-, rfl⟩ := Scope.assign_ok assigned
    · rw [free default] at found
      cases found
    · exact Scope.root_setVariable _ _ _
  | property here | mixin here | comment here | enterRule here | enterCall here =>
    rw [here] at next
    cases next
  | leave ended =>
    rw [ended] at next
    cases next

theorem ReachesKeeping.root (path : u.ReachesKeeping name w) : w.root name = u.root name := by
  induction path with
  | refl => rfl
  | tail _ step ih => exact step.2.trans ih

theorem ReachesKeeping.reaches (path : u.ReachesKeeping name w) : u.Reaches w :=
  Relation.ReflTransGen.mono (fun _ _ => And.left) u w path

/-- What the root has, it had when the outermost scope was entered, as long as it stays
the same. -/
theorem ReachesKeeping.atEntry (path : u.ReachesKeeping name w) (same : u.atEntry name = u.root name) :
    w.atEntry name = w.root name := by
  induction path with
  | refl => exact same
  | tail _ step ih =>
    rcases step.1.atEntry name with kept | anew
    · rw [kept, ih, step.2]
    · exact anew

end Walk

/-- Let a global declaration have taken effect, and its name have been bound again neither
in the root nor in a scope inside it that is open. Reading the name yields the value of the
declaration exactly if the root had nothing of the name, or had that value already, when
the outermost of the open scopes was entered; and so it does if all of them have been
entered since the declaration. The walks are those of resolution: they come to the end with
the nodes and the scope that are resolved within some limit. -/
theorem global_visible_iff {root : Bindings} {precision : Int} {ss : List Statement} {name : Text} {value : Value}
    {u u' w : Walk} (reached : (Walk.start root precision ss).Reaches u) (declares : u.Declares name value u')
    (later : u'.ReachesKeeping name w) (unbound : ∀ s ∈ w.inside, name ∉ s.bound) :
    (w.value? name = some value ↔ w.atEntry name = none ∨ w.atEntry name = some value) ∧
      (∀ t : Walk, u'.ReachesKeeping name t → t.ReachesKeeping name w → t.outer = [] →
        w.value? name = some value) ∧
      ∀ nodes scope,
        (∃ bound, (Walk.start root precision ss).Reaches ⟨⟨none, ⟨scope, false, []⟩, nodes, bound⟩, []⟩) ↔
          ∃ limit, (Resolve.statements (Resolve.expansion limit) ⟨root, none, precision⟩ false ss).result =
            .ok (nodes, scope) := by
  have path : (Walk.start root precision ss).Reaches w := (reached.tail declares.1).trans later.reaches
  have holds : w.root name = some value := later.root.trans declares.root
  have read := Walk.value?_eq (path.inherits name) unbound
  rw [holds] at read
  refine ⟨?_, ?_, fun nodes scope => Walk.reaches_end_iff⟩
  · rw [read]
    cases w.atEntry name <;> simp
  · intro t _ after outermost
    have same : t.atEntry name = t.root name := by rw [Walk.atEntry, outermost]; rfl
    rw [read, after.atEntry same, holds]
    rfl

def declaringRule : Statement :=
  .rule ["x".toList]
    [.rule ["y".toList] [.assignment "$n".toList none [⟨.ident "b".toList, none⟩] false true] 1,
      .rule ["z".toList] [.property "c".toList none [⟨.ident "$n".toList, none⟩]] 1] 0

/-- Under any root the declaration takes effect, and after it the second rule is entered,
with the name bound in no open scope inside the root. -/
theorem declaringRule_walk (root : Bindings) (precision : Int) (bound : List Text) :
    ∃ u u' w, Walk.Reaches ⟨⟨none, ⟨⟨root, none, precision⟩, false, [declaringRule]⟩, [], bound⟩, []⟩ u ∧
      u.Declares "$n".toList (.text "b".toList) u' ∧ u'.ReachesKeeping "$n".toList w ∧
      (∀ s ∈ w.inside, "$n".toList ∉ s.bound) ∧
      w.inner.point.rest = [.property "c".toList none [⟨.ident "$n".toList, none⟩]] ∧
      w.atEntry "$n".toList = root.values.get? "$n".toList := by
  have evaluated (scope : Scope) :
      (evaluate scope [⟨.ident "b".toList, none⟩]).result = .ok (.text "b".toList) := evaluate_ident ..
  refine ⟨_, _, _, .tail (.tail .refl (.enterRule rfl)) (.enterRule rfl),
    ⟨.assignment rfl (evaluated _) rfl, _, _, _, _, _, rfl, ?_, evaluated _, rfl⟩,
    .tail (.tail .refl ⟨.leave rfl, rfl⟩) ⟨.enterRule rfl, rfl⟩, ?_, rfl, rfl⟩
  · intro default
    cases default
  · intro s member
    have none : s.bound ∈ [[], []] := List.mem_map_of_mem (f := OpenScope.bound) member
    rw [List.eq_of_mem_replicate (n := 2) none]
    exact List.not_mem_nil

theorem global_visible_declaringRule : ∃ u u' w,
    (Walk.start ⟨[], []⟩ 5 [declaringRule]).Reaches u ∧ u.Declares "$n".toList (.text "b".toList) u' ∧
      u'.ReachesKeeping "$n".toList w ∧ (∀ s ∈ w.inside, "$n".toList ∉ s.bound) ∧
      w.value? "$n".toList = some (.text "b".toList) := by
  obtain ⟨u, u', w, reached, declares, later, unbound, -, entry⟩ := declaringRule_walk ⟨[], []⟩ 5 []
  refine ⟨u, u', w, reached, declares, later, unbound, ?_⟩
  exact (global_visible_iff reached declares later unbound).1.mpr (.inl entry)

/-- If the root has the variable before, the second rule reads that value, though it is
entered after the declaration: the rule around it has copied the value. -/
theorem global_hidden_declaringRule :
    (∃ u u' w, (Walk.start ⟨[], []⟩ 5
          [.assignment "$n".toList none [⟨.ident "a".toList, none⟩] false false, declaringRule]).Reaches u ∧
        u.Declares "$n".toList (.text "b".toList) u' ∧ u'.ReachesKeeping "$n".toList w ∧
        (∀ s ∈ w.inside, "$n".toList ∉ s.bound) ∧
        w.inner.point.rest = [.property "c".toList none [⟨.ident "$n".toList, none⟩]] ∧
        w.value? "$n".toList = some (.text "a".toList)) ∧
      (compile "$n: a; x \x7b y \x7b $n: b !global; \x7d z \x7b c: $n; \x7d \x7d".toList .expanded 5).result =
        .ok "x z \x7b\n  c: a;\n\x7d\n".toList := by
  constructor
  · obtain ⟨u, u', w, reached, declares, later, unbound, stands, entry⟩ :=
      declaringRule_walk ⟨[("$n".toList, .text "a".toList)], []⟩ 5 ["$n".toList]
    have assigned : (Walk.start ⟨[], []⟩ 5
        [.assignment "$n".toList none [⟨.ident "a".toList, none⟩] false false, declaringRule]).Reaches u :=
      .head (.assignment rfl (evaluate_ident ..) rfl) reached
    refine ⟨u, u', w, assigned, declares, later, unbound, stands, ?_⟩
    have inherits := Walk.Reaches.inherits ((assigned.tail declares.1).trans later.reaches) "$n".toList
    rw [Walk.value?_eq inherits unbound, entry]
    rfl
  · exact eq_ok_of_toOption (by decide +kernel)

end Stylesheet

import Stylesheet.Proofs.Node.Points
import Stylesheet.Proofs.Node.Shape
import Stylesheet.Proofs.Value.Nesting

/-! Scopes in which names stand for the same. What is evaluated and resolved depends on
that alone, not on how many scopes are open, as long as no assignment is global: then a
body that is resolved in a scope of its own leaves the scope around it as it was. -/
namespace Stylesheet

namespace Scope

variable {s t s' t' inner : Scope}

/-- Names stand for the same in both scopes. -/
structure Alike (s t : Scope) : Prop where
  values : ∀ name, s.value? name = t.value? name
  mixins : ∀ name, s.mixin? name = t.mixin? name
  precision : s.precision = t.precision

theorem value?_setVariable (s : Scope) (name other : Text) (value : Value) :
    (s.setVariable name value false).value? other = if name = other then some value else s.value? other := by
  rw [value?, current_setVariable]
  cases has : s.own with
  | none =>
    rw [setVariable_of_root has, Table.get?_insert, value?]
    split <;> rfl
  | some own =>
    rw [setVariable_of_own has, value?]
    split <;> rfl

theorem mixin?_setVariable (s : Scope) (name other : Text) (value : Value) :
    (s.setVariable name value false).mixin? other = s.mixin? other := by
  cases has : s.own with
  | none =>
    rw [setVariable_of_root has, mixin?, mixin?, current_of_root (by exact has), current_of_root has]
  | some own =>
    rw [setVariable_of_own has, mixin?, mixin?, current_of_own rfl, current_of_own has]
    rfl

theorem precision_update (s : Scope) (f : Bindings → Bindings) : (s.update f).precision = s.precision := by
  unfold update
  split <;> rfl

theorem value?_declare (s : Scope) (mixin : Mixin) (name : Text) : (s.declare mixin).value? name = s.value? name := by
  rw [value?, (s.current_declare mixin name).1, value?]
  cases has : s.own with
  | none => rw [declare_of_root has]
  | some own => rw [declare_of_own has]

theorem mixin?_declare (s : Scope) (mixin : Mixin) (name : Text) :
    (s.declare mixin).mixin? name = if mixin.name = name then some mixin else s.mixin? name := by
  cases has : s.own with
  | none =>
    rw [declare_of_root has, mixin?, mixin?, current_of_root (by exact has), current_of_root has, Table.get?_insert]
    split <;> rfl
  | some own =>
    rw [declare_of_own has, mixin?, mixin?, current_of_own rfl, current_of_own has, Table.get?_insert]
    split <;> rfl

namespace Alike

theorem child_right (s : Scope) : s.Alike s.child := ⟨fun _ => rfl, fun _ => rfl, rfl⟩

theorem child (alike : s.Alike t) : s.child.Alike t.child := ⟨alike.values, alike.mixins, alike.precision⟩

theorem setVariable (alike : s.Alike t) (name : Text) (value : Value) :
    (s.setVariable name value false).Alike (t.setVariable name value false) := by
  refine ⟨fun other => ?_, fun other => ?_, ?_⟩
  · rw [value?_setVariable, value?_setVariable, alike.values]
  · rw [mixin?_setVariable, mixin?_setVariable, alike.mixins]
  · exact (s.precision_update _).trans (alike.precision.trans (t.precision_update _).symm)

theorem declare (alike : s.Alike t) (mixin : Mixin) : (s.declare mixin).Alike (t.declare mixin) := by
  refine ⟨fun name => ?_, fun name => ?_, ?_⟩
  · rw [value?_declare, value?_declare, alike.values]
  · rw [mixin?_declare, mixin?_declare, alike.mixins]
  · exact (s.precision_update _).trans (alike.precision.trans (t.precision_update _).symm)

theorem assign (alike : s.Alike t) (name : Text) (value : Value) (isDefault : Bool) :
    Agree Alike (s.assign name value isDefault false).result (t.assign name value isDefault false).result := by
  rw [Scope.assign, Scope.assign, alike.values]
  split
  · exact alike
  · simp only [Traced.result_bind]
    exact (agree_refl (fun _ => rfl) _).bind fun _ _ _ _ _ => alike.setVariable name _

end Alike

end Scope

section

variable {s t : Scope}

namespace Evaluate

theorem lexemeValue_of_alike (alike : s.Alike t) : lexemeValue s = lexemeValue t := by
  funext l
  simp only [lexemeValue, identValue, alike.values, alike.precision]

theorem substituteAll_of_alike (alike : s.Alike t) (ls : List Lexeme) : substituteAll s ls = substituteAll t ls := by
  have one : substitute s = substitute t := by
    funext l
    have lookup : s.value? = t.value? := funext alike.values
    simp only [substitute, lookup, alike.precision]
  have after (previous : Lexeme) (ls : List Lexeme) :
      substituteAfter s previous ls = substituteAfter t previous ls := by
    induction ls generalizing previous with
    | nil => rfl
    | cons l rest ih => rw [substituteAfter, substituteAfter, one, ih]
  cases ls with
  | nil => rfl
  | cons l rest => rw [substituteAll, substituteAll, one, after]

theorem step_of_alike (alike : s.Alike t) (evaluate : List Lexeme → Traced Value) :
    step evaluate s = step evaluate t := by
  funext m part
  cases part with
  | call name arguments offset =>
    have value : callValue s = callValue t := by
      funext name values
      simp only [callValue, alike.precision]
    simp only [step, call, substituteAll_of_alike alike, value, alike.precision]
  | unclosed offset => rfl
  | lexeme l => simp only [step, lexemeValue_of_alike alike, alike.precision]

end Evaluate

/-- An expression has one value in scopes in which names stand for the same. -/
theorem evaluate_of_alike (alike : s.Alike t) (e : Expression) : evaluate s e = evaluate t e := by
  have upTo (depth : Nat) : Evaluate.upTo s depth = Evaluate.upTo t depth := by
    induction depth with
    | zero => rfl
    | succ depth ih =>
      funext e
      simp only [Evaluate.upTo, Evaluate.run, ih, Evaluate.step_of_alike alike, alike.precision]
  rw [evaluate, evaluate, upTo]

namespace Resolve

theorem collect_of_alike (alike : s.Alike t) (mixin : Mixin) (arguments : List Argument) (named : Table Value)
    (positional : List Value) :
    collect s mixin arguments named positional = collect t mixin arguments named positional := by
  induction arguments generalizing named positional with
  | nil => rfl
  | cons argument rest ih => simp only [collect, evaluate_of_alike alike, ih]

theorem bindParameters_of_alike (alike : s.Alike t) (mixin : Text) (offset : Option Int) (named : Table Value)
    (parameters : List Parameter) (positional : List Value) :
    Agree Scope.Alike (bindParameters mixin offset named parameters positional s).result
      (bindParameters mixin offset named parameters positional t).result := by
  induction parameters generalizing positional s t with
  | nil => exact alike
  | cons parameter rest ih =>
    have bind (value : Value) (positional : List Value) :
        Agree Scope.Alike
          (s.assign parameter.name value false false >>= bindParameters mixin offset named rest positional).result
          (t.assign parameter.name value false false >>= bindParameters mixin offset named rest positional).result := by
      rw [Traced.result_bind, Traced.result_bind]
      exact (alike.assign parameter.name value false).bind fun _ _ _ _ alike => ih alike positional
    unfold bindParameters
    split
    · exact bind _ _
    · exact bind _ _
    · rw [Traced.result_bind, Traced.result_bind, evaluate_of_alike alike]
      exact (agree_refl (fun _ => rfl) _).bind fun value _ _ _ same => same ▸ bind value []
    · exact rfl

theorem bindArguments_of_alike (alike : s.Alike t) (mixin : Mixin) (arguments : List Argument) (offset : Option Int) :
    Agree Scope.Alike (bindArguments mixin arguments offset s).result
      (bindArguments mixin arguments offset t).result := by
  simp only [bindArguments, Traced.result_bind, collect_of_alike alike]
  exact (agree_refl (fun _ => rfl) _).bind fun _ _ _ _ same => same ▸ bindParameters_of_alike alike.child ..

end Resolve

end

/-- An assignment that is not global; any other statement. -/
def Statement.IsLocal : Statement → Prop
  | .assignment _ _ _ _ isGlobal => isGlobal = false
  | _ => True

def Mixin.IsLocal (mixin : Mixin) : Prop := ∀ s ∈ Statement.nodesAll mixin.body, s.IsLocal

theorem Scope.leave_of_root {s inner : Scope} (same : inner.root = s.root) : s.leave inner = s := by
  rw [leave, same]

theorem Scope.root_bindArguments {s inner : Scope} {mixin : Mixin} {arguments : List Argument} {offset : Option Int}
    (bound : (Resolve.bindArguments mixin arguments offset s).result = .ok inner) :
    inner.own.isSome = true ∧ inner.root = s.root := by
  refine Resolve.bindArguments_invariant (I := fun t => t.own.isSome = true ∧ t.root = s.root) ?_ ⟨rfl, rfl⟩ bound
  intro t name value t' ⟨inside, same⟩ assigned
  obtain ⟨own, has⟩ := Option.isSome_iff_exists.mp inside
  obtain ⟨default, -⟩ | ⟨-, rfl⟩ := assign_ok assigned
  · cases default
  · rw [setVariable_of_own has]
    exact ⟨rfl, same⟩

namespace Resolves

variable {scope scope' : Scope} {inRule : Bool} {ss : List Statement} {nodes : List Node}

/-- Without global assignments a scope inside another leaves the root as it is, and no
mixin with a global assignment is declared. -/
theorem root_of_isLocal (resolves : Resolves scope inRule ss nodes scope')
    (free : ∀ s ∈ Statement.nodesAll ss, s.IsLocal) (mixins : scope.EveryMixin Mixin.IsLocal) :
    scope'.EveryMixin Mixin.IsLocal ∧
      (scope.own.isSome = true → scope'.own.isSome = true ∧ scope'.root = scope.root) := by
  induction resolves with
  | nil => exact ⟨mixins, fun inside => ⟨inside, rfl⟩⟩
  | @assignment scope scope₁ _ _ name offset e isDefault isGlobal value _ _ _ assigned _ ih =>
    obtain rfl : isGlobal = false := free _ (List.mem_append_left _ List.mem_cons_self)
    obtain ⟨mixins, frame⟩ := ih (fun s later => free s (List.mem_append_right _ later)) (mixins.assign assigned)
    refine ⟨mixins, fun inside => ?_⟩
    have kept : scope₁.own.isSome = true ∧ scope₁.root = scope.root := by
      obtain ⟨own, has⟩ := Option.isSome_iff_exists.mp inside
      obtain ⟨-, -, rfl⟩ | ⟨-, rfl⟩ := Scope.assign_ok assigned
      · exact ⟨inside, rfl⟩
      · rw [Scope.setVariable_of_own has]
        exact ⟨rfl, rfl⟩
    exact ⟨(frame kept.1).1, (frame kept.1).2.trans kept.2⟩
  | property _ _ ih | comment _ ih => exact ih (fun s later => free s (List.mem_append_right _ later)) mixins
  | @mixin scope _ _ name parameters body _ _ _ ih =>
    have new : Mixin.IsLocal ⟨name, parameters, body⟩ := fun s inside =>
      free s (List.mem_append_left _ (List.mem_cons_of_mem _ inside))
    obtain ⟨mixins, frame⟩ := ih (fun s later => free s (List.mem_append_right _ later)) (mixins.declare new)
    refine ⟨mixins, fun inside => ?_⟩
    obtain ⟨own, has⟩ := Option.isSome_iff_exists.mp inside
    rw [Scope.declare_of_own has] at frame
    exact frame rfl
  | call found bound _ _ ih ih' =>
    obtain ⟨inside, same⟩ := Scope.root_bindArguments bound
    obtain ⟨inner, frame⟩ := ih (mixins.mixin? found) (mixins.bindArguments bound)
    rw [Scope.leave_of_root ((frame inside).2.trans same)] at ih'
    exact ih' (fun s later => free s (List.mem_append_right _ later)) mixins
  | @rule scope _ _ _ _ _ _ _ _ _ _ _ ih ih' =>
    obtain ⟨inner, frame⟩ := ih
      (fun s inside => free s (List.mem_append_left _ (List.mem_cons_of_mem _ inside))) mixins.child
    rw [Scope.leave_of_root (s := scope) (frame rfl).2] at ih'
    exact ih' (fun s later => free s (List.mem_append_right _ later)) mixins

/-- Behind a rule without global assignments the scope is as before. -/
theorem leave_rule {inner : Scope} (nested : Resolves scope.child inRule ss nodes inner)
    (free : ∀ s ∈ Statement.nodesAll ss, s.IsLocal) (mixins : scope.EveryMixin Mixin.IsLocal) :
    scope.leave inner = scope :=
  Scope.leave_of_root ((nested.root_of_isLocal free mixins.child).2 rfl).2

/-- Behind a call without global assignments the scope is as before. -/
theorem leave_call {inner inner' : Scope} {name : Text} {mixin : Mixin} {arguments : List Argument}
    {offset : Option Int} (mixins : scope.EveryMixin Mixin.IsLocal) (found : scope.mixin? name = some mixin)
    (bound : (Resolve.bindArguments mixin arguments offset scope).result = .ok inner)
    (expanded : Resolves inner inRule mixin.body nodes inner') : scope.leave inner' = scope := by
  obtain ⟨inside, same⟩ := Scope.root_bindArguments bound
  have frame := expanded.root_of_isLocal (mixins.mixin? found) (mixins.bindArguments bound)
  exact Scope.leave_of_root ((frame.2 inside).2.trans same)

end Resolves

namespace Resolve

def SameNodes (r r' : List Node × Scope) : Prop := r.1 = r'.1 ∧ r.2.Alike r'.2

/-- Calls come to the same in scopes in which names stand for the same, where no assignment
is global. -/
def Expansion.Respects (expand : Expansion) : Prop :=
  ∀ s t : Scope, s.Alike t → s.EveryMixin Mixin.IsLocal → t.EveryMixin Mixin.IsLocal →
    ∀ inRule name arguments offset,
      Agree SameNodes (expand s inRule name arguments offset).result (expand t inRule name arguments offset).result

mutual
theorem statement_of_alike {expand : Expansion} (sound : expand.Sound) (respects : expand.Respects) {s t : Scope}
    (alike : s.Alike t) (left : s.EveryMixin Mixin.IsLocal) (right : t.EveryMixin Mixin.IsLocal) (inRule : Bool)
    (st : Statement) (free : ∀ inside ∈ st.nodes, inside.IsLocal) :
    Agree SameNodes (statement expand s inRule st).result (statement expand t inRule st).result := by
  cases st with
  | assignment name offset e isDefault isGlobal =>
    obtain rfl : isGlobal = false := free _ List.mem_cons_self
    simp only [statement, Traced.result_bind, evaluate_of_alike alike]
    refine (agree_refl (fun _ => rfl) _).bind fun value _ _ _ same => ?_
    subst same
    exact (alike.assign name value isDefault).bind fun _ _ _ _ alike => ⟨rfl, alike⟩
  | property name offset e =>
    simp only [statement]
    split
    · rw [Traced.result_bind, Traced.result_bind, evaluate_of_alike alike]
      refine (agree_refl (fun _ => rfl) _).bind fun value _ _ _ same => ?_
      subst same
      exact ⟨rfl, alike⟩
    · exact rfl
  | mixin name parameters body =>
    rw [statement, statement]
    exact ⟨rfl, alike.declare _⟩
  | call name arguments offset =>
    rw [statement, statement]
    exact respects s t alike left right inRule name arguments offset
  | rule selectors body depth =>
    have inside : ∀ st ∈ Statement.nodesAll body, st.IsLocal := fun st member => free st (List.mem_cons_of_mem _ member)
    have nested := statements_of_alike sound respects alike.child left.child right.child true body inside
    simp only [statement, Traced.result_bind]
    refine nested.bind ?_
    rintro ⟨children, inner⟩ ⟨children', inner'⟩ one two ⟨same, -⟩
    have behind := (resolves_of_statements sound body one).leave_rule inside left
    have behind' := (resolves_of_statements sound body two).leave_rule inside right
    obtain rfl : children = children' := same
    refine ⟨rfl, ?_⟩
    change (s.leave inner).Alike (t.leave inner')
    rw [behind, behind']
    exact alike
  | comment text =>
    rw [statement, statement]
    exact ⟨rfl, alike⟩

theorem statements_of_alike {expand : Expansion} (sound : expand.Sound) (respects : expand.Respects) {s t : Scope}
    (alike : s.Alike t) (left : s.EveryMixin Mixin.IsLocal) (right : t.EveryMixin Mixin.IsLocal) (inRule : Bool)
    (ss : List Statement) (free : ∀ inside ∈ Statement.nodesAll ss, inside.IsLocal) :
    Agree SameNodes (statements expand s inRule ss).result (statements expand t inRule ss).result := by
  cases ss with
  | nil =>
    rw [statements, statements]
    exact ⟨rfl, alike⟩
  | cons st ss =>
    have here : ∀ inside ∈ Statement.nodesAll [st], inside.IsLocal := by
      simpa [Statement.nodesAll] using fun inside member => free inside (List.mem_append_left _ member)
    simp only [statements, Traced.result_bind]
    refine (statement_of_alike sound respects alike left right inRule st ?_).bind ?_
    · exact fun inside member => free inside (List.mem_append_left _ member)
    rintro ⟨nodes, s₁⟩ ⟨nodes', t₁⟩ one two ⟨same, alike⟩
    have left := ((resolves_of_statement sound st one .nil).root_of_isLocal here left).1
    have right := ((resolves_of_statement sound st two .nil).root_of_isLocal here right).1
    refine (statements_of_alike sound respects alike left right inRule ss ?_).bind ?_
    · exact fun inside member => free inside (List.mem_append_right _ member)
    rintro ⟨more, s₂⟩ ⟨more', t₂⟩ - - ⟨same', alike⟩
    obtain rfl : nodes = nodes' := same
    obtain rfl : more = more' := same'
    exact ⟨rfl, alike⟩
end

theorem respects_expansion (limit : Nat) : (expansion limit).Respects := by
  induction limit with
  | zero => exact fun _ _ _ _ _ _ _ _ _ => rfl
  | succ limit ih =>
    intro s t alike left right inRule name arguments offset
    rw [expansion, expansion, alike.mixins]
    split
    · exact rfl
    · next mixin found =>
      have found' : s.mixin? name = some mixin := (alike.mixins name).trans found
      simp only [Traced.result_bind]
      refine (agree_refl (fun _ => rfl) _).bind fun _ _ _ _ _ => ?_
      refine (bindArguments_of_alike alike mixin arguments offset).bind fun inner inner' bound bound' alike' => ?_
      have body := statements_of_alike (sound_expansion limit) ih alike' (left.bindArguments bound)
        (right.bindArguments bound') inRule mixin.body (right.mixin? found)
      refine body.bind ?_
      rintro ⟨nodes, behind⟩ ⟨nodes', behind'⟩ one two ⟨same, -⟩
      have leave := (resolves_of_statements (sound_expansion limit) _ one).leave_call left found' bound
      have leave' := (resolves_of_statements (sound_expansion limit) _ two).leave_call right found bound'
      refine ⟨same, ?_⟩
      change (s.leave behind).Alike (t.leave behind')
      rw [leave, leave']
      exact alike

end Resolve

end Stylesheet

import Stylesheet.Node.Resolve
import Stylesheet.Proofs.Scope

/-! Resolution as a relation between statements and their nodes, without a limit on
how deep calls nest. What is resolved within some limit stands in the relation, and
the relation has one result at most; so a resolution depends on its statements only,
and is that of its parts in a row. -/
namespace Stylesheet

open Resolve in
/-- In a scope, the statements resolve to the nodes and leave the other scope
behind. -/
inductive Resolves : Scope → Bool → List Statement → List Node → Scope → Prop where
  | nil {scope : Scope} {inRule : Bool} : Resolves scope inRule [] [] scope
  | assignment {scope scope₁ scope₂ : Scope} {inRule : Bool} {name : Text} {offset : Option Int}
      {e : Expression} {isDefault isGlobal : Bool} {value : Value} {ss : List Statement} {nodes : List Node}
      (evaluated : (evaluate scope e).result = .ok value)
      (assigned : (scope.assign name value isDefault isGlobal).result = .ok scope₁)
      (rest : Resolves scope₁ inRule ss nodes scope₂) :
      Resolves scope inRule (.assignment name offset e isDefault isGlobal :: ss) nodes scope₂
  | property {scope scope₁ : Scope} {name : Text} {offset : Option Int} {e : Expression} {value : Value}
      {ss : List Statement} {nodes : List Node} (evaluated : (evaluate scope e).result = .ok value)
      (rest : Resolves scope true ss nodes scope₁) :
      Resolves scope true (.property name offset e :: ss) (.property name offset value :: nodes) scope₁
  | mixin {scope scope₁ : Scope} {inRule : Bool} {name : Text} {parameters : List Parameter}
      {body ss : List Statement} {nodes : List Node}
      (rest : Resolves (scope.declare ⟨name, parameters, body⟩) inRule ss nodes scope₁) :
      Resolves scope inRule (.mixin name parameters body :: ss) nodes scope₁
  | call {scope inner inner' scope₁ : Scope} {inRule : Bool} {name : Text} {arguments : List Argument}
      {offset : Option Int} {mixin : Mixin} {ss : List Statement} {nodes more : List Node}
      (found : scope.mixin? name = some mixin)
      (bound : (bindArguments mixin arguments offset scope).result = .ok inner)
      (expanded : Resolves inner inRule mixin.body nodes inner')
      (rest : Resolves (scope.leave inner') inRule ss more scope₁) :
      Resolves scope inRule (.call name arguments offset :: ss) (nodes ++ more) scope₁
  | rule {scope inner scope₁ : Scope} {inRule : Bool} {selectors : List Text} {depth : Nat}
      {body ss : List Statement} {children more : List Node}
      (nested : Resolves scope.child true body children inner)
      (rest : Resolves (scope.leave inner) inRule ss more scope₁) :
      Resolves scope inRule (.rule selectors body depth :: ss) (.rule selectors children depth :: more) scope₁
  | comment {scope scope₁ : Scope} {inRule : Bool} {text : Text} {ss : List Statement} {nodes : List Node}
      (rest : Resolves scope inRule ss nodes scope₁) :
      Resolves scope inRule (.comment text :: ss) (.comment text :: nodes) scope₁

namespace Resolve

/-- The values of arguments are those of their expressions. -/
theorem collect_values {V : Value → Prop} {scope : Scope} {mixin : Mixin} {arguments : List Argument}
    {named named' : Table Value} {positional positional' : List Value}
    (evaluated : ∀ argument ∈ arguments, ∀ v, (evaluate scope argument.value).result = .ok v → V v)
    (given : ∀ entry ∈ named, V entry.2) (others : ∀ v ∈ positional, V v)
    (collected : (collect scope mixin arguments named positional).result = .ok (named', positional')) :
    (∀ entry ∈ named', V entry.2) ∧ ∀ v ∈ positional', V v := by
  induction arguments generalizing named positional with
  | nil =>
    obtain ⟨rfl, rfl⟩ := Prod.mk.inj (Except.ok.inj collected)
    exact ⟨given, others⟩
  | cons argument rest ih =>
    rw [List.forall_mem_cons] at evaluated
    rw [collect] at collected
    split at collected
    · rw [Traced.result_bind] at collected
      obtain ⟨v, value, collected⟩ := bind_eq_ok.mp collected
      refine ih evaluated.2 given ?_ collected
      exact List.forall_mem_append.mpr ⟨others, List.forall_mem_singleton.mpr (evaluated.1 v value)⟩
    · split at collected
      · rw [Traced.result_bind] at collected
        obtain ⟨v, value, collected⟩ := bind_eq_ok.mp collected
        exact ih evaluated.2 (Table.forall_mem_insert given (evaluated.1 v value)) others collected
      · cases collected

/-- What every assignment of a value to one of the parameters keeps of a scope, binding
the parameters keeps, where arguments and defaults have such values. -/
theorem bindParameters_keeps {I : Scope → Prop} {V : Value → Prop} {parameters : List Parameter}
    (assign : ∀ parameter ∈ parameters, ∀ s value s', I s → V value →
      (s.assign parameter.name value false false).result = .ok s' → I s')
    {mixin : Text} {offset : Option Int} {named : Table Value} {positional : List Value} {s s' : Scope}
    (given : ∀ entry ∈ named, V entry.2) (others : ∀ v ∈ positional, V v)
    (defaults : ∀ parameter ∈ parameters, ∀ e ∈ parameter.default, ∀ t v, I t → (evaluate t e).result = .ok v → V v)
    (start : I s) (bound : (bindParameters mixin offset named parameters positional s).result = .ok s') : I s' := by
  induction parameters generalizing positional s with
  | nil =>
    obtain rfl := Except.ok.inj bound
    exact start
  | cons parameter rest ih =>
    rw [List.forall_mem_cons] at assign defaults
    unfold bindParameters at bound
    split at bound
    · next value found =>
      rw [Traced.result_bind] at bound
      obtain ⟨scope, assigned, bound⟩ := bind_eq_ok.mp bound
      have good := given _ (Table.mem_of_get? found)
      exact ih assign.2 others defaults.2 (assign.1 _ _ _ start good assigned) bound
    · rw [Traced.result_bind] at bound
      obtain ⟨scope, assigned, bound⟩ := bind_eq_ok.mp bound
      rw [List.forall_mem_cons] at others
      exact ih assign.2 others.2 defaults.2 (assign.1 _ _ _ start others.1 assigned) bound
    · next e _ default =>
      rw [Traced.result_bind] at bound
      obtain ⟨value, evaluated, bound⟩ := bind_eq_ok.mp bound
      rw [Traced.result_bind] at bound
      obtain ⟨scope, assigned, bound⟩ := bind_eq_ok.mp bound
      have good := defaults.1 e default s value start evaluated
      exact ih assign.2 others defaults.2 (assign.1 _ _ _ start good assigned) bound
    · cases bound

theorem bindArguments_ok {mixin : Mixin} {arguments : List Argument} {offset : Option Int} {s s' : Scope}
    (bound : (bindArguments mixin arguments offset s).result = .ok s') :
    ∃ named positional, (collect s mixin arguments [] []).result = .ok (named, positional) ∧
      (bindParameters mixin.name offset named mixin.parameters positional s.child).result = .ok s' := by
  rw [bindArguments, Traced.result_bind] at bound
  obtain ⟨⟨named, positional⟩, collected, bound⟩ := bind_eq_ok.mp bound
  exact ⟨named, positional, collected, bound⟩

/-- What every assignment keeps of a scope, binding the arguments of a call keeps. -/
theorem bindArguments_invariant {I : Scope → Prop}
    (assign : ∀ s name value s', I s → (s.assign name value false false).result = .ok s' → I s')
    {mixin : Mixin} {arguments : List Argument} {offset : Option Int} {s s' : Scope} (start : I s.child)
    (bound : (bindArguments mixin arguments offset s).result = .ok s') : I s' := by
  obtain ⟨named, positional, -, bound⟩ := bindArguments_ok bound
  exact bindParameters_keeps (V := fun _ => True) (fun _ _ s value s' before _ => assign s _ value s' before)
    (fun _ _ => trivial) (fun _ _ => trivial) (fun _ _ _ _ _ _ _ _ => trivial) start bound

def Expansion.Sound (expand : Expansion) : Prop :=
  ∀ scope inRule name arguments offset nodes scope',
    (expand scope inRule name arguments offset).result = .ok (nodes, scope') →
    ∃ mixin inner inner', scope.mixin? name = some mixin ∧
      (bindArguments mixin arguments offset scope).result = .ok inner ∧
      Resolves inner inRule mixin.body nodes inner' ∧ scope' = scope.leave inner'

mutual
theorem resolves_of_statement {expand : Expansion} (sound : expand.Sound) (s : Statement)
    {scope scope₁ scope₂ : Scope} {inRule : Bool} {nodes more : List Node} {ss : List Statement}
    (ran : (statement expand scope inRule s).result = .ok (nodes, scope₁))
    (rest : Resolves scope₁ inRule ss more scope₂) : Resolves scope inRule (s :: ss) (nodes ++ more) scope₂ := by
  cases s with
  | assignment name offset e isDefault isGlobal =>
    simp only [statement, Traced.result_bind, bind_eq_ok, Traced.result_pure, Except.ok.injEq,
      Prod.mk.injEq] at ran
    obtain ⟨value, evaluated, scope', assigned, rfl, rfl⟩ := ran
    exact .assignment evaluated assigned rest
  | property name offset e =>
    cases inRule with
    | false => simp [statement, Traced.fail] at ran
    | true =>
      simp only [statement, if_true, Traced.result_bind, bind_eq_ok, Traced.result_pure, Except.ok.injEq,
        Prod.mk.injEq] at ran
      obtain ⟨value, evaluated, rfl, rfl⟩ := ran
      exact .property evaluated rest
  | mixin name parameters body =>
    simp only [statement, Traced.result_pure, Except.ok.injEq, Prod.mk.injEq] at ran
    obtain ⟨rfl, rfl⟩ := ran
    exact .mixin rest
  | call name arguments offset =>
    rw [statement] at ran
    obtain ⟨mixin, inner, inner', found, bound, expanded, rfl⟩ := sound _ _ _ _ _ _ _ ran
    exact .call found bound expanded rest
  | rule selectors body depth =>
    simp only [statement, Traced.result_bind, bind_eq_ok, Traced.result_pure, Except.ok.injEq,
      Prod.mk.injEq] at ran
    obtain ⟨⟨children, inner⟩, nested, rfl, rfl⟩ := ran
    exact .rule (resolves_of_statements sound body nested) rest
  | comment text =>
    simp only [statement, Traced.result_pure, Except.ok.injEq, Prod.mk.injEq] at ran
    obtain ⟨rfl, rfl⟩ := ran
    exact .comment rest

theorem resolves_of_statements {expand : Expansion} (sound : expand.Sound) (ss : List Statement)
    {scope scope' : Scope} {inRule : Bool} {nodes : List Node}
    (ran : (statements expand scope inRule ss).result = .ok (nodes, scope')) :
    Resolves scope inRule ss nodes scope' := by
  cases ss with
  | nil =>
    simp only [statements, Traced.result_pure, Except.ok.injEq, Prod.mk.injEq] at ran
    obtain ⟨rfl, rfl⟩ := ran
    exact .nil
  | cons s ss =>
    simp only [statements, Traced.result_bind, bind_eq_ok, Traced.result_pure, Except.ok.injEq,
      Prod.mk.injEq] at ran
    obtain ⟨⟨nodes, scope₁⟩, first, ⟨more, scope₂⟩, others, rfl, rfl⟩ := ran
    exact resolves_of_statement sound s first (resolves_of_statements sound ss others)
end

theorem sound_expansion (limit : Nat) : (expansion limit).Sound := by
  induction limit with
  | zero =>
    intro scope inRule name arguments offset nodes scope' ran
    cases ran
  | succ limit ih =>
    intro scope inRule name arguments offset nodes scope' ran
    unfold expansion at ran
    split at ran
    · cases ran
    · next mixin found =>
      simp only [Traced.result_bind, bind_eq_ok, Traced.result_pure, Except.ok.injEq, Prod.mk.injEq] at ran
      obtain ⟨_, -, inner, bound, ⟨nodes, inner'⟩, ran, rfl, rfl⟩ := ran
      exact ⟨mixin, inner, inner', found, bound, resolves_of_statements ih _ ran, rfl⟩

end Resolve

theorem resolve_ok {scope : Scope} {ss : List Statement} {nodes : List Node}
    (resolved : (resolve scope ss).result = .ok nodes) :
    ∃ scope', Resolves scope false ss nodes scope' := by
  simp only [resolve, Traced.result_bind, bind_eq_ok, Traced.result_pure, Except.ok.injEq] at resolved
  obtain ⟨_, -, ⟨nodes, scope'⟩, ran, rfl⟩ := resolved
  exact ⟨scope', Resolve.resolves_of_statements (Resolve.sound_expansion _) ss ran⟩

namespace Resolves

theorem unique {scope scope₁ scope₂ : Scope} {inRule : Bool} {ss : List Statement} {nodes₁ nodes₂ : List Node}
    (one : Resolves scope inRule ss nodes₁ scope₁) (two : Resolves scope inRule ss nodes₂ scope₂) :
    nodes₁ = nodes₂ ∧ scope₁ = scope₂ := by
  induction one generalizing nodes₂ scope₂ with
  | nil =>
    cases two
    exact ⟨rfl, rfl⟩
  | assignment evaluated assigned rest ih =>
    cases two with
    | assignment evaluated' assigned' rest' =>
      obtain rfl := Except.ok.inj (evaluated.symm.trans evaluated')
      obtain rfl := Except.ok.inj (assigned.symm.trans assigned')
      exact ih rest'
  | property evaluated rest ih =>
    cases two with
    | property evaluated' rest' =>
      obtain rfl := Except.ok.inj (evaluated.symm.trans evaluated')
      obtain ⟨rfl, rfl⟩ := ih rest'
      exact ⟨rfl, rfl⟩
  | mixin rest ih =>
    cases two with
    | mixin rest' => exact ih rest'
  | call found bound expanded rest ih ih' =>
    cases two with
    | call found' bound' expanded' rest' =>
      obtain rfl := Option.some.inj (found.symm.trans found')
      obtain rfl := Except.ok.inj (bound.symm.trans bound')
      obtain ⟨rfl, rfl⟩ := ih expanded'
      obtain ⟨rfl, rfl⟩ := ih' rest'
      exact ⟨rfl, rfl⟩
  | rule nested rest ih ih' =>
    cases two with
    | rule nested' rest' =>
      obtain ⟨rfl, rfl⟩ := ih nested'
      obtain ⟨rfl, rfl⟩ := ih' rest'
      exact ⟨rfl, rfl⟩
  | comment rest ih =>
    cases two with
    | comment rest' =>
      obtain ⟨rfl, rfl⟩ := ih rest'
      exact ⟨rfl, rfl⟩

/-- What is said first is resolved first. -/
theorem of_append {scope scope' : Scope} {inRule : Bool} {ss more : List Statement} {nodes : List Node}
    (both : Resolves scope inRule (ss ++ more) nodes scope') :
    ∃ first scope₁ second, Resolves scope inRule ss first scope₁ ∧ Resolves scope₁ inRule more second scope' ∧
      nodes = first ++ second := by
  induction ss generalizing scope nodes with
  | nil => exact ⟨[], scope, nodes, .nil, both, rfl⟩
  | cons s ss ih =>
    rw [List.cons_append] at both
    cases both with
    | assignment evaluated assigned rest =>
      obtain ⟨first, scope₁, second, one, two, rfl⟩ := ih rest
      exact ⟨first, scope₁, second, .assignment evaluated assigned one, two, rfl⟩
    | property evaluated rest =>
      obtain ⟨first, scope₁, second, one, two, rfl⟩ := ih rest
      exact ⟨_, scope₁, second, .property evaluated one, two, rfl⟩
    | mixin rest =>
      obtain ⟨first, scope₁, second, one, two, rfl⟩ := ih rest
      exact ⟨first, scope₁, second, .mixin one, two, rfl⟩
    | call found bound expanded rest =>
      obtain ⟨first, scope₁, second, one, two, rfl⟩ := ih rest
      exact ⟨_, scope₁, second, .call found bound expanded one, two, (List.append_assoc _ _ _).symm⟩
    | rule nested rest =>
      obtain ⟨first, scope₁, second, one, two, rfl⟩ := ih rest
      exact ⟨_, scope₁, second, .rule nested one, two, rfl⟩
    | comment rest =>
      obtain ⟨first, scope₁, second, one, two, rfl⟩ := ih rest
      exact ⟨_, scope₁, second, .comment one, two, rfl⟩

end Resolves

end Stylesheet

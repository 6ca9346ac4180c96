import Stylesheet.Proofs.Results
import Stylesheet.Scope

/-! What the operations on scopes change. A scope inside another has bindings of its own,
and whatever is bound there stays there; only a global assignment reaches the root. -/
namespace Stylesheet

namespace Table

theorem mem_of_get? {t : Table α} {name : Text} {a : α} (found : t.get? name = some a) : (name, a) ∈ t := by
  induction t with
  | nil => cases found
  | cons entry rest ih =>
    obtain ⟨key, b⟩ := entry
    rw [get?] at found
    split at found
    · next same =>
      obtain rfl := Option.some.inj found
      rw [same]
      exact List.mem_cons_self
    · exact List.mem_cons_of_mem _ (ih found)

theorem mem_insert {t : Table α} {name : Text} {a : α} {entry : Text × α} (member : entry ∈ t.insert name a) :
    entry = (name, a) ∨ entry ∈ t := by
  induction t with
  | nil => exact .inl (List.mem_singleton.mp member)
  | cons first rest ih =>
    obtain ⟨key, b⟩ := first
    rw [insert] at member
    split at member
    · next same =>
      subst same
      rcases List.mem_cons.mp member with rfl | member
      · exact .inl rfl
      · exact .inr (List.mem_cons_of_mem _ member)
    · rcases List.mem_cons.mp member with rfl | member
      · exact .inr List.mem_cons_self
      · exact (ih member).imp_right (List.mem_cons_of_mem _)

/-- What holds of all that is bound and of what is bound next holds of all behind it. -/
theorem forall_mem_insert {P : α → Prop} {t : Table α} {name : Text} {a : α} (every : ∀ entry ∈ t, P entry.2)
    (new : P a) : ∀ entry ∈ t.insert name a, P entry.2 := by
  intro entry member
  rcases mem_insert member with rfl | member
  · exact new
  · exact every entry member

end Table

namespace Scope

variable {s s' inner : Scope} {name : Text} {value : Value} {isDefault isGlobal : Bool}

theorem current_of_own {own : Bindings} (inside : s.own = some own) : s.current = own := by
  rw [current, inside, Option.getD_some]

theorem current_of_root (outermost : s.own = none) : s.current = s.root := by
  rw [current, outermost, Option.getD_none]

/-- An assignment binds the value as variables hold it, or is a default that finds the
name bound. -/
theorem assign_ok (assigned : (s.assign name value isDefault isGlobal).result = .ok s') :
    (isDefault = true ∧ (s.value? name).isSome = true ∧ s' = s) ∨
      ((isDefault = true → s.value? name = none) ∧ s' = s.setVariable name value.asBound isGlobal) := by
  rw [assign] at assigned
  split at assigned
  · next skipped =>
    rw [Bool.and_eq_true] at skipped
    exact .inl ⟨skipped.1, skipped.2, (Except.ok.inj assigned).symm⟩
  · next taken =>
    rw [Traced.result_bind] at assigned
    obtain ⟨_, -, assigned⟩ := bind_eq_ok.mp assigned
    refine .inr ⟨?_, (Except.ok.inj assigned).symm⟩
    intro default
    simpa [default] using taken

/-- Inside another scope a variable is bound there, and in the root only if it is
global. -/
theorem setVariable_of_own {own : Bindings} (inside : s.own = some own) :
    s.setVariable name value isGlobal =
      { s with
        own := some { own with values := own.values.insert name value }
        root := if isGlobal then { s.root with values := s.root.values.insert name value } else s.root } := by
  cases isGlobal <;> simp [setVariable, update, inside]

theorem setVariable_of_root (outermost : s.own = none) :
    s.setVariable name value isGlobal =
      { s with root := { s.root with values := s.root.values.insert name value } } := by
  cases isGlobal <;> simp [setVariable, update, outermost]

theorem declare_of_own {own : Bindings} (inside : s.own = some own) (mixin : Mixin) :
    s.declare mixin = { s with own := some { own with mixins := own.mixins.insert mixin.name mixin } } := by
  simp [declare, update, inside]

theorem declare_of_root (outermost : s.own = none) (mixin : Mixin) :
    s.declare mixin = { s with root := { s.root with mixins := s.root.mixins.insert mixin.name mixin } } := by
  simp [declare, update, outermost]

/-- A variable that is set is bound in the scope itself. -/
theorem current_setVariable (s : Scope) (name other : Text) (value : Value) (isGlobal : Bool) :
    (s.setVariable name value isGlobal).current.values.get? other =
      if name = other then some value else s.current.values.get? other := by
  cases has : s.own with
  | none =>
    rw [setVariable_of_root has, current_of_root (by exact has), current_of_root has]
    exact Table.get?_insert _ _ _ _
  | some own =>
    rw [setVariable_of_own has, current_of_own rfl, current_of_own has]
    exact Table.get?_insert _ _ _ _

/-- A variable that is set globally is bound in the root. -/
theorem root_setVariable (s : Scope) (name : Text) (value : Value) :
    (s.setVariable name value true).root.values.get? name = some value := by
  cases has : s.own with
  | none =>
    rw [setVariable_of_root has]
    exact (Table.get?_insert _ _ _ _).trans (if_pos rfl)
  | some own =>
    rw [setVariable_of_own has]
    exact (Table.get?_insert _ _ _ _).trans (if_pos rfl)

theorem isSome_own_assign (assigned : (s.assign name value isDefault isGlobal).result = .ok s') :
    s'.own.isSome = s.own.isSome := by
  obtain ⟨-, -, rfl⟩ | ⟨-, rfl⟩ := assign_ok assigned
  · rfl
  · cases has : s.own with
    | none =>
      rw [setVariable_of_root has]
      exact congrArg Option.isSome has
    | some own => rw [setVariable_of_own has]; rfl

/-- The scope itself keeps what it has of any name but the one assigned. A default that
finds a value keeps that too. -/
theorem current_assign {other : Text} {bound : List Text}
    (assigned : (s.assign name value isDefault isGlobal).result = .ok s')
    (free : other ∉ if isDefault && (s.value? name).isSome then bound else name :: bound) :
    other ∉ bound ∧ s'.current.values.get? other = s.current.values.get? other := by
  rw [assign] at assigned
  split at assigned
  · next skipped =>
    rw [if_pos skipped] at free
    obtain rfl := Except.ok.inj assigned
    exact ⟨free, rfl⟩
  · next taken =>
    rw [if_neg taken, List.mem_cons, not_or] at free
    rw [Traced.result_bind] at assigned
    obtain ⟨_, -, assigned⟩ := bind_eq_ok.mp assigned
    obtain rfl := Except.ok.inj assigned
    exact ⟨free.2, (current_setVariable ..).trans (if_neg (Ne.symm free.1))⟩

/-- Declaring a mixin binds no variable. -/
theorem current_declare (s : Scope) (mixin : Mixin) (name : Text) :
    (s.declare mixin).current.values.get? name = s.current.values.get? name ∧
      (s.declare mixin).own.isSome = s.own.isSome := by
  cases has : s.own with
  | none =>
    rw [declare_of_root has, current_of_root (by exact has), current_of_root has]
    exact ⟨rfl, congrArg Option.isSome has⟩
  | some own =>
    rw [declare_of_own has, current_of_own rfl, current_of_own has]
    exact ⟨rfl, rfl⟩

def Each (B : Bindings → Prop) (s : Scope) : Prop := B s.root ∧ ∀ own ∈ s.own, B own

variable {B : Bindings → Prop}

theorem Each.current (each : s.Each B) : B s.current := by
  cases has : s.own with
  | none => rw [current_of_root has]; exact each.1
  | some own => rw [current_of_own has]; exact each.2 own has

theorem Each.child (each : s.Each B) : s.child.Each B := by
  refine ⟨each.1, ?_⟩
  intro own same
  cases same
  exact each.current

theorem Each.leave (each : s.Each B) (inside : inner.Each B) : (s.leave inner).Each B := ⟨inside.1, each.2⟩

theorem Each.update {f : Bindings → Bindings} (each : s.Each B) (keeps : ∀ b, B b → B (f b)) :
    (s.update f).Each B := by
  obtain ⟨root, own, precision⟩ := s
  cases own with
  | none => exact ⟨keeps root each.1, each.2⟩
  | some own =>
    refine ⟨each.1, ?_⟩
    intro own' same
    cases same
    exact keeps own (each.2 own rfl)

theorem Each.setVariable (each : s.Each B)
    (keeps : ∀ b : Bindings, B b → B { b with values := b.values.insert name value }) :
    (s.setVariable name value isGlobal).Each B := by
  have updated := each.update keeps
  rw [Scope.setVariable]
  split
  · exact ⟨keeps _ updated.1, updated.2⟩
  · exact updated

theorem Each.assign (each : s.Each B)
    (keeps : ∀ b : Bindings, B b → B { b with values := b.values.insert name value.asBound })
    (assigned : (s.assign name value isDefault isGlobal).result = .ok s') : s'.Each B := by
  obtain ⟨-, -, rfl⟩ | ⟨-, rfl⟩ := assign_ok assigned
  · exact each
  · exact each.setVariable keeps

end Scope

end Stylesheet

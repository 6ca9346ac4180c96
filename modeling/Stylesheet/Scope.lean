import Stylesheet.Trace

/-! Scopes: the variables and mixins visible at a place. A scope other than the
root starts as a copy of the one around it, so what it binds stays inside; a global
binding is also written to the root, where every scope that lacks the name finds
it. -/
namespace Stylesheet

/-- Names with what they stand for, in the order of their first binding. -/
abbrev Table (α : Type) := List (Text × α)

namespace Table

/-- What a name stands for. -/
def get? (name : Text) : Table α → Option α
  | [] => none
  | (key, a) :: rest => if key = name then some a else get? name rest

/-- Binds a name: in its place if it is bound already, else at the end. -/
def insert (name : Text) (a : α) : Table α → Table α
  | [] => [(name, a)]
  | (key, b) :: rest => if key = name then (key, a) :: rest else (key, b) :: insert name a rest

def names (t : Table α) : List Text := t.map (·.1)

theorem get?_insert (t : Table α) (name other : Text) (a : α) :
    (t.insert name a).get? other = if name = other then some a else t.get? other := by
  induction t with
  | nil => rfl
  | cons entry rest ih =>
    obtain ⟨key, b⟩ := entry
    by_cases hk : key = name
    · subst hk
      by_cases h : key = other <;> simp [insert, get?, h]
    · by_cases h : key = other
      · subst h
        simp [insert, get?, hk, Ne.symm hk]
      · simp [insert, get?, hk, h, ih]

end Table

/-- The variables and mixins of one scope. -/
structure Bindings where
  values : Table Value
  mixins : Table Mixin

/-- A scope as seen from inside: the root's bindings, its own unless it is the root
itself, and the precision at which numbers are spelled. -/
structure Scope where
  root : Bindings
  own : Option Bindings
  precision : Int

/-- A value as variables hold it: a number loses its spelling and counts as
computed. -/
def Value.asBound : Value → Value
  | .number q => .number { q with computed := true, raw := none }
  | value => value

namespace Scope

/-- A root scope without bindings. -/
def empty (precision : Int) : Scope := ⟨⟨[], []⟩, none, precision⟩

/-- The bindings of the scope itself. -/
def current (s : Scope) : Bindings := s.own.getD s.root

/-- A scope inside `s`, with a copy of its bindings. -/
def child (s : Scope) : Scope := { s with own := some s.current }

/-- The scope around `inner`, after `inner` has been left: only the root can have
changed. -/
def leave (s inner : Scope) : Scope := { s with root := inner.root }

/-- The value a name is bound to, here or else in the root. -/
def value? (s : Scope) (name : Text) : Option Value :=
  (s.current.values.get? name).or (s.root.values.get? name)

/-- The mixin a name is bound to, here or else in the root. -/
def mixin? (s : Scope) (name : Text) : Option Mixin :=
  (s.current.mixins.get? name).or (s.root.mixins.get? name)

/-- Replaces the bindings of the scope itself. -/
def update (s : Scope) (f : Bindings → Bindings) : Scope :=
  match s.own with
  | some own => { s with own := some (f own) }
  | none => { s with root := f s.root }

/-- Binds a variable here and, if it is global, in the root. -/
def setVariable (s : Scope) (name : Text) (value : Value) (isGlobal : Bool) : Scope :=
  let put (b : Bindings) : Bindings := { b with values := b.values.insert name value }
  let s := s.update put
  if isGlobal && s.own.isSome then { s with root := put s.root } else s

/-- Executes an assignment. A default does nothing where the name has a value. -/
def assign (s : Scope) (name : Text) (value : Value) (isDefault isGlobal : Bool) : Traced Scope :=
  if isDefault && (s.value? name).isSome then pure s
  else do
    let value := value.asBound
    .report (.bound name value)
    return s.setVariable name value isGlobal

/-- Declares a mixin here. -/
def declare (s : Scope) (mixin : Mixin) : Scope :=
  s.update fun b => { b with mixins := b.mixins.insert mixin.name mixin }

/-- A scope as it is shown: the names it holds. -/
def inspect (s : Scope) : Text :=
  let list (names : List Text) : Text := '[' :: List.intercalate ", ".toList (names.map Text.quoted) ++ [']']
  "Context(variables=".toList ++ list s.current.values.names ++ ", mixins=".toList ++
    list s.current.mixins.names ++ [')']

end Scope

end Stylesheet

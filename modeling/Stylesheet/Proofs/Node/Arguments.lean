import Stylesheet.Proofs.Node.Alike

/-! How a call supplies the parameters of a mixin. A parameter takes the last argument of
its name, or else the next argument without a name, or else its default, which sees the
parameters before it. Where arguments and defaults have values, a call fails only for a
name that is no parameter or for a parameter that nothing supplies; and where arguments
with different names stand among each other makes no difference. -/
namespace Stylesheet

def Raises (kind : Kind) (x : Except Failure α) : Prop :=
  ∃ cause offset, x = .error (.error cause offset) ∧ cause.kind = kind

theorem not_raises_ok (kind : Kind) (a : α) : ¬Raises kind (.ok a) := by
  rintro ⟨_, _, failed, -⟩
  cases failed

theorem raises_error_iff {kind : Kind} {cause : Cause} {offset : Option Int} :
    Raises kind (.error (.error cause offset) : Except Failure α) ↔ cause.kind = kind := by
  constructor
  · rintro ⟨_, _, same, kind⟩
    cases same
    exact kind
  · intro kind
    exact ⟨cause, offset, rfl, kind⟩

namespace Argument

def unnamed (arguments : List Argument) : List Argument := arguments.filter (·.name == none)

def lastNamed? (arguments : List Argument) (name : Text) : Option Argument :=
  (arguments.filter (·.name == some name)).getLast?

/-- How many arguments without a name the parameters ask for: one for each that no
argument names. -/
def asked (arguments : List Argument) (parameters : List Parameter) : Nat :=
  parameters.countP fun parameter => (lastNamed? arguments parameter.name).isNone

/-- Arguments of the same name, and those without one, are the same in the same order; how
they stand among each other is left open. -/
def Moved (arguments moved : List Argument) : Prop :=
  ∀ name : Option Text, moved.filter (·.name == name) = arguments.filter (·.name == name)

variable {arguments moved : List Argument} {argument : Argument} {name : Text}

theorem mem_of_lastNamed? (found : lastNamed? arguments name = some argument) :
    argument ∈ arguments ∧ argument.name = some name := by
  have member := List.mem_filter.mp (List.mem_of_getLast? found)
  exact ⟨member.1, by simpa using member.2⟩

theorem lastNamed?_concat (arguments : List Argument) (argument : Argument) (name : Text) :
    lastNamed? (arguments ++ [argument]) name =
      if argument.name = some name then some argument else lastNamed? arguments name := by
  rw [lastNamed?, List.filter_append]
  by_cases here : argument.name = some name
  · rw [if_pos here, List.filter_cons_of_pos (by simp [here]), List.filter_nil, List.getLast?_concat]
  · rw [if_neg here, List.filter_cons_of_neg (by simp [here]), List.filter_nil, List.append_nil]
    rfl

theorem unnamed_concat_of_none (arguments : List Argument) (none : argument.name = none) :
    unnamed (arguments ++ [argument]) = unnamed arguments ++ [argument] := by
  simp [unnamed, none]

theorem unnamed_concat_of_some (arguments : List Argument) (some : argument.name = some name) :
    unnamed (arguments ++ [argument]) = unnamed arguments := by
  simp [unnamed, some]

theorem asked_concat (arguments : List Argument) (parameters : List Parameter) (parameter : Parameter) :
    asked arguments (parameters ++ [parameter]) =
      asked arguments parameters + if (lastNamed? arguments parameter.name).isNone then 1 else 0 := by
  rw [asked, List.countP_append, List.countP_singleton]
  rfl

theorem Moved.lastNamed?_eq (same : Moved arguments moved) : lastNamed? moved = lastNamed? arguments := by
  funext name
  rw [lastNamed?, same, lastNamed?]

theorem Moved.unnamed_eq (same : Moved arguments moved) : unnamed moved = unnamed arguments := same none

theorem Moved.asked_eq (same : Moved arguments moved) : asked moved = asked arguments := by
  funext parameters
  rw [asked, same.lastNamed?_eq, asked]

theorem Moved.symm (same : Moved arguments moved) : Moved moved arguments := fun name => (same name).symm

theorem Moved.mem_iff (same : Moved arguments moved) : argument ∈ moved ↔ argument ∈ arguments := by
  have among (list : List Argument) : argument ∈ list ↔ argument ∈ list.filter (·.name == argument.name) := by
    simp
  rw [among moved, same, ← among]

end Argument

open Argument

/-- Behind the parameters `earlier`, which are bound in the scope `inner`, the call from
`scope` supplies the next parameter with a value. -/
inductive Supplies (scope : Scope) (arguments : List Argument) (earlier : List Parameter) (inner : Scope)
    (parameter : Parameter) (value : Value) : Prop where
  | named {argument : Argument} (found : lastNamed? arguments parameter.name = some argument)
      (evaluated : (evaluate scope argument.value).result = .ok value)
  | next {argument : Argument} (none : lastNamed? arguments parameter.name = none)
      (here : (unnamed arguments)[asked arguments earlier]? = some argument)
      (evaluated : (evaluate scope argument.value).result = .ok value)
  | default {e : Expression} (none : lastNamed? arguments parameter.name = none)
      (used : (unnamed arguments).length ≤ asked arguments earlier) (has : parameter.default = some e)
      (evaluated : (evaluate inner e).result = .ok value)

structure Lacks (arguments : List Argument) (earlier : List Parameter) (parameter : Parameter) : Prop where
  none : lastNamed? arguments parameter.name = none
  used : (unnamed arguments).length ≤ asked arguments earlier
  noDefault : parameter.default = .none

def Mixin.Refuses (mixin : Mixin) (argument : Argument) : Prop :=
  ∃ name ∈ argument.name, ∀ parameter ∈ mixin.parameters, parameter.name ≠ name

def Mixin.Misnamed (mixin : Mixin) (arguments : List Argument) : Prop :=
  ∃ argument ∈ arguments, mixin.Refuses argument

theorem Mixin.misnamed_cons {mixin : Mixin} {argument : Argument} {rest : List Argument} :
    mixin.Misnamed (argument :: rest) ↔ mixin.Refuses argument ∨ mixin.Misnamed rest := by
  simp [Misnamed]

def Mixin.Undersupplied (mixin : Mixin) (arguments : List Argument) : Prop :=
  ∃ earlier parameter later, mixin.parameters = earlier ++ parameter :: later ∧ Lacks arguments earlier parameter

/-- What stands for a value once it is bound: a number counts as computed and has lost its
spelling, any other value stays as it is. -/
inductive BoundAs : Value → Value → Prop where
  | number (q : Quantity) : BoundAs (.number q) (.number { q with computed := true, raw := none })
  | other {value : Value} (noNumber : ∀ q, value ≠ .number q) : BoundAs value value

theorem boundAs_iff {value bound : Value} : BoundAs value bound ↔ bound = value.asBound := by
  constructor
  · rintro (q | noNumber)
    · rfl
    · cases value with
      | number q => exact absurd rfl (noNumber q)
      | _ => rfl
  · rintro rfl
    cases value with
    | number q => exact .number q
    | _ => exact .other (by simp)

/-- The scope inside that of the call in which the parameters are bound in turn, each to
what the call supplies it with. -/
inductive Binds (scope : Scope) (arguments : List Argument) : List Parameter → Scope → Prop where
  | nil : Binds scope arguments [] scope.child
  | concat {earlier : List Parameter} {inner : Scope} {parameter : Parameter} {value bound : Value}
      (before : Binds scope arguments earlier inner)
      (supplied : Supplies scope arguments earlier inner parameter value) (held : BoundAs value bound) :
      Binds scope arguments (earlier ++ [parameter]) (inner.setVariable parameter.name bound false)

/-- The arguments have values in the scope of the call, and the defaults have values where
the parameters before them are bound. -/
structure Mixin.Valued (mixin : Mixin) (scope : Scope) (arguments : List Argument) : Prop where
  given : ∀ argument ∈ arguments, ∃ v, (evaluate scope argument.value).result = .ok v
  defaults : ∀ earlier parameter later, mixin.parameters = earlier ++ parameter :: later → ∀ e ∈ parameter.default,
    ∀ inner, Binds scope arguments earlier inner → ∃ v, (evaluate inner e).result = .ok v

section

variable {scope inner inner' : Scope} {arguments moved : List Argument} {earlier later parameters : List Parameter}
  {parameter : Parameter} {value value' : Value}

theorem Supplies.unique (one : Supplies scope arguments earlier inner parameter value)
    (two : Supplies scope arguments earlier inner parameter value') : value = value' := by
  cases one with
  | named found evaluated =>
    cases two with
    | named found' evaluated' =>
      obtain rfl := Option.some.inj (found.symm.trans found')
      exact Except.ok.inj (evaluated.symm.trans evaluated')
    | next none | default none => cases found.symm.trans none
  | next none here evaluated =>
    cases two with
    | named found => cases found.symm.trans none
    | next _ here' evaluated' =>
      obtain rfl := Option.some.inj (here.symm.trans here')
      exact Except.ok.inj (evaluated.symm.trans evaluated')
    | default _ used => cases here.symm.trans (List.getElem?_eq_none used)
  | default none used has evaluated =>
    cases two with
    | named found => cases found.symm.trans none
    | next _ here => cases here.symm.trans (List.getElem?_eq_none used)
    | default _ _ has' evaluated' =>
      obtain rfl := Option.some.inj (has.symm.trans has')
      exact Except.ok.inj (evaluated.symm.trans evaluated')

theorem Supplies.not_lacks (supplied : Supplies scope arguments earlier inner parameter value) :
    ¬Lacks arguments earlier parameter := by
  intro lacks
  cases supplied with
  | named found => cases found.symm.trans lacks.none
  | next _ here => cases here.symm.trans (List.getElem?_eq_none lacks.used)
  | default _ _ has => cases has.symm.trans lacks.noDefault

/-- A parameter is supplied or lacks a value, where arguments and its default have one. -/
theorem supplies_or_lacks (scope : Scope) {arguments : List Argument} (earlier : List Parameter) (inner : Scope)
    (parameter : Parameter) (given : ∀ argument ∈ arguments, ∃ v, (evaluate scope argument.value).result = .ok v)
    (default : ∀ e ∈ parameter.default, ∃ v, (evaluate inner e).result = .ok v) :
    (∃ value, Supplies scope arguments earlier inner parameter value) ∨ Lacks arguments earlier parameter := by
  cases found : lastNamed? arguments parameter.name with
  | some argument =>
    obtain ⟨v, evaluated⟩ := given argument (mem_of_lastNamed? found).1
    exact .inl ⟨v, .named found evaluated⟩
  | none =>
    cases here : (unnamed arguments)[asked arguments earlier]? with
    | some argument =>
      obtain ⟨v, evaluated⟩ := given argument (List.mem_filter.mp (List.mem_of_getElem? here)).1
      exact .inl ⟨v, .next found here evaluated⟩
    | none =>
      have used := List.getElem?_eq_none_iff.mp here
      cases has : parameter.default with
      | some e =>
        obtain ⟨v, evaluated⟩ := default e has
        exact .inl ⟨v, .default found used has evaluated⟩
      | none => exact .inr ⟨found, used, has⟩

theorem Supplies.of_moved (same : Moved arguments moved)
    (supplied : Supplies scope moved earlier inner parameter value) :
    Supplies scope arguments earlier inner parameter value := by
  cases supplied with
  | named found evaluated =>
    rw [same.lastNamed?_eq] at found
    exact .named found evaluated
  | next none here evaluated =>
    rw [same.lastNamed?_eq] at none
    rw [same.unnamed_eq, same.asked_eq] at here
    exact .next none here evaluated
  | default none used has evaluated =>
    rw [same.lastNamed?_eq] at none
    rw [same.unnamed_eq, same.asked_eq] at used
    exact .default none used has evaluated

theorem Lacks.of_moved (same : Moved arguments moved) (lacks : Lacks moved earlier parameter) :
    Lacks arguments earlier parameter := by
  obtain ⟨none, used, noDefault⟩ := lacks
  rw [same.lastNamed?_eq] at none
  rw [same.unnamed_eq, same.asked_eq] at used
  exact ⟨none, used, noDefault⟩

theorem Mixin.Undersupplied.of_moved {mixin : Mixin} (same : Moved arguments moved)
    (under : mixin.Undersupplied moved) : mixin.Undersupplied arguments := by
  obtain ⟨earlier, parameter, later, parts, lacks⟩ := under
  exact ⟨earlier, parameter, later, parts, lacks.of_moved same⟩

namespace Binds

theorem of_moved (same : Moved arguments moved) (binds : Binds scope moved parameters inner) :
    Binds scope arguments parameters inner := by
  induction binds with
  | nil => exact .nil
  | concat _ supplied held ih => exact .concat ih (supplied.of_moved same) held

/-- The last parameter is bound in the scope in which the others are. -/
theorem of_concat (binds : Binds scope arguments (earlier ++ [parameter]) inner') :
    ∃ inner value, Binds scope arguments earlier inner ∧ Supplies scope arguments earlier inner parameter value ∧
      inner' = inner.setVariable parameter.name value.asBound false := by
  generalize whole : earlier ++ [parameter] = parameters at binds
  cases binds with
  | nil => simp at whole
  | concat before supplied held =>
    obtain ⟨rfl, same⟩ := List.append_inj' whole rfl
    cases same
    exact ⟨_, _, before, supplied, by rw [boundAs_iff.mp held]⟩

theorem unique (one : Binds scope arguments parameters inner) (two : Binds scope arguments parameters inner') :
    inner = inner' := by
  induction one generalizing inner' with
  | nil =>
    generalize whole : ([] : List Parameter) = parameters at two
    cases two with
    | nil => rfl
    | concat => simp at whole
  | concat _ supplied held ih =>
    obtain ⟨inner, value, before, supplied', rfl⟩ := two.of_concat
    obtain rfl := ih before
    rw [boundAs_iff.mp held, supplied.unique supplied']

/-- Every parameter is supplied behind those before it. -/
theorem supplies (binds : Binds scope arguments parameters inner) (parts : parameters = earlier ++ parameter :: later) :
    ∃ before value, Binds scope arguments earlier before ∧
      Supplies scope arguments earlier before parameter value := by
  induction binds generalizing later with
  | nil => simp at parts
  | concat before supplied _ ih =>
    -- The parameter is the last one, or one of those bound before.
    rcases List.eq_nil_or_concat later with rfl | ⟨later, last, rfl⟩
    · obtain ⟨rfl, same⟩ := List.append_inj' parts rfl
      cases same
      exact ⟨_, _, before, supplied⟩
    · rw [List.concat_eq_append, ← List.cons_append, ← List.append_assoc] at parts
      exact ih (List.append_inj' parts rfl).1

theorem not_undersupplied {mixin : Mixin} (binds : Binds scope arguments mixin.parameters inner) :
    ¬mixin.Undersupplied arguments := by
  rintro ⟨earlier, parameter, later, parts, lacks⟩
  obtain ⟨_, _, _, supplied⟩ := binds.supplies parts
  exact supplied.not_lacks lacks

/-- Names other than those of the parameters stand for what they stand for in the scope of
the call. -/
theorem value?_eq (binds : Binds scope arguments parameters inner) {name : Text}
    (other : ∀ parameter ∈ parameters, parameter.name ≠ name) : inner.value? name = scope.value? name := by
  induction binds with
  | nil => rfl
  | concat _ _ _ ih =>
    obtain ⟨others, last⟩ := List.forall_mem_append.mp other
    rw [Scope.value?_setVariable, if_neg (last _ List.mem_cons_self), ih others]

theorem mixin?_eq (binds : Binds scope arguments parameters inner) (name : Text) :
    inner.mixin? name = scope.mixin? name := by
  induction binds with
  | nil => rfl
  | concat _ _ _ ih => rw [Scope.mixin?_setVariable, ih]

end Binds

theorem Mixin.Valued.of_moved {mixin : Mixin} (same : Moved arguments moved) (valued : mixin.Valued scope moved) :
    mixin.Valued scope arguments := by
  refine ⟨fun argument member => valued.given argument (same.mem_iff.mpr member), ?_⟩
  intro earlier parameter later parts e has inner binds
  exact valued.defaults earlier parameter later parts e has inner (binds.of_moved same.symm)

end

namespace Resolve

/-- What is collected of arguments: for each name the value of the last argument of that
name, and the values of the arguments without a name. -/
structure Collected (scope : Scope) (arguments : List Argument) (named : Table Value) (positional : List Value) :
    Prop where
  absent : ∀ name, lastNamed? arguments name = none → named.get? name = none
  given : ∀ name argument, lastNamed? arguments name = some argument →
    ∃ v, (evaluate scope argument.value).result = .ok v ∧ named.get? name = some v
  others : positional.map .ok = (unnamed arguments).map fun argument => (evaluate scope argument.value).result

section

variable {scope inner : Scope} {mixin : Mixin} {arguments before rest : List Argument} {argument : Argument}
  {named : Table Value} {positional : List Value} {v : Value}

theorem collected_nil (scope : Scope) : Collected scope [] [] [] := by
  refine ⟨fun _ _ => rfl, ?_, rfl⟩
  intro name argument found
  cases found

theorem Collected.add_unnamed (collected : Collected scope before named positional) (none : argument.name = none)
    (evaluated : (evaluate scope argument.value).result = .ok v) :
    Collected scope (before ++ [argument]) named (positional ++ [v]) := by
  have same (name : Text) : lastNamed? (before ++ [argument]) name = lastNamed? before name := by
    rw [lastNamed?_concat, if_neg (by simp [none])]
  refine ⟨fun name => ?_, fun name => ?_, ?_⟩
  · rw [same]
    exact collected.absent name
  · rw [same]
    exact collected.given name
  · rw [unnamed_concat_of_none before none, List.map_append, List.map_append, collected.others, List.map_singleton,
      List.map_singleton, evaluated]

theorem Collected.add_named {name : Text} (collected : Collected scope before named positional)
    (some : argument.name = some name) (evaluated : (evaluate scope argument.value).result = .ok v) :
    Collected scope (before ++ [argument]) (named.insert name v) positional := by
  refine ⟨fun other none => ?_, fun other last found => ?_, ?_⟩
  · rw [lastNamed?_concat, some] at none
    split at none
    · cases none
    · next different =>
      rw [Table.get?_insert, if_neg fun same => different (congrArg _ same)]
      exact collected.absent other none
  · rw [lastNamed?_concat, some] at found
    rw [Table.get?_insert]
    split at found
    · next same =>
      cases found
      exact ⟨v, evaluated, if_pos (Option.some.inj same)⟩
    · next different =>
      rw [if_neg fun same => different (congrArg _ same)]
      exact collected.given other last found
  · rw [unnamed_concat_of_some before some]
    exact collected.others

/-- An argument that is not refused is added to what is collected. -/
theorem collect_cons (known : ¬mixin.Refuses argument) (evaluated : (evaluate scope argument.value).result = .ok v)
    (named : Table Value) (positional : List Value) :
    ∃ named' positional',
      (∀ rest, (collect scope mixin (argument :: rest) named positional).result =
        (collect scope mixin rest named' positional').result) ∧
      ∀ before, Collected scope before named positional → Collected scope (before ++ [argument]) named' positional' := by
  cases name : argument.name with
  | none =>
    refine ⟨named, positional ++ [v], fun rest => ?_, fun before collected => collected.add_unnamed name evaluated⟩
    conv => lhs; unfold collect
    rw [name]
    exact Traced.bind_of_ok evaluated
  | some n =>
    have isParameter : (mixin.parameters.any fun p => p.name == n) = true := by
      simpa [Mixin.Refuses, name] using known
    refine ⟨named.insert n v, positional, fun rest => ?_, fun before collected => collected.add_named name evaluated⟩
    conv => lhs; unfold collect
    rw [name]
    dsimp only
    rw [if_pos isParameter, Traced.bind_of_ok evaluated]

theorem collect_of_refuses (refused : mixin.Refuses argument) (rest : List Argument) (named : Table Value)
    (positional : List Value) :
    ∃ name offset, (collect scope mixin (argument :: rest) named positional).result =
      .error (.error (.unknownArgument mixin.name name) offset) := by
  obtain ⟨name, has, none⟩ := refused
  have noParameter : ¬(mixin.parameters.any fun p => p.name == name) = true := by simpa using none
  refine ⟨name, Expression.offset argument.value, ?_⟩
  unfold collect
  rw [Option.mem_def.mp has]
  dsimp only
  rw [if_neg noParameter]
  rfl

/-- Arguments that have values are collected if none of them is refused. -/
theorem collect_of_not_misnamed (collected : Collected scope before named positional)
    (given : ∀ argument ∈ rest, ∃ v, (evaluate scope argument.value).result = .ok v)
    (known : ¬mixin.Misnamed rest) :
    ∃ named' positional', (collect scope mixin rest named positional).result = .ok (named', positional') ∧
      Collected scope (before ++ rest) named' positional' := by
  -- What is collected so far belongs to `before`, which grows by one argument at a time.
  induction rest generalizing before named positional with
  | nil => exact ⟨named, positional, rfl, by rwa [List.append_nil]⟩
  | cons argument rest ih =>
    obtain ⟨⟨v, evaluated⟩, given⟩ := List.forall_mem_cons.mp given
    rw [Mixin.misnamed_cons, not_or] at known
    obtain ⟨named', positional', step, added⟩ := collect_cons known.1 evaluated named positional
    have whole : before ++ argument :: rest = before ++ [argument] ++ rest := by simp
    rw [step, whole]
    exact ih (added before collected) given known.2

/-- The first argument that is refused is an error, if those before it have values. -/
theorem collect_of_misnamed (named : Table Value) (positional : List Value)
    (given : ∀ argument ∈ rest, ∃ v, (evaluate scope argument.value).result = .ok v)
    (misnamed : mixin.Misnamed rest) :
    ∃ name offset, (collect scope mixin rest named positional).result =
      .error (.error (.unknownArgument mixin.name name) offset) := by
  induction rest generalizing named positional with
  | nil =>
    obtain ⟨argument, member, -⟩ := misnamed
    cases member
  | cons argument rest ih =>
    obtain ⟨⟨v, evaluated⟩, given⟩ := List.forall_mem_cons.mp given
    by_cases refused : mixin.Refuses argument
    · exact collect_of_refuses refused rest named positional
    · obtain ⟨named', positional', step, -⟩ := collect_cons refused evaluated named positional
      rw [step]
      exact ih named' positional' given ((Mixin.misnamed_cons.mp misnamed).resolve_left refused)

variable {name : Text} {offset : Option Int} {earlier later parameters : List Parameter} {parameter : Parameter}

/-- Binding goes on behind a parameter that is supplied. -/
theorem bindParameters_of_supplies (collected : Collected scope arguments named positional)
    (supplied : Supplies scope arguments earlier inner parameter v) :
    (bindParameters name offset named (parameter :: later) (positional.drop (asked arguments earlier)) inner).result =
      (bindParameters name offset named later (positional.drop (asked arguments (earlier ++ [parameter])))
        (inner.setVariable parameter.name v.asBound false)).result := by
  have count : positional.length = (unnamed arguments).length := by
    simpa using congrArg List.length collected.others
  -- The values dropped so far are those that earlier parameters asked for.
  conv => lhs; unfold bindParameters
  rw [asked_concat]
  cases supplied with
  | named found evaluated =>
    obtain ⟨v', evaluated', bound⟩ := collected.given _ _ found
    obtain rfl := Except.ok.inj (evaluated.symm.trans evaluated')
    rw [bound, found]
    rfl
  | next none here evaluated =>
    have entry := congrArg (·[asked arguments earlier]?) collected.others
    simp only [List.getElem?_map, here, Option.map_some, evaluated, Option.map_eq_some_iff, Except.ok.injEq,
      exists_eq_right] at entry
    obtain ⟨short, rfl⟩ := List.getElem?_eq_some_iff.mp entry
    rw [collected.absent _ none, none, List.drop_eq_getElem_cons short]
    rfl
  | default none used has evaluated =>
    rw [collected.absent _ none, none, has, List.drop_eq_nil_of_le (by omega), List.drop_eq_nil_of_le (by omega)]
    exact Traced.bind_of_ok evaluated

/-- Binding fails at a parameter that lacks a value. -/
theorem bindParameters_of_lacks (collected : Collected scope arguments named positional)
    (lacks : Lacks arguments earlier parameter) :
    (bindParameters name offset named (parameter :: later) (positional.drop (asked arguments earlier)) inner).result =
      .error (.error (.missingArgument parameter.name name) offset) := by
  have count : positional.length = (unnamed arguments).length := by
    simpa using congrArg List.length collected.others
  have used := lacks.used
  unfold bindParameters
  rw [collected.absent _ lacks.none, lacks.noDefault, List.drop_eq_nil_of_le (by omega)]
  rfl

/-- Where arguments and defaults have values, all parameters are bound, or binding fails at
one that lacks a value. -/
theorem bindParameters_outcome (name : Text) (offset : Option Int)
    (collected : Collected scope arguments named positional)
    (valued : mixin.Valued scope arguments) (parts : mixin.parameters = earlier ++ later)
    (binds : Binds scope arguments earlier inner) :
    (∃ inner', (bindParameters name offset named later (positional.drop (asked arguments earlier)) inner).result =
        .ok inner' ∧ Binds scope arguments mixin.parameters inner') ∨
      ∃ before parameter after, mixin.parameters = before ++ parameter :: after ∧ Lacks arguments before parameter ∧
        (bindParameters name offset named later (positional.drop (asked arguments earlier)) inner).result =
          .error (.error (.missingArgument parameter.name name) offset) := by
  induction later generalizing earlier inner with
  | nil =>
    rw [List.append_nil] at parts
    rw [parts]
    exact .inl ⟨inner, rfl, binds⟩
  | cons parameter later ih =>
    have default := fun e has => valued.defaults earlier parameter later parts e has inner binds
    rcases supplies_or_lacks scope earlier inner parameter valued.given default with ⟨value, supplied⟩ | lacks
    · rw [bindParameters_of_supplies collected supplied]
      exact ih (by rw [parts, List.append_assoc, List.singleton_append]) (binds.concat supplied (boundAs_iff.mpr rfl))
    · exact .inr ⟨earlier, parameter, later, parts, lacks, bindParameters_of_lacks collected lacks⟩

end

end Resolve

section

open Resolve

variable {scope : Scope} {mixin : Mixin} {arguments : List Argument}

/-- The three ways a call can go where arguments and defaults have values. -/
theorem bindArguments_outcome (offset : Option Int) (valued : mixin.Valued scope arguments) :
    (mixin.Misnamed arguments ∧ ∃ name at', (bindArguments mixin arguments offset scope).result =
        .error (.error (.unknownArgument mixin.name name) at')) ∨
      (¬mixin.Misnamed arguments ∧ mixin.Undersupplied arguments ∧
        ∃ name, (bindArguments mixin arguments offset scope).result =
          .error (.error (.missingArgument name mixin.name) offset)) ∨
      (¬mixin.Misnamed arguments ∧ ¬mixin.Undersupplied arguments ∧
        ∃ inner, (bindArguments mixin arguments offset scope).result = .ok inner ∧
          Binds scope arguments mixin.parameters inner) := by
  by_cases misnamed : mixin.Misnamed arguments
  · obtain ⟨name, at', failed⟩ := collect_of_misnamed [] [] valued.given misnamed
    refine .inl ⟨misnamed, name, at', ?_⟩
    rw [bindArguments, Traced.result_bind, failed]
    rfl
  · obtain ⟨named, positional, ran, collected⟩ := collect_of_not_misnamed (collected_nil scope) valued.given misnamed
    rw [List.nil_append] at collected
    have bound : (bindArguments mixin arguments offset scope).result =
        (bindParameters mixin.name offset named mixin.parameters positional scope.child).result :=
      Traced.bind_of_ok ran
    rw [bound]
    rcases bindParameters_outcome mixin.name offset collected valued rfl .nil with
      ⟨inner, ran, binds⟩ | ⟨earlier, parameter, later, parts, lacks, failed⟩
    · exact .inr (.inr ⟨misnamed, binds.not_undersupplied, inner, ran, binds⟩)
    · exact .inr (.inl ⟨misnamed, ⟨earlier, parameter, later, parts, lacks⟩, parameter.name, failed⟩)

theorem raises_bindArguments_iff (offset : Option Int) (valued : mixin.Valued scope arguments) (kind : Kind) :
    Raises kind (bindArguments mixin arguments offset scope).result ↔
      (Kind.argumentNotFound = kind ∧ mixin.Misnamed arguments) ∨
        (Kind.expectedMixinArgument = kind ∧ ¬mixin.Misnamed arguments ∧ mixin.Undersupplied arguments) := by
  rcases bindArguments_outcome offset valued with
    ⟨misnamed, name, at', failed⟩ | ⟨named, under, name, failed⟩ | ⟨named, supplied, inner, ran, -⟩
  · rw [failed, raises_error_iff]
    simp [misnamed, Cause.kind]
  · rw [failed, raises_error_iff]
    simp [named, under, Cause.kind]
  · rw [ran]
    simp [named, supplied, not_raises_ok]

theorem bindArguments_eq_ok_iff (offset : Option Int) (valued : mixin.Valued scope arguments) (inner : Scope) :
    (bindArguments mixin arguments offset scope).result = .ok inner ↔
      ¬mixin.Misnamed arguments ∧ Binds scope arguments mixin.parameters inner := by
  rcases bindArguments_outcome offset valued with
    ⟨misnamed, name, at', failed⟩ | ⟨named, under, name, failed⟩ | ⟨named, -, inner', ran, binds⟩
  · simp [failed, misnamed]
  · have unbound : ¬Binds scope arguments mixin.parameters inner := fun binds => binds.not_undersupplied under
    simp [failed, unbound]
  · rw [ran]
    constructor
    · intro same
      cases same
      exact ⟨named, binds⟩
    · intro ⟨_, binds'⟩
      rw [binds.unique binds']

/-- A call whose arguments and defaults have values fails only for a name that is no
parameter, then for a parameter that nothing supplies; otherwise its parameters are bound
to what the call supplies, numbers as computed ones, and the scope of the call stays as it
is. The order in which arguments of different names stand shows in neither. -/
theorem bindArguments_supplies (offset : Option Int) (valued : mixin.Valued scope arguments) :
    (Raises .argumentNotFound (bindArguments mixin arguments offset scope).result ↔ mixin.Misnamed arguments) ∧
    (¬mixin.Misnamed arguments →
      (Raises .expectedMixinArgument (bindArguments mixin arguments offset scope).result ↔
        mixin.Undersupplied arguments)) ∧
    (¬mixin.Misnamed arguments → ¬mixin.Undersupplied arguments →
      ∃ inner, (bindArguments mixin arguments offset scope).result = .ok inner ∧
        Binds scope arguments mixin.parameters inner ∧ scope.leave inner = scope ∧
        (∀ name, (∀ parameter ∈ mixin.parameters, parameter.name ≠ name) → inner.value? name = scope.value? name) ∧
        ∀ name, inner.mixin? name = scope.mixin? name) ∧
    ∀ moved, Moved arguments moved →
      (∀ inner, (bindArguments mixin moved offset scope).result = .ok inner ↔
        (bindArguments mixin arguments offset scope).result = .ok inner) ∧
      ∀ kind, Raises kind (bindArguments mixin moved offset scope).result ↔
        Raises kind (bindArguments mixin arguments offset scope).result := by
  refine ⟨?_, fun named => ?_, fun named supplied => ?_, fun moved same => ?_⟩
  · simp [raises_bindArguments_iff offset valued]
  · simp [raises_bindArguments_iff offset valued, named]
  · rcases bindArguments_outcome offset valued with
      ⟨misnamed, -⟩ | ⟨-, under, -⟩ | ⟨-, -, inner, ran, binds⟩
    · exact (named misnamed).elim
    · exact (supplied under).elim
    · exact ⟨inner, ran, binds, Scope.leave_of_root (Scope.root_bindArguments ran).2, fun _ => binds.value?_eq,
        binds.mixin?_eq⟩
  · have misnamed : mixin.Misnamed moved ↔ mixin.Misnamed arguments := by
      simp only [Mixin.Misnamed, same.mem_iff]
    have under : mixin.Undersupplied moved ↔ mixin.Undersupplied arguments :=
      ⟨.of_moved same, .of_moved same.symm⟩
    have binds (inner : Scope) : Binds scope moved mixin.parameters inner ↔
        Binds scope arguments mixin.parameters inner := ⟨.of_moved same, .of_moved same.symm⟩
    constructor
    · intro inner
      rw [bindArguments_eq_ok_iff offset (valued.of_moved same.symm), bindArguments_eq_ok_iff offset valued, misnamed,
        binds]
    · intro kind
      rw [raises_bindArguments_iff offset (valued.of_moved same.symm), raises_bindArguments_iff offset valued, misnamed,
        under]

end

/-- A mixin whose second parameter stands for the first unless it is given. -/
def pairMixin : Mixin :=
  ⟨"m".toList, [⟨"$a".toList, none⟩, ⟨"$b".toList, some [⟨.ident "$a".toList, none⟩]⟩, ⟨"$c".toList, none⟩], []⟩

def pairArguments : List Argument :=
  [⟨some "$c".toList, [⟨.ident "z".toList, none⟩]⟩, ⟨none, [⟨.number ⟨.one, none, false, "1.0".toList⟩, none⟩]⟩]

/-- The number is bound as a computed one, so it is no longer spelled as it was written. -/
theorem bindArguments_pairMixin :
    pairMixin.Valued (Scope.empty 5) pairArguments ∧ Moved pairArguments pairArguments.reverse ∧
      ∃ inner, (Resolve.bindArguments pairMixin pairArguments none (Scope.empty 5)).result = .ok inner ∧
        Binds (Scope.empty 5) pairArguments pairMixin.parameters inner ∧
        (Resolve.bindArguments pairMixin pairArguments.reverse none (Scope.empty 5)).result = .ok inner ∧
        ["$a", "$b", "$c"].map (fun name => (inner.value? name.toList).bind fun v => (v.css 5 false).toOption) =
          ["1", "1", "z"].map fun text => some text.toList := by
  have valued : pairMixin.Valued (Scope.empty 5) pairArguments := by
    constructor
    · intro argument member
      simp only [pairArguments, List.mem_cons, List.not_mem_nil, or_false] at member
      rcases member with rfl | rfl <;> exact exists_of_isOk (by decide +kernel)
    · intro earlier parameter later parts e has inner _
      have member : parameter ∈ pairMixin.parameters := by simp [parts]
      simp only [pairMixin, List.mem_cons, List.not_mem_nil, or_false] at member
      rcases member with rfl | rfl | rfl <;> cases has
      exact ⟨_, (evaluate_ident ..).trans (if_pos rfl)⟩
  have moved : Moved pairArguments pairArguments.reverse := by
    intro name
    cases name <;> simp [pairArguments, List.filter_cons]
  have named : ¬pairMixin.Misnamed pairArguments := by
    rintro ⟨argument, member, name, has, none⟩
    simp only [pairArguments, List.mem_cons, List.not_mem_nil, or_false] at member
    rcases member with rfl | rfl <;> cases has
    exact none ⟨"$c".toList, .none⟩ (by simp [pairMixin]) rfl
  obtain ⟨inner', bound'⟩ := exists_of_isOk
    (x := (Resolve.bindArguments pairMixin pairArguments none (Scope.empty 5)).result) (by decide +kernel)
  obtain ⟨-, missing, supplied, same⟩ := bindArguments_supplies none valued
  have enough : ¬pairMixin.Undersupplied pairArguments := by
    rw [← missing named, bound']
    exact not_raises_ok _ _
  obtain ⟨inner, bound, binds, -⟩ := supplied named enough
  refine ⟨valued, moved, inner, bound, binds, (same _ moved).1 inner |>.mpr bound, ?_⟩
  have computed : (Resolve.bindArguments pairMixin pairArguments none (Scope.empty 5)).result.toOption.map
      (fun inner => ["$a", "$b", "$c"].map fun name =>
        (inner.value? name.toList).bind fun v => (v.css 5 false).toOption) =
      some (["1", "1", "z"].map fun text => some text.toList) := by
    decide +kernel
  rw [bound] at computed
  exact Option.some.inj computed

end Stylesheet

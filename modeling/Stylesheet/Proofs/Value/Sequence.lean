import Mathlib.Data.List.Forall2
import Stylesheet.Proofs.Value.Nesting

/-! Evaluation of values in a row. Values that nothing computed, side by side or with
single slashes and commas between them, evaluate to the flat list of all of them. The
machine holds the items read so far, in order, whatever it has put into lists
already. -/
namespace Stylesheet

/-- Values one after another, with at most one slash or comma between two. -/
inductive Item.Sequence : List Item → Prop where
  | last (v : Value) : Sequence [.value v]
  | beside (v : Value) {rest : List Item} (sequence : Sequence rest) : Sequence (.value v :: rest)
  | separated (v : Value) {op : Operator} {rest : List Item} (separator : op = .slash ∨ op = .comma)
      (sequence : Sequence rest) : Sequence (.value v :: .separator op :: rest)

/-- A value is written as the list of what it adds to a list. -/
theorem Value.css_eq_spread (v : Value) (precision : Int) (compressed : Bool) :
    v.css precision compressed = Item.cssFrom precision compressed [] false (Item.value v).spread := by
  cases v with
  | list items => rw [Value.css, Item.spread]
  | number q =>
    cases spelled : (Value.number q).css precision compressed <;>
      simp [Item.spread, Item.cssFrom, spelled, Item.gap, bind, Except.bind]
  | text text => simp [Item.spread, Item.cssFrom, Value.css, Item.gap, bind, Except.bind]
  | color c => simp [Item.spread, Item.cssFrom, Value.css, Item.gap, bind, Except.bind]

theorem Value.spread_of_single {v : Value} (single : v.isList = false) : (Item.value v).spread = [.value v] := by
  cases v with
  | list => cases single
  | _ => rfl

namespace Evaluate

/-- What entries of a machine, newest first, add to a list. -/
def spreadAll (values : List Item) : List Item := values.reverse.flatMap Item.spread

theorem spreadAll_cons (item : Item) (values : List Item) :
    spreadAll (item :: values) = spreadAll values ++ item.spread := by
  simp [spreadAll]

namespace Machine

/-- A machine that has read the items, a value last. A slash may be on hold. -/
inductive Ready : Machine → List Item → Prop where
  | settled {v : Value} (values : List Item) (plain : v.isComputed = false) :
      Ready ⟨.value v :: values, [], [], false⟩ (spreadAll (.value v :: values))
  | divided {l r : Value} (values : List Item) (offset : Option Int) (left : l.isComputed = false)
      (right : r.isComputed = false) :
      Ready ⟨.value r :: .value l :: values, [⟨.slash, offset⟩], [], false⟩
        (spreadAll (.value l :: values) ++ .separator .slash :: (Item.value r).spread)

inductive Awaiting : Machine → List Item → Prop where
  | settled (values : List Item) : Awaiting ⟨values, [], [], true⟩ (spreadAll values)
  | divided {l : Value} (values : List Item) (offset : Option Int) (left : l.isComputed = false) :
      Awaiting ⟨.value l :: values, [⟨.slash, offset⟩], [], true⟩
        (spreadAll (.value l :: values) ++ [.separator .slash])

variable {m : Machine} {items : List Item}

theorem awaiting_start : Awaiting .start [] := .settled []

/-- A value is taken in behind what was read, next to another value too. -/
theorem push_value (precision : Int) {v : Value} (single : v.isList = false) (plain : v.isComputed = false)
    (state : Awaiting m items ∨ Ready m items) :
    ∃ m', (m.push precision v).result = .ok m' ∧ Ready m' (items ++ [.value v]) := by
  have spread := v.spread_of_single single
  rcases state with awaiting | ready
  · cases awaiting with
    | settled values =>
      have read := Ready.settled values plain
      rw [spreadAll_cons, spread] at read
      exact ⟨_, rfl, read⟩
    | divided values offset left =>
      have read := Ready.divided values offset left plain
      rw [spread] at read
      refine ⟨_, rfl, ?_⟩
      rw [List.append_assoc]
      exact read
  · cases ready with
    | @settled w values _ =>
      have read := Ready.settled (v := (Item.value w).concat (.value v)) values rfl
      rw [spreadAll_cons] at read
      refine ⟨_, rfl, ?_⟩
      rw [spreadAll_cons, List.append_assoc, ← spread]
      exact read
    | @divided l r values offset left _ =>
      have read := Ready.divided (r := (Item.value r).concat (.value v)) values offset left rfl
      refine ⟨_, rfl, ?_⟩
      rw [List.append_assoc, List.cons_append, ← spread]
      exact read

/-- Between values that nothing computed a slash separates, and no item is lost when
it is applied. -/
theorem reduce_ready (precision : Int) {p : Operator → Bool} (slash : p .slash = true) (ready : Ready m items) :
    ∃ v values, (m.reduceWhile precision p).result = .ok ⟨.value v :: values, [], [], false⟩ ∧
      v.isComputed = false ∧ items = spreadAll (.value v :: values) := by
  cases ready with
  | @settled v values plain => exact ⟨v, values, rfl, plain, rfl⟩
  | @divided l r values offset left right =>
    have applied : Value.apply .slash l r false offset precision = .ok (l.separated .slash r) := by
      simp [Value.apply, left, right]
    refine ⟨l.separated .slash r, values, ?_, rfl, ?_⟩
    · have top : (applyTop precision false ⟨.slash, offset⟩ (.value r :: .value l :: values)).result =
          .ok (.value (l.separated .slash r) :: values) := by
        rw [applyTop, Traced.bind_of_ok (a := l.separated .slash r) applied]
        rfl
      have all : (applyWhile precision false p [⟨.slash, offset⟩] (.value r :: .value l :: values)).result =
          .ok ([], .value (l.separated .slash r) :: values) := by
        rw [applyWhile, if_pos slash, Traced.bind_of_ok top]
        rfl
      exact Traced.bind_of_ok all
    · rw [spreadAll_cons, spreadAll_cons]
      simp [Value.separated, Value.concat, Item.concat, Item.spread]

theorem operator_slash (precision : Int) (offset : Option Int) (ready : Ready m items) :
    ∃ m', (m.operator precision .slash offset).result = .ok m' ∧
      Awaiting m' (items ++ [.separator .slash]) := by
  have after : m.afterOperator = false := by cases ready <;> rfl
  obtain ⟨v, values, reduced, plain, rfl⟩ := reduce_ready precision (p := (·.appliesBefore .slash)) rfl ready
  refine ⟨_, ?_, .divided values offset plain⟩
  rw [operator, arithmetic, after]
  exact Traced.bind_of_ok reduced

theorem operator_comma (precision : Int) (offset : Option Int) (ready : Ready m items) :
    ∃ m', (m.operator precision .comma offset).result = .ok m' ∧
      Awaiting m' (items ++ [.separator .comma]) := by
  have after : m.afterOperator = false := by cases ready <;> rfl
  obtain ⟨v, values, reduced, -, rfl⟩ := reduce_ready precision (p := (· != .leftParen)) rfl ready
  have awaiting := Awaiting.settled (.separator .comma :: .value v :: values)
  rw [spreadAll_cons] at awaiting
  refine ⟨_, ?_, awaiting⟩
  rw [operator, comma, after]
  exact Traced.bind_of_ok reduced

/-- At the end the items are folded to a value that is written as their list. -/
theorem finish_ready (precision : Int) (offset : Option Int) (ready : Ready m items) :
    ∃ v, (m.finish precision offset).result = .ok v ∧
      ∀ places compressed, v.css places compressed = Item.cssFrom places compressed [] false items := by
  obtain ⟨v, values, reduced, -, rfl⟩ := reduce_ready precision (p := (· != .leftParen)) rfl ready
  have finished : (m.finish precision offset).result = fold offset (.value v :: values).reverse :=
    Traced.bind_of_ok reduced
  rw [finished]
  cases values with
  | nil => exact ⟨v, rfl, fun places compressed => by simp [spreadAll, ← v.css_eq_spread]⟩
  | cons item values =>
    refine ⟨.list (spreadAll (.value v :: item :: values)), ?_, fun _ _ => by rw [Value.css]⟩
    have many : ∀ entry, (.value v :: item :: values).reverse ≠ [entry] := by
      intro entry one
      simpa using congrArg List.length one
    unfold fold
    split
    · next empty => simp at empty
    · next one => exact absurd one (many _)
    · next one => exact absurd one (many _)
    · rfl

end Machine

def Stands (scope : Scope) (l : Lexeme) : Item → Prop
  | .separator op => l.token = .operator op ∧ (op = .slash ∨ op = .comma)
  | .value v => (∀ op, l.token ≠ .operator op) ∧ l.isComment = false ∧ lexemeValue scope l = .ok v ∧
      v.isList = false ∧ v.isComputed = false

variable {scope : Scope} {e : Expression} {items : List Item}

theorem Stands.plain {l : Lexeme} {item : Item} (stands : Stands scope l item) :
    l.isComment = false ∧ l.isOp .leftParen = false := by
  cases item with
  | separator op =>
    obtain ⟨token, separator⟩ := stands
    rcases separator with rfl | rfl <;> simp [Lexeme.isComment, Lexeme.isOp, token, Token.isComment]
  | value v =>
    obtain ⟨operand, comment, -⟩ := stands
    exact ⟨comment, by simpa [Lexeme.isOp] using operand .leftParen⟩

/-- What holds of every lexeme that stands for an item holds of all. -/
theorem forall_of_stands {P : Lexeme → Prop} (each : ∀ l item, Stands scope l item → P l)
    (stands : List.Forall₂ (Stands scope) e items) : ∀ l ∈ e, P l := by
  induction stands with
  | nil => simp
  | cons first _ ih => exact List.forall_mem_cons.mpr ⟨each _ _ first, ih⟩

/-- Without parentheses there are no calls. -/
theorem pieces_of_plain (plain : ∀ l ∈ e, l.isOp .leftParen = false) : pieces e = e.map .lexeme := by
  induction e with
  | nil => rw [pieces, List.map_nil]
  | cons l rest ih =>
    cases rest with
    | nil => rw [pieces]; rfl
    | cons paren rest =>
      have noCall : callName? l paren = none := by
        simp [callName?, plain paren (List.mem_cons_of_mem _ List.mem_cons_self)]
      rw [pieces, noCall, ih fun l member => plain l (List.mem_cons_of_mem _ member)]
      rfl

/-- A part of an expression adds an item to what was read: it pushes a value of its own,
or is a slash or comma. -/
def Adds (inner : List Lexeme → Traced Value) (scope : Scope) (part : Piece) : Item → Prop
  | .separator op => (∃ offset, part = .lexeme ⟨.operator op, offset⟩) ∧ (op = .slash ∨ op = .comma)
  | .value v => (∀ m, (step inner scope m part).result = (m.push scope.precision v).result) ∧
      v.isList = false ∧ v.isComputed = false

section

variable {inner : List Lexeme → Traced Value} {part : Piece} {parts : List Piece} {m : Machine} {before : List Item}

theorem Stands.adds {l : Lexeme} {item : Item} (stands : Stands scope l item) :
    Adds inner scope (.lexeme l) item := by
  obtain ⟨token, offset⟩ := l
  cases item with
  | separator op =>
    obtain ⟨rfl, separator⟩ := stands
    exact ⟨⟨offset, rfl⟩, separator⟩
  | value v =>
    obtain ⟨operand, -, value, plain⟩ := stands
    refine ⟨fun m => ?_, plain⟩
    rw [step]
    split
    · next op token => exact absurd token (operand op)
    · exact Traced.bind_of_ok (x := .silent (lexemeValue scope _)) value

theorem Adds.step_value {v : Value} (adds : Adds inner scope part (.value v))
    (state : m.Awaiting before ∨ m.Ready before) :
    ∃ m', (step inner scope m part).result = .ok m' ∧ m'.Ready (before ++ [.value v]) := by
  obtain ⟨pushes, single, plain⟩ := adds
  rw [pushes]
  exact Machine.push_value scope.precision single plain state

theorem Adds.step_separator {op : Operator} (adds : Adds inner scope part (.separator op)) (ready : m.Ready before) :
    ∃ m', (step inner scope m part).result = .ok m' ∧ m'.Awaiting (before ++ [.separator op]) := by
  obtain ⟨⟨offset, rfl⟩, rfl | rfl⟩ := adds
  · exact Machine.operator_slash _ offset ready
  · exact Machine.operator_comma _ offset ready

/-- One item after another is taken in. -/
theorem run_sequence (sequence : Item.Sequence items) (adds : List.Forall₂ (Adds inner scope) parts items)
    (state : m.Awaiting before ∨ m.Ready before) :
    ∃ m', (parts.foldlM (step inner scope) m).result = .ok m' ∧ m'.Ready (before ++ items) := by
  induction sequence generalizing parts m before with
  | last v =>
    obtain ⟨part, _, first, none, rfl⟩ := List.forall₂_cons_right_iff.mp adds
    obtain rfl := List.forall₂_nil_right_iff.mp none
    obtain ⟨m', ran, ready⟩ := first.step_value state
    exact ⟨m', Traced.bind_of_ok ran, ready⟩
  | beside v sequence ih =>
    obtain ⟨part, rest, first, others, rfl⟩ := List.forall₂_cons_right_iff.mp adds
    obtain ⟨m', ran, ready⟩ := first.step_value state
    obtain ⟨m'', ran', ready'⟩ := ih others (.inr ready)
    refine ⟨m'', (Traced.bind_of_ok ran).trans ran', ?_⟩
    rwa [List.append_assoc] at ready'
  | separated v separator sequence ih =>
    obtain ⟨part, _, first, others, rfl⟩ := List.forall₂_cons_right_iff.mp adds
    obtain ⟨part', rest, second, others', rfl⟩ := List.forall₂_cons_right_iff.mp others
    obtain ⟨m₁, ran₁, ready₁⟩ := first.step_value state
    obtain ⟨m₂, ran₂, awaiting⟩ := second.step_separator ready₁
    obtain ⟨m₃, ran₃, ready₃⟩ := ih others' (.inl awaiting)
    refine ⟨m₃, (Traced.bind_of_ok ran₁).trans ((Traced.bind_of_ok ran₂).trans ran₃), ?_⟩
    rwa [List.append_assoc, List.append_assoc] at ready₃

end

end Evaluate

theorem Item.Sequence.ne_nil {items : List Item} (sequence : Item.Sequence items) : items ≠ [] := by
  cases sequence <;> exact List.cons_ne_nil _ _

theorem Expression.withoutComments_of_none {ls : List Lexeme} (none : ∀ l ∈ ls, l.isComment = false) :
    Expression.withoutComments ls = ls := by
  rw [Expression.withoutComments, List.filter_eq_self]
  intro l member
  simp [none l member]

/-- Parts that add a sequence make up an expression whose value is written as the list of
its items. -/
theorem evaluate_parts {scope : Scope} {e : Expression} {items : List Item} (sequence : Item.Sequence items)
    (uncommented : ∀ l ∈ e, l.isComment = false)
    (adds : List.Forall₂ (Evaluate.Adds (evaluate scope) scope) (Evaluate.pieces e) items) :
    ∃ v, (evaluate scope e).result = .ok v ∧
      ∀ places compressed, v.css places compressed = Item.cssFrom places compressed [] false items := by
  obtain ⟨m, ran, ready⟩ := Evaluate.run_sequence sequence adds (.inl Evaluate.Machine.awaiting_start)
  cases e with
  | nil =>
    rw [Evaluate.pieces] at adds
    exact absurd (List.forall₂_nil_left_iff.mp adds) sequence.ne_nil
  | cons l rest =>
    obtain ⟨v, finished, css⟩ := Evaluate.Machine.finish_ready scope.precision l.offset ready
    refine ⟨v, ?_, css⟩
    rw [evaluate_eq_run, Evaluate.run, Expression.withoutComments_of_none uncommented]
    exact (Traced.bind_of_ok ran).trans finished

/-- The lexemes of a sequence evaluate to a value that is written as the list of its
items. -/
theorem evaluate_sequence {scope : Scope} {e : Expression} {items : List Item} (sequence : Item.Sequence items)
    (stands : List.Forall₂ (Evaluate.Stands scope) e items) :
    ∃ v, (evaluate scope e).result = .ok v ∧
      ∀ places compressed, v.css places compressed = Item.cssFrom places compressed [] false items := by
  have plain := Evaluate.forall_of_stands (fun _ _ => Evaluate.Stands.plain) stands
  refine evaluate_parts sequence (fun l member => (plain l member).1) ?_
  rw [Evaluate.pieces_of_plain fun l member => (plain l member).2, List.forall₂_map_left_iff]
  exact stands.imp fun _ _ => Evaluate.Stands.adds

end Stylesheet

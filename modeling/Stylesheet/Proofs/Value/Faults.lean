import Stylesheet.Proofs.Text.Hexadecimal
import Stylesheet.Proofs.Value.Nesting

/-! How evaluation fails: with a compile error, or with a number that has no integer
or decimal form since it is infinite or undefined. Every other failure is guarded
against: list operations find lists, the digits of a colour are digits, and only
arithmetic operators are applied. -/
namespace Stylesheet

def Failure.IsUnwritable : Failure → Prop
  | .number .overflow | .number .undefined => True
  | _ => False

/-- A compile error, or a number without a form. -/
def Failure.IsOrdinary : Failure → Prop
  | .error .. => True
  | failure => failure.IsUnwritable

namespace Binary64

def isFinite : Binary64 → Bool
  | .finite .. => true
  | _ => false

/-- A number is spelled where its rounding is finite, and only there, as long as the
places can be written at all. -/
theorem spell_ok_iff {x : Binary64} {places : Int} (within : places ≤ mostPlaces) :
    (∃ text, x.spell places = .ok text) ↔ (x.round places).isFinite = true := by
  unfold spell
  cases x.round places with
  | nan => simp [isFinite]
  | infinite negative => simp [isFinite]
  | finite negative units =>
    dsimp only
    rw [if_pos within]
    split <;> simp [isFinite]

theorem failsAs_spell {x : Binary64} {places : Int} (within : places ≤ mostPlaces) :
    FailsAs (fun fault => fault = .overflow ∨ fault = .undefined) (x.spell places) := by
  intro fault failed
  unfold spell at failed
  cases rounded : x.round places with
  | nan => simp_all
  | infinite negative => simp_all
  | finite negative units =>
    obtain ⟨text, spelled⟩ : ∃ text, x.spell places = .ok text := (spell_ok_iff within).mpr (by rw [rounded]; rfl)
    unfold spell at spelled
    rw [spelled] at failed
    cases failed

theorem failsAs_truncate (x : Binary64) :
    FailsAs (fun fault => fault = .overflow ∨ fault = .undefined) x.truncate := by
  cases x with
  | nan => exact failsAs_error (.inr rfl)
  | infinite => exact failsAs_error (.inl rfl)
  | finite => exact failsAs_ok _

theorem failsAs_nearestInteger (x : Binary64) :
    FailsAs (fun fault => fault = .overflow ∨ fault = .undefined) x.nearestInteger := by
  cases x with
  | nan => exact failsAs_error (.inr rfl)
  | infinite => exact failsAs_error (.inl rfl)
  | finite => exact failsAs_ok _

end Binary64

theorem Failure.isUnwritable_number {fault : Binary64.Fault} (h : fault = .overflow ∨ fault = .undefined) :
    (Failure.number fault).IsUnwritable := by
  rcases h with rfl | rfl <;> trivial

theorem Failure.IsUnwritable.isOrdinary {failure : Failure} (h : failure.IsUnwritable) : failure.IsOrdinary := by
  cases failure with
  | error => trivial
  | _ => exact h

abbrev Failure.AdmitsSpelling (P : Failure → Prop) (precision : Int) : Prop :=
  ∀ (x : Binary64) (fault : Binary64.Fault), x.spell precision = .error fault → P (.number fault)

/-- What evaluation and resolution report; they never apply what is no arithmetic
operator. -/
def Cause.isReported : Cause → Bool
  | .notArithmetic _ => false
  | cause => cause.stage == .evaluation || cause.stage == .resolution

/-- `P` is said of what evaluation is prepared to fail with: its compile errors at offsets
as `At` says, and numbers without a form. -/
structure Failure.Admits (P : Failure → Prop) (At : Option Int → Prop) (precision : Int) : Prop where
  error {cause : Cause} {offset : Option Int} : cause.isReported = true → At offset → P (.error cause offset)
  nowhere : At none
  spelled : AdmitsSpelling P precision
  shown : AdmitsSpelling P defaultPrecision
  converted {fault : Binary64.Fault} : fault = .overflow ∨ fault = .undefined → P (.number fault)

theorem defaultPrecision_le : defaultPrecision ≤ Binary64.mostPlaces := by decide

theorem Failure.admitsSpelling_isUnwritable {precision : Int} (within : precision ≤ Binary64.mostPlaces) :
    AdmitsSpelling IsUnwritable precision := by
  intro x fault failed
  exact isUnwritable_number (Binary64.failsAs_spell within fault failed)

theorem Failure.admits_isOrdinary {precision : Int} (within : precision ≤ Binary64.mostPlaces) :
    Admits IsOrdinary (fun _ => True) precision where
  error _ _ := trivial
  nowhere := trivial
  spelled x fault failed := (admitsSpelling_isUnwritable within x fault failed).isOrdinary
  shown x fault failed := (admitsSpelling_isUnwritable defaultPrecision_le x fault failed).isOrdinary
  converted fault := (isUnwritable_number fault).isOrdinary

section

variable {P : Failure → Prop} {precision : Int}

theorem Quantity.failsAs_css (q : Quantity) (spelled : Failure.AdmitsSpelling P precision) :
    FailsAs P (q.css precision) := by
  simp only [Quantity.css]
  split
  · exact failsAs_ok _
  · split
    · exact failsAs_ok _
    · next fault failed => exact failsAs_error (spelled _ fault failed)

mutual
theorem Value.failsAs_css (v : Value) (spelled : Failure.AdmitsSpelling P precision) (compressed : Bool) :
    FailsAs P (v.css precision compressed) := by
  cases v with
  | number q =>
    rw [Value.css]
    exact q.failsAs_css spelled
  | text text =>
    rw [Value.css]
    exact failsAs_ok _
  | color c =>
    rw [Value.css]
    exact failsAs_ok _
  | list items =>
    rw [Value.css]
    exact Item.failsAs_cssFrom items spelled compressed [] false

theorem Item.failsAs_cssFrom (items : List Item) (spelled : Failure.AdmitsSpelling P precision)
    (compressed : Bool) (out : Text) (afterSlash : Bool) :
    FailsAs P (Item.cssFrom precision compressed out afterSlash items) := by
  match items with
  | [] =>
    rw [Item.cssFrom]
    exact failsAs_ok _
  | .separator op :: rest =>
    rw [Item.cssFrom]
    exact Item.failsAs_cssFrom rest spelled compressed _ _
  | .value v :: rest =>
    rw [Item.cssFrom]
    exact (v.failsAs_css spelled compressed).bind fun text _ => Item.failsAs_cssFrom rest spelled compressed _ _
end

theorem Item.failsAs_spelled (item : Item) (spelled : Failure.AdmitsSpelling P precision) :
    FailsAs P (item.spelled precision) := by
  cases item with
  | value v => exact v.failsAs_css spelled false
  | separator op => exact failsAs_ok _

end

/-- A number can be spelled if it is as written or its rounding is finite. -/
def Quantity.spells (precision : Int) (q : Quantity) : Bool :=
  !q.computed && q.raw.isSome || (q.scalar.round precision).isFinite

mutual
def Value.spells (precision : Int) : Value → Bool
  | .number q => q.spells precision
  | .list items => Item.spellsAll precision items
  | .text _ | .color _ => true

def Item.spellsAll (precision : Int) : List Item → Bool
  | [] => true
  | .separator _ :: rest => Item.spellsAll precision rest
  | .value v :: rest => v.spells precision && Item.spellsAll precision rest
end

theorem Quantity.css_ok_iff (q : Quantity) {precision : Int} (within : precision ≤ Binary64.mostPlaces) :
    (∃ text, q.css precision = .ok text) ↔ q.spells precision = true := by
  obtain ⟨scalar, unit, computed, raw, factor⟩ := q
  have spelled := Binary64.spell_ok_iff (x := scalar) within
  cases computed <;> cases raw <;> cases text : scalar.spell precision <;>
    simp_all [Quantity.css, Quantity.spells]

mutual
/-- The css of a value fails exactly at numbers that cannot be spelled. -/
theorem Value.css_ok_iff (v : Value) {precision : Int} (within : precision ≤ Binary64.mostPlaces)
    (compressed : Bool) : (∃ text, v.css precision compressed = .ok text) ↔ v.spells precision = true := by
  cases v with
  | number q =>
    rw [Value.css, Value.spells]
    exact q.css_ok_iff within
  | text text => simp [Value.css, Value.spells]
  | color c => simp [Value.css, Value.spells]
  | list items =>
    rw [Value.css, Value.spells]
    exact Item.cssFrom_ok_iff items within compressed [] false

theorem Item.cssFrom_ok_iff (items : List Item) {precision : Int} (within : precision ≤ Binary64.mostPlaces)
    (compressed : Bool) (out : Text) (afterSlash : Bool) :
    (∃ text, Item.cssFrom precision compressed out afterSlash items = .ok text) ↔
      Item.spellsAll precision items = true := by
  match items with
  | [] => simp [Item.cssFrom, Item.spellsAll]
  | .separator op :: rest =>
    rw [Item.cssFrom, Item.spellsAll]
    exact Item.cssFrom_ok_iff rest within compressed _ _
  | .value v :: rest =>
    rw [Item.cssFrom, Item.spellsAll, Bool.and_eq_true, ← v.css_ok_iff within compressed]
    constructor
    · rintro ⟨text, h⟩
      obtain ⟨first, spelled, others⟩ := bind_eq_ok.mp h
      exact ⟨⟨first, spelled⟩, (Item.cssFrom_ok_iff rest within compressed _ _).mp ⟨text, others⟩⟩
    · rintro ⟨⟨first, spelled⟩, others⟩
      obtain ⟨text, others⟩ := (Item.cssFrom_ok_iff rest within compressed
        (out ++ Item.gap out afterSlash ++ first) false).mpr others
      exact ⟨text, bind_eq_ok.mpr ⟨first, spelled, others⟩⟩
end

section

variable {P : Failure → Prop} {At : Option Int → Prop} {precision : Int} (admits : Failure.Admits P At precision)

include admits

theorem Failure.Admits.failsAs_fail {cause : Cause} (own : cause.isReported = true) {offset : Option Int}
    (here : At offset) : FailsAs P (fail cause offset : Except Failure α) := failsAs_error (admits.error own here)

namespace Quantity

theorem failsAs_resultUnit (op : Operator) (left right : Quantity) {offset : Option Int} (here : At offset) :
    FailsAs P (resultUnit op left right offset) := by
  simp only [resultUnit]
  split
  · split
    · exact admits.failsAs_fail rfl here
    split
    · exact failsAs_ok _
    split
    · exact (left.failsAs_css admits.shown).bind fun _ _ => (right.failsAs_css admits.shown).bind fun _ _ =>
        admits.failsAs_fail rfl here
    · exact failsAs_ok _
  · exact failsAs_ok _

theorem failsAs_resultScalar (op : Operator) (a b : Binary64) : FailsAs P (resultScalar op a b) := by
  cases op with
  | plus | minus | star | slash => exact failsAs_ok _
  | _ =>
    simp only [resultScalar]
    split
    · exact failsAs_ok _
    · exact failsAs_error (admits.converted (.inr rfl))

theorem failsAs_combine (op : Operator) (left right : Quantity) {offset : Option Int} (here : At offset) :
    FailsAs P (combine op left right offset) := by
  refine (failsAs_resultUnit admits op left right here).bind fun unit _ => ?_
  split
  · exact (left.failsAs_css admits.shown).bind fun _ _ => admits.failsAs_fail rfl here
  · exact (failsAs_resultScalar admits _ _ _).bind fun _ _ => failsAs_ok _

theorem failsAs_divideAll (first : Quantity) (rest : List Quantity) : FailsAs P (divideAll first rest) :=
  failsAs_foldlM (fun q r => failsAs_combine admits .slash q r admits.nowhere) rest first

end Quantity

theorem Color.failsAs_combine (op : Operator) (c : Color) (red green blue : Int) {offset : Option Int}
    (here : At offset) : FailsAs P (combine op c red green blue offset) := by
  simp only [combine]
  split
  · exact admits.failsAs_fail rfl here
  · exact failsAs_ok _

namespace Value

theorem failsAs_collapsed (v : Value) : FailsAs P v.collapsed := by
  simp only [collapsed]
  split
  · exact (Quantity.failsAs_divideAll admits _ _).bind fun _ _ => failsAs_ok _
  · exact failsAs_ok _

/-- Gluing is for lists, and finds one. -/
theorem failsAs_glue (left right : Value) (some : left.isList = true ∨ right.isList = true) :
    FailsAs P (glue left right precision) := by
  simp only [glue]
  split
  · exact failsAs_ok _
  · exact failsAs_ok _
  · exact (left.failsAs_css admits.spelled false).bind fun _ _ =>
      (Item.failsAs_spelled _ admits.spelled).bind fun _ _ => failsAs_ok _
  · split
    · exact failsAs_ok _
    · exact (Item.failsAs_spelled _ admits.spelled).bind fun _ _ =>
        (right.failsAs_css admits.spelled false).bind fun _ _ => failsAs_ok _
  · next noList noItem noItems _ =>
    rcases some with isList | isList
    · cases left with
      | list ls => exact absurd rfl (noList ls)
      | _ => cases isList
    · cases right with
      | list rs =>
        cases rs with
        | nil => exact absurd rfl noItem
        | cons first rest => exact absurd rfl (noItems first rest)
      | _ => cases isList

theorem failsAs_combine (op : Operator) (left right : Value) {offset : Option Int} (here : At offset) :
    FailsAs P (combine op left right offset precision) := by
  simp only [combine]
  split
  · exact (Quantity.failsAs_combine admits _ _ _ here).bind fun _ _ => failsAs_ok _
  · next c q =>
    split
    · exact (Color.failsAs_combine admits _ _ _ _ _ here).bind fun _ _ => failsAs_ok _
    · next fault failed => exact failsAs_error (admits.converted (q.scalar.failsAs_truncate fault failed))
  · exact (Color.failsAs_combine admits _ _ _ _ _ here).bind fun _ _ => failsAs_ok _
  · exact failsAs_ok _
  · split
    · next joins => exact failsAs_glue admits _ _ joins.2
    split
    · exact (left.failsAs_css admits.spelled false).bind fun _ _ =>
        (right.failsAs_css admits.spelled false).bind fun _ _ => failsAs_ok _
    split
    · exact (left.failsAs_css admits.shown false).bind fun _ _ =>
        (right.failsAs_css admits.shown false).bind fun _ _ => admits.failsAs_fail rfl here
    · exact (left.failsAs_css admits.shown false).bind fun _ _ =>
        (right.failsAs_css admits.shown false).bind fun _ _ => admits.failsAs_fail rfl here

theorem failsAs_calculate {op : Operator} (arithmetic : op.isArithmetic = true) (left right : Value)
    {offset : Option Int} (here : At offset) : FailsAs P (calculate op left right offset precision) := by
  rw [calculate, if_pos arithmetic]
  exact (left.failsAs_collapsed admits).bind fun _ _ => (right.failsAs_collapsed admits).bind fun _ _ =>
    failsAs_combine admits _ _ _ here

theorem failsAs_apply {op : Operator} (arithmetic : op.isArithmetic = true) (left right : Value) (inParens : Bool)
    {offset : Option Int} (here : At offset) : FailsAs P (apply op left right inParens offset precision) := by
  have calculates := failsAs_calculate admits arithmetic left right here
  simp only [apply]
  repeat' split
  all_goals first
    | exact failsAs_ok _
    | exact calculates

end Value

/-- The digits behind `#` are digits of a colour. -/
theorem Color.failsAs_ofHex {raw : Text} (hex : Evaluate.isHexColor raw = true) {offset : Option Int}
    (here : At offset) : FailsAs P (ofHex raw offset) := by
  obtain ⟨digits, rfl, all⟩ := digits_of_isHexColor hex
  by_cases three : ∃ r g b, digits = [r, g, b]
  · obtain ⟨r, g, b, rfl⟩ := three
    rw [ofHex_three all]
    exact failsAs_ok _
  by_cases six : ∃ r r' g g' b b', digits = [r, r', g, g', b, b']
  · obtain ⟨r, r', g, g', b, b', rfl⟩ := six
    rw [ofHex_six all]
    exact failsAs_ok _
  · unfold ofHex
    rw [dropWhile_hash all]
    dsimp only
    split
    · exact absurd ⟨_, _, _, rfl⟩ three
    · exact absurd ⟨_, _, _, _, _, _, rfl⟩ six
    · exact failsAs_error (admits.error rfl here)

end

namespace Evaluate

section

variable {P : Failure → Prop} {At : Option Int → Prop} {scope : Scope} (admits : Failure.Admits P At scope.precision)

include admits

theorem failsAs_identValue (raw : Text) {offset : Option Int} (here : At offset) :
    FailsAs P (identValue scope raw offset) := by
  simp only [identValue]
  split
  · exact failsAs_ok _
  split
  · split
    · exact failsAs_ok _
    · exact failsAs_ok _
    · exact (Value.failsAs_css _ admits.spelled false).bind fun _ _ => failsAs_ok _
  · split
    · next hex => exact (Color.failsAs_ofHex admits hex here).bind fun _ _ => failsAs_ok _
    · exact failsAs_ok _

theorem failsAs_lexemeValue {l : Lexeme} (here : At l.offset) : FailsAs P (lexemeValue scope l) := by
  simp only [lexemeValue]
  split
  · exact failsAs_ok _
  · exact failsAs_ok _
  · exact failsAs_identValue admits _ here
  · exact admits.failsAs_fail rfl here

theorem failsAs_substitute (l : Lexeme) : FailsAs P (substitute scope l) := by
  simp only [substitute]
  split
  · exact Value.failsAs_css _ admits.spelled false
  · exact failsAs_ok _

theorem failsAs_substituteAfter (previous : Lexeme) (ls : List Lexeme) :
    FailsAs P (substituteAfter scope previous ls) := by
  induction ls generalizing previous with
  | nil => exact failsAs_ok _
  | cons l rest ih =>
    exact (failsAs_substitute admits l).bind fun _ _ => (ih l).bind fun _ _ => failsAs_ok _

theorem failsAs_substituteAll (ls : List Lexeme) : FailsAs P (substituteAll scope ls) := by
  cases ls with
  | nil => exact failsAs_ok _
  | cons l rest =>
    exact (failsAs_substitute admits l).bind fun _ _ =>
      (failsAs_substituteAfter admits l rest).bind fun _ _ => failsAs_ok _

theorem failsAs_channel (q : Quantity) : FailsAs P (channel q) := by
  simp only [channel]
  split
  · exact failsAs_ok _
  · next fault failed => exact failsAs_error (admits.converted (q.scalar.failsAs_nearestInteger fault failed))

theorem failsAs_callValue (name : Text) (values : List Value) : FailsAs P (callValue scope name values) := by
  simp only [callValue]
  split
  · exact (failsAs_channel admits _).bind fun _ _ => (failsAs_channel admits _).bind fun _ _ =>
      (failsAs_channel admits _).bind fun _ _ => failsAs_ok _
  · exact (Stylesheet.failsAs_mapM fun v _ => v.failsAs_css admits.spelled false).bind fun _ _ => failsAs_ok _

theorem failsAs_call {evaluate : List Lexeme → Traced Value}
    (inner : ∀ ls, (∀ l ∈ ls, At l.offset) → (evaluate ls).FailsAs P) (name : Text) {arguments : List Lexeme}
    (inside : ∀ l ∈ arguments, At l.offset) {offset : Option Int} (here : At offset) :
    (call evaluate scope name arguments offset).FailsAs P := by
  simp only [call]
  split
  · exact Traced.failsAs_fail (admits.error rfl here)
  split
  · exact Traced.FailsAs.bind (failsAs_substituteAll admits arguments) fun _ _ => Traced.failsAs_pure _
  · refine (Traced.failsAs_mapM fun group member => inner group fun l within => inside l ?_).bind fun values _ =>
      failsAs_callValue admits name values
    exact (Expression.sublist_of_mem_splitFrom (List.mem_filter.mp member).1).subset within

end

section

variable {P : Failure → Prop} {At : Option Int → Prop} {precision : Int} (admits : Failure.Admits P At precision)

include admits

theorem failsAs_applyTop (inParens : Bool) {op : Pending} (arithmetic : op.op.isArithmetic = true)
    (here : At op.offset) (values : List Item) : (applyTop precision inParens op values).FailsAs P := by
  simp only [applyTop]
  split
  · exact Traced.FailsAs.bind (Value.failsAs_apply admits arithmetic _ _ _ here) fun _ _ =>
      Traced.FailsAs.bind (failsAs_ok _) fun _ _ => Traced.failsAs_pure _
  · exact Traced.failsAs_fail (admits.error rfl here)

theorem ensures_applyWhile (inParens : Bool) {p : Operator → Bool} {operators : List Pending}
    (held : ∀ op ∈ operators, p op.op = true → op.op.isArithmetic = true ∧ At op.offset) (values : List Item) :
    Traced.Ensures P (fun result => result.1 ⊆ operators) (applyWhile precision inParens p operators values) := by
  induction operators generalizing values with
  | nil => exact Traced.ensures_pure (List.Subset.refl _)
  | cons op operators ih =>
    rw [List.forall_mem_cons] at held
    simp only [applyWhile]
    split
    · next applies =>
      obtain ⟨arithmetic, here⟩ := held.1 applies
      exact (failsAs_applyTop admits inParens arithmetic here values).then fun values =>
        (ih held.2 values).mono fun _ part => List.subset_cons_of_subset op part
    · exact Traced.ensures_pure (List.Subset.refl _)

namespace Machine

omit admits in
/-- Every operator on hold opens a group or is an arithmetic one, and came from where `At`
says. -/
def Placed (At : Option Int → Prop) (m : Machine) : Prop :=
  ∀ op ∈ m.operators, (op.op = .leftParen ∨ op.op.isArithmetic = true) ∧ At op.offset

variable {m : Machine} (held : m.Placed At)

include held

theorem ensures_reduceWhile {p : Operator → Bool} (noParen : p .leftParen = false) :
    Traced.Ensures P (Placed At) (m.reduceWhile precision p) := by
  refine (ensures_applyWhile admits _ ?_ _).bind fun _ part => Traced.ensures_pure fun op member => held op (part member)
  intro op member applies
  obtain ⟨opens | arithmetic, here⟩ := held op member
  · rw [opens, noParen] at applies
    cases applies
  · exact ⟨arithmetic, here⟩

theorem ensures_reduceToParen : Traced.Ensures P (Placed At) (m.reduceToParen precision) :=
  ensures_reduceWhile admits held rfl

theorem ensures_reduceIf (c : Prop) [Decidable c] :
    Traced.Ensures P (Placed At) (if c then m.reduceToParen precision else pure m : Traced Machine) := by
  split
  · exact ensures_reduceToParen admits held
  · exact Traced.ensures_pure held

theorem ensures_push (value : Value) : Traced.Ensures P (Placed At) (m.push precision value) := by
  simp only [push]
  split
  · exact Traced.ensures_pure held
  · rw [Traced.ite_bind]
    exact (ensures_reduceIf admits held _).bind fun _ reduced => Traced.ensures_pure reduced

omit held in
theorem failsAs_fold {offset : Option Int} (here : At offset) (entries : List Item) :
    FailsAs P (fold offset entries) := by
  simp only [fold]
  split
  · exact admits.failsAs_fail rfl here
  · exact failsAs_ok _
  · exact admits.failsAs_fail rfl here
  · exact failsAs_ok _

theorem ensures_openParen {offset : Option Int} (here : At offset) :
    Traced.Ensures P (Placed At) (m.openParen precision offset) := by
  simp only [openParen]
  rw [Traced.ite_bind]
  refine (ensures_reduceIf admits held _).bind fun _ reduced => Traced.ensures_pure ?_
  exact List.forall_mem_cons.mpr ⟨⟨.inl rfl, here⟩, reduced⟩

theorem ensures_closeParen {offset : Option Int} (here : At offset) :
    Traced.Ensures P (Placed At) (m.closeParen precision offset) := by
  simp only [closeParen]
  split
  · exact Traced.ensures_fail (admits.error rfl here)
  · refine (ensures_reduceToParen admits held).bind fun m reduced => ?_
    have shorter : ∀ op ∈ m.operators.tail, _ := fun op member => reduced op (List.mem_of_mem_tail member)
    split
    · exact (Traced.failsAs_pure (Value.list [])).then fun _ => Traced.ensures_pure shorter
    · exact Traced.FailsAs.then (failsAs_fold admits here _) fun _ => Traced.ensures_pure shorter

theorem ensures_comma {offset : Option Int} (here : At offset) :
    Traced.Ensures P (Placed At) (m.comma precision offset) := by
  simp only [comma]
  split
  · exact Traced.ensures_fail (admits.error rfl here)
  · exact (ensures_reduceToParen admits held).bind fun _ reduced => Traced.ensures_pure reduced

theorem ensures_hold {op : Operator} (arithmetic : op.isArithmetic = true) {offset : Option Int} (here : At offset) :
    Traced.Ensures P (Placed At) (m.hold precision op offset) :=
  (ensures_reduceWhile admits held rfl).bind fun _ reduced =>
    Traced.ensures_pure (List.forall_mem_cons.mpr ⟨⟨.inr arithmetic, here⟩, reduced⟩)

theorem ensures_arithmetic {op : Operator} (arithmetic : op.isArithmetic = true) {offset : Option Int}
    (here : At offset) : Traced.Ensures P (Placed At) (m.arithmetic precision op offset) := by
  simp only [Machine.arithmetic]
  split
  · exact ensures_hold admits held arithmetic here
  split
  · have signed : Placed At { m with values := .value (.number .minusOne) :: m.values } := held
    exact ensures_hold admits signed rfl here
  · exact Traced.ensures_fail (admits.error rfl here)

theorem ensures_operator (op : Operator) {offset : Option Int} (here : At offset) :
    Traced.Ensures P (Placed At) (m.operator precision op offset) := by
  cases op with
  | leftBrace | rightBrace | semicolon | colon => exact Traced.ensures_fail (admits.error rfl here)
  | leftParen => exact ensures_openParen admits held here
  | rightParen => exact ensures_closeParen admits held here
  | comma => exact ensures_comma admits held here
  | plus | minus | star | slash | percent => exact ensures_arithmetic admits held rfl here

theorem failsAs_finish {offset : Option Int} (here : At offset) : (m.finish precision offset).FailsAs P := by
  obtain ⟨fails, keeps⟩ := ensures_reduceToParen admits held
  refine fails.bind fun m ran => ?_
  split
  · next paren _ pending =>
    have opened : paren ∈ m.operators := pending ▸ List.mem_cons_self
    exact Traced.failsAs_fail (admits.error rfl (keeps m ran paren opened).2)
  · exact failsAs_fold admits here _

end Machine

end

section

variable {P : Failure → Prop} {At : Option Int → Prop} {scope : Scope} (admits : Failure.Admits P At scope.precision)

include admits

theorem ensures_step {evaluate : List Lexeme → Traced Value}
    (inner : ∀ ls, (∀ l ∈ ls, At l.offset) → (evaluate ls).FailsAs P) {m : Machine} (held : m.Placed At) {part : Piece}
    (drawn : part.Drawn fun l => At l.offset) : Traced.Ensures P (Machine.Placed At) (step evaluate scope m part) := by
  cases part with
  | call name arguments offset =>
    obtain ⟨inside, l, here, rfl⟩ := drawn
    exact (failsAs_call admits inner name inside here).then fun value => Machine.ensures_push admits held value
  | unclosed offset =>
    obtain ⟨l, here, rfl⟩ := drawn
    exact Traced.ensures_fail (admits.error rfl here)
  | lexeme l =>
    rw [step]
    split
    · exact Machine.ensures_operator admits held _ drawn
    · exact Traced.FailsAs.then (failsAs_lexemeValue admits drawn) fun value => Machine.ensures_push admits held value

theorem failsAs_run {evaluate : List Lexeme → Traced Value}
    (inner : ∀ ls, (∀ l ∈ ls, At l.offset) → (evaluate ls).FailsAs P) {e : Expression}
    (inside : ∀ l ∈ e, At l.offset) : (run evaluate scope e).FailsAs P := by
  simp only [run]
  split
  · exact Traced.failsAs_fail (admits.error rfl admits.nowhere)
  · next l rest uncommented =>
    have plain : ∀ l' ∈ l :: rest, At l'.offset := by
      intro l' member
      rw [← uncommented] at member
      exact inside l' (List.mem_filter.mp member).1
    have parts := pieces_drawn (P := fun l => At l.offset) plain
    have ran : Traced.Ensures P (Machine.Placed At) ((pieces (l :: rest)).foldlM (step evaluate scope) Machine.start) :=
      Traced.ensures_foldlM (fun m part member held => ensures_step admits inner held (parts part member))
        (by simp [Machine.Placed, Machine.start])
    exact ran.1.bind fun m last =>
      Machine.failsAs_finish admits (ran.2 m last) (plain l List.mem_cons_self)

theorem failsAs_upTo (depth : Nat) {e : Expression} (inside : ∀ l ∈ e, At l.offset) :
    (upTo scope depth e).FailsAs P := by
  induction depth generalizing e with
  | zero => exact Traced.failsAs_fail (admits.error rfl admits.nowhere)
  | succ depth ih => exact failsAs_run admits (fun _ => ih) inside

end

end Evaluate

/-- Evaluation fails where the lexemes of the expression stand. -/
theorem failsAs_evaluate_at {P : Failure → Prop} {At : Option Int → Prop} {scope : Scope}
    (admits : Failure.Admits P At scope.precision) {e : Expression} (inside : ∀ l ∈ e, At l.offset) :
    (evaluate scope e).FailsAs P := Evaluate.failsAs_upTo admits _ inside

theorem failsAs_evaluate {P : Failure → Prop} {scope : Scope}
    (admits : Failure.Admits P (fun _ => True) scope.precision) (e : Expression) : (evaluate scope e).FailsAs P :=
  failsAs_evaluate_at admits fun _ _ => trivial

end Stylesheet

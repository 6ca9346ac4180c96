import Stylesheet.Compile
import Stylesheet.Proofs.Lexeme.Cursor

/-! Calls that keep their arguments. The text of such a call is the spelling of the
arguments, lexeme by lexeme, with the css of its value in place of each reference to a bound
variable. A reference with a sign in front is one lexeme; evaluation resolves it, and such a
call leaves it as written. -/
namespace Stylesheet

namespace Lexeme

/-- The variable that a lexeme refers to, with or without a sign in front. -/
def referent? (l : Lexeme) : Option Text :=
  match l.token with
  | .ident ('$' :: name) => some ('$' :: name)
  | .ident ('-' :: '$' :: name) => some ('$' :: name)
  | _ => none

/-- A reference to a variable with a sign in front. -/
def IsSigned (l : Lexeme) : Prop := ∃ name, l.token = .ident ('-' :: '$' :: name)

def gap (previous l : Lexeme) : Text := if previous.touches l then [] else [' ']

/-- Texts for the lexemes of a row, with the gaps that stand between the lexemes. -/
def spaced (ls : List Lexeme) (texts : List Text) : Text :=
  (List.zipWith (· ++ ·) ([] :: List.zipWith gap ls ls.tail) texts).flatten

end Lexeme

namespace Evaluate

open Lexeme

/-- A lexeme as written, or the css of its value if it refers to a bound variable. -/
def resolved (scope : Scope) (l : Lexeme) : Except Failure Text :=
  if (l.referent?.bind scope.value?).isSome then do (← lexemeValue scope l).css scope.precision false
  else .ok l.raw

def IsPassThrough (name : Text) : Prop :=
  (∃ f ∈ passThroughFunctions, f.toList = Text.lower name) ∨ name.head? = some '-'

variable {scope : Scope} {l : Lexeme} {name : Text}

theorem substitute_of_isSigned (signed : l.IsSigned) : substitute scope l = .ok l.raw := by
  obtain ⟨name, token⟩ := signed
  have unreferenced : l.reference? = none := by
    simp [reference?, ident?, token, isVariableName]
  rw [substitute, unreferenced]
  rfl

theorem referent?_of_not_isSigned (unsigned : ¬l.IsSigned) : l.referent? = l.reference? := by
  unfold referent?
  split
  · next name token =>
    rw [reference?, ident?, token]
    rfl
  · next name token => exact (unsigned ⟨name, token⟩).elim
  · next unreferenced _ =>
    symm
    rw [reference?, Option.filter_eq_none_iff]
    intro raw isIdent isVariable
    obtain ⟨name, rfl⟩ : ∃ name, raw = '$' :: name := by
      simpa [isVariableName, List.head?_eq_some_iff] using isVariable
    exact unreferenced name (token_of_ident? isIdent)

theorem lexemeValue_of_reference? {value : Value} (refers : l.reference? = some name)
    (bound : scope.value? name = some value) : lexemeValue scope l = .ok value := by
  obtain ⟨isIdent, isVariable⟩ := Option.filter_eq_some_iff.mp refers
  rw [lexemeValue, token_of_ident? isIdent]
  simp [identValue, isVariable, bound]

theorem substitute_of_not_isSigned (unsigned : ¬l.IsSigned) : substitute scope l = resolved scope l := by
  rw [substitute, resolved, referent?_of_not_isSigned unsigned]
  cases found : l.reference?.bind scope.value? with
  | none => rfl
  | some value =>
    obtain ⟨name, refers, bound⟩ := Option.bind_eq_some_iff.mp found
    rw [lexemeValue_of_reference? refers bound]
    rfl

theorem substituteAfter_eq (previous : Lexeme) (ls : List Lexeme) :
    substituteAfter scope previous ls = (ls.mapM (substitute scope)).map fun texts =>
      (List.zipWith (· ++ ·) (List.zipWith gap (previous :: ls) ls) texts).flatten := by
  induction ls generalizing previous with
  | nil => rfl
  | cons l rest ih =>
    rw [substituteAfter, List.mapM_cons, ih]
    cases substitute scope l with
    | error => rfl
    | ok text =>
      cases rest.mapM (substitute scope) with
      | error => rfl
      | ok texts => simp [gap, pure, Except.pure, bind, Except.bind, Except.map]

theorem substituteAll_eq (ls : List Lexeme) :
    substituteAll scope ls = (ls.mapM (substitute scope)).map (spaced ls) := by
  cases ls with
  | nil => rfl
  | cons l rest =>
    rw [substituteAll, List.mapM_cons, substituteAfter_eq]
    cases substitute scope l with
    | error => rfl
    | ok text =>
      cases rest.mapM (substitute scope) with
      | error => rfl
      | ok texts => simp [spaced, pure, Except.pure, bind, Except.bind, Except.map]

theorem IsPassThrough.supported (passes : IsPassThrough name) :
    unsupportedFunctions.any (·.toList == Text.lower name) = false := by
  rw [List.any_eq_false]
  intro f refused same
  rw [beq_iff_eq] at same
  rcases passes with ⟨g, kept, same'⟩ | dash
  · have apart : ∀ f ∈ unsupportedFunctions, ∀ g ∈ passThroughFunctions, g.toList ≠ f.toList := by decide
    exact apart f refused g kept (same'.trans same.symm)
  · have letters : ∀ f ∈ unsupportedFunctions, f.toList.head? ≠ some '-' := by decide
    apply letters f refused
    rw [same, Text.lower, List.head?_map, dash]
    rfl

theorem call_of_isPassThrough (evaluate : List Lexeme → Traced Value) (scope : Scope) (passes : IsPassThrough name)
    (arguments : List Lexeme) (offset : Option Int) :
    (call evaluate scope name arguments offset).result =
      (arguments.mapM (substitute scope)).map fun texts => .text (spellCall name (spaced arguments texts)) := by
  have kept : (passThroughFunctions.any (·.toList == Text.lower name) || name.head? == some '-') = true := by
    simpa [IsPassThrough] using passes
  have spelled : (call evaluate scope name arguments offset).result =
      (substituteAll scope arguments).map fun text => .text (spellCall name text) := by
    rw [call]
    simp only [passes.supported, kept, if_true, Bool.false_eq_true, if_false, Traced.result_bind]
    cases substituteAll scope arguments <;> rfl
  rw [spelled, substituteAll_eq]
  cases arguments.mapM (substitute scope) <;> rfl

/-- The text of a call that keeps its arguments: their lexemes with the gaps between them,
each resolved, except that a reference with a sign stands as written. Where no such
reference is to a bound variable, every lexeme is resolved. -/
theorem call_substitutes (evaluate : List Lexeme → Traced Value) (scope : Scope) (passes : IsPassThrough name)
    (arguments : List Lexeme) (offset : Option Int) :
    (call evaluate scope name arguments offset).result =
        (arguments.mapM (substitute scope)).map (fun texts => .text (spellCall name (spaced arguments texts))) ∧
      (∀ l ∈ arguments, ¬l.IsSigned → substitute scope l = resolved scope l) ∧
      (∀ l ∈ arguments, l.IsSigned → substitute scope l = .ok l.raw) ∧
      ((∀ l ∈ arguments, l.IsSigned → l.referent?.bind scope.value? = none) →
        (call evaluate scope name arguments offset).result =
          (arguments.mapM (resolved scope)).map fun texts => .text (spellCall name (spaced arguments texts))) := by
  refine ⟨call_of_isPassThrough evaluate scope passes arguments offset, fun l _ => substitute_of_not_isSigned,
    fun l _ => substitute_of_isSigned, fun unbound => ?_⟩
  have same : arguments.mapM (substitute scope) = arguments.mapM (resolved scope) := by
    apply mapM_congr
    intro l member
    by_cases signed : l.IsSigned
    · rw [substitute_of_isSigned signed, resolved, unbound l member signed]
      rfl
    · exact substitute_of_not_isSigned signed
  rw [call_of_isPassThrough evaluate scope passes arguments offset, same]

def lengthScope : Scope :=
  (Scope.empty 5).setVariable "$x".toList (.number ⟨.ofDecimal false 2 0, some "px".toList, true, none, false⟩) false

def productArguments : List Lexeme :=
  [⟨.ident "$x".toList, some 5⟩, ⟨.operator .star, some 8⟩, ⟨.ident "var".toList, some 10⟩,
    ⟨.operator .leftParen, some 13⟩, ⟨.ident "--y".toList, some 14⟩, ⟨.operator .rightParen, some 17⟩]

theorem call_substitutes_product :
    IsPassThrough "calc".toList ∧
      (call (evaluate lengthScope) lengthScope "calc".toList productArguments none).result =
        .ok (.text "calc(2px * var(--y))".toList) := by
  have passes : IsPassThrough "calc".toList := .inl ⟨"calc", by decide, by decide⟩
  refine ⟨passes, (call_substitutes (evaluate lengthScope) lengthScope passes productArguments none).1.trans ?_⟩
  have texts : productArguments.mapM (substitute lengthScope) =
      .ok ["2px".toList, "*".toList, "var".toList, "(".toList, "--y".toList, ")".toList] :=
    eq_ok_of_toOption (by decide +kernel)
  rw [texts]
  rfl

/-- A signed reference to a bound variable has a value on its own, and stands as written in
a call that keeps its arguments. -/
theorem call_keeps_signed_reference :
    resolved lengthScope ⟨.ident "-$x".toList, some 5⟩ = .ok "-2px".toList ∧
      (call (evaluate lengthScope) lengthScope "calc".toList [⟨.ident "-$x".toList, some 5⟩] none).result =
        .ok (.text "calc(-$x)".toList) ∧
      (compile "$x: 2px; a \x7b b: calc(1px + -$x); c: -$x; \x7d".toList .expanded 5).result =
        .ok "a \x7b\n  b: calc(1px + -$x);\n  c: -2px;\n\x7d\n".toList := by
  refine ⟨eq_ok_of_toOption (by decide +kernel), ?_, eq_ok_of_toOption (by decide +kernel)⟩
  have passes : IsPassThrough "calc".toList := .inl ⟨"calc", by decide, by decide⟩
  rw [call_of_isPassThrough _ _ passes, mapM_cons_eq_ok.mpr ⟨_, _, substitute_of_isSigned ⟨"x".toList, rfl⟩, rfl, rfl⟩]
  rfl

end Evaluate

end Stylesheet

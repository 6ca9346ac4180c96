import Stylesheet.Lexeme.Scan
import Stylesheet.Proofs.Selector
import Stylesheet.Proofs.Value.Formula
import Stylesheet.Proofs.Value.Literal

/-! Values that evaluation leaves as they are written. A row of words, colours and calls,
side by side or with single slashes and commas between them, is written again as it was
spelled, with the gaps that go with its separators. Calls nest to any depth; each group of
their arguments is evaluated on its own and is a row again. -/
namespace Stylesheet

/-- A word that stands for itself in every scope: a string, a number as it was written, or
a name that is no variable, no variable with a sign, and no colour. -/
def Token.IsVerbatim : Token → Prop
  | .string raw => raw ≠ []
  | .number n => n.computed = false ∧ n.raw ≠ []
  | .ident raw => raw ≠ [] ∧ isVariableName raw = false ∧ ¬ ['-', '$'] <+: raw ∧ Evaluate.isHexColor raw = false
  | _ => False

instance : DecidablePred Token.IsVerbatim
  | .string raw => inferInstanceAs (Decidable (raw ≠ []))
  | .number _ => inferInstanceAs (Decidable (_ ∧ _))
  | .ident _ => inferInstanceAs (Decidable (_ ∧ _ ∧ _ ∧ _))
  | .comment _ | .operator _ | .other _ => inferInstanceAs (Decidable False)

/-- A function whose calls are written out with their arguments evaluated: it makes no
colour, is not refused, and does not take its arguments as they are. -/
structure IsPlainFunction (name : Text) : Prop where
  notColor : Text.lower name ≠ "rgb".toList
  noPrefix : (Text.lower name).head? ≠ some '-'
  evaluated : ∀ f ∈ Evaluate.passThroughFunctions, f.toList ≠ Text.lower name
  supported : ∀ f ∈ Evaluate.unsupportedFunctions, f.toList ≠ Text.lower name

theorem IsPlainFunction.head_ne {name : Text} (plain : IsPlainFunction name) : name.head? ≠ some '-' := by
  intro head
  apply plain.noPrefix
  rw [Text.lower, List.head?_map, head]
  rfl

namespace Plain

/-- The parts that a plain value is made of: single items, rows of them with or without
commas, and the groups that are the arguments of a call. -/
inductive Kind where
  | item
  | row (commas : Bool)
  | groups
  | arguments

end Plain

/-- A plain value, or a part of one, with the offsets of its lexemes. -/
inductive Plain : Plain.Kind → Type where
  | word (token : Token) (verbatim : token.IsVerbatim) (offset : Option Int) : Plain .item
  | color (digits : Text) (hex : digits.all Text.isHexDigit = true) (count : digits.length = 3 ∨ digits.length = 6)
      (offset : Option Int) : Plain .item
  | call (name : Text) (plain : IsPlainFunction name) (offset opened : Option Int)
      (touches : Lexeme.touches ⟨.ident name, offset⟩ ⟨.operator .leftParen, opened⟩ = true)
      (arguments : Plain .arguments) (closed : Option Int) : Plain .item
  | last {commas : Bool} (item : Plain .item) : Plain (.row commas)
  | beside {commas : Bool} (item : Plain .item) (rest : Plain (.row commas)) : Plain (.row commas)
  | separated {commas : Bool} (item : Plain .item) (op : Operator)
      (separator : op = .slash ∨ op = .comma ∧ commas = true) (offset : Option Int)
      (rest : Plain (.row commas)) : Plain (.row commas)
  | lastGroup (row : Plain (.row false)) : Plain .groups
  | group (row : Plain (.row false)) (offset : Option Int) (rest : Plain .groups) : Plain .groups
  | noGroups : Plain .arguments
  | given (groups : Plain .groups) : Plain .arguments

namespace Plain

def lexemes : {kind : Kind} → Plain kind → List Lexeme
  | _, .word token _ offset => [⟨token, offset⟩]
  | _, .color digits _ _ offset => [⟨.ident ('#' :: digits), offset⟩]
  | _, .call name _ offset opened _ arguments closed =>
    ⟨.ident name, offset⟩ :: ⟨.operator .leftParen, opened⟩ ::
      (arguments.lexemes ++ [⟨.operator .rightParen, closed⟩])
  | _, .last item => item.lexemes
  | _, .beside item rest => item.lexemes ++ rest.lexemes
  | _, .separated item op _ offset rest => item.lexemes ++ ⟨.operator op, offset⟩ :: rest.lexemes
  | _, .lastGroup row => row.lexemes
  | _, .group row offset rest => row.lexemes ++ ⟨.operator .comma, offset⟩ :: rest.lexemes
  | _, .noGroups => []
  | _, .given groups => groups.lexemes

/-- How a plain value is written: items as they are spelled, colours of six digits in
lower case, a space between items side by side and behind a comma. -/
def spelling : {kind : Kind} → Plain kind → Text
  | _, .word token _ _ => token.raw
  | _, .color digits _ _ _ => '#' :: if digits.length = 6 then digits.map Char.toLower else digits
  | _, .call name _ _ _ _ arguments _ => name ++ '(' :: (arguments.spelling ++ [')'])
  | _, .last item => item.spelling
  | _, .beside item rest => item.spelling ++ ' ' :: rest.spelling
  | _, .separated item op _ _ rest =>
    item.spelling ++ op.char :: ((if op = .slash then [] else [' ']) ++ rest.spelling)
  | _, .lastGroup row => row.spelling
  | _, .group row _ rest => row.spelling ++ ',' :: ' ' :: rest.spelling
  | _, .noGroups => []
  | _, .given groups => groups.spelling

end Plain

namespace Evaluate

/-- Lexemes that close the parentheses they open. Behind them the depth is as before, no
group around them ends among them, and inside one none of their commas is outside. -/
structure Balanced (ls : List Lexeme) : Prop where
  depth : ∀ depth, ls.foldl Lexeme.depthAfter depth = depth
  closes : ∀ depth rest, closeGroup depth (ls ++ rest) = (closeGroup depth rest).map fun ends => (ls ++ ends.1, ends.2)
  enclosed : ∀ depth, Expression.hasOutside .comma (depth + 1) ls = false

namespace Balanced

variable {ls more : List Lexeme}

theorem nil : Balanced [] := by
  refine ⟨fun _ => rfl, fun depth rest => ?_, fun _ => rfl⟩
  cases closed : closeGroup depth rest <;> simp [closed]

theorem single {l : Lexeme} (noOpen : l.isOp .leftParen = false) (noClose : l.isOp .rightParen = false) :
    Balanced [l] := by
  have stays (depth : Nat) : l.depthAfter depth = depth := by simp [Lexeme.depthAfter, noOpen, noClose]
  refine ⟨fun depth => stays depth, fun depth rest => ?_, fun depth => ?_⟩
  · rw [List.singleton_append, closeGroup, if_neg (by simp [noClose]), stays]
    rfl
  · simp [Expression.hasOutside]

theorem append (first : Balanced ls) (second : Balanced more) : Balanced (ls ++ more) := by
  refine ⟨fun depth => ?_, fun depth rest => ?_, fun depth => ?_⟩
  · rw [List.foldl_append, first.depth, second.depth]
  · rw [List.append_assoc, first.closes, second.closes, Option.map_map]
    congr 1
    funext ends
    simp
  · rw [Expression.hasOutside_append, first.enclosed, first.depth, second.enclosed, Bool.false_or]

theorem parens (inner : Balanced ls) (opened closed : Option Int) :
    Balanced (⟨.operator .leftParen, opened⟩ :: (ls ++ [⟨.operator .rightParen, closed⟩])) := by
  refine ⟨fun depth => ?_, fun depth rest => ?_, fun depth => ?_⟩
  · rw [List.foldl_cons, List.foldl_append, inner.depth]
    rfl
  · have closes : closeGroup (depth + 1) (⟨.operator .rightParen, closed⟩ :: rest) =
        (closeGroup depth rest).map fun ends => (⟨.operator .rightParen, closed⟩ :: ends.1, ends.2) := rfl
    rw [List.cons_append, List.append_assoc, List.singleton_append]
    have opens : closeGroup depth (⟨.operator .leftParen, opened⟩ :: (ls ++ ⟨.operator .rightParen, closed⟩ :: rest)) =
        (closeGroup (depth + 1) (ls ++ ⟨.operator .rightParen, closed⟩ :: rest)).map
          fun ends => (⟨.operator .leftParen, opened⟩ :: ends.1, ends.2) := by
      rw [closeGroup, if_neg (by simp [Lexeme.isOp])]
      rfl
    rw [opens, inner.closes, closes, Option.map_map, Option.map_map]
    congr 1
    funext ends
    simp
  · have deeper : Expression.hasOutside .comma (depth + 1 + 1) (ls ++ [⟨.operator .rightParen, closed⟩]) = false := by
      rw [Expression.hasOutside_append, inner.enclosed, inner.depth]
      rfl
    exact deeper

/-- A group ends with the parenthesis behind lexemes that are balanced. -/
theorem closeGroup_eq (balanced : Balanced ls) (closed : Option Int) (rest : List Lexeme) :
    closeGroup 0 (ls ++ ⟨.operator .rightParen, closed⟩ :: rest) = some (ls, rest) := by
  rw [balanced.closes]
  have ends : closeGroup 0 (⟨.operator .rightParen, closed⟩ :: rest) = some ([], rest) := rfl
  rw [ends, Option.map_some, List.append_nil]

end Balanced

def StartsApart (ls : List Lexeme) : Prop := ∃ l rest, ls = l :: rest ∧ l.isOp .leftParen = false

theorem StartsApart.append {ls : List Lexeme} (starts : StartsApart ls) (more : List Lexeme) :
    StartsApart (ls ++ more) := by
  obtain ⟨l, rest, rfl, apart⟩ := starts
  exact ⟨l, rest ++ more, rfl, apart⟩

end Evaluate

namespace Plain

open Evaluate

variable {kind : Kind}

theorem operand_of_isVerbatim {token : Token} (verbatim : token.IsVerbatim) (op : Operator) :
    token ≠ .operator op := by
  rintro rfl
  exact verbatim

theorem isComment_of_isVerbatim {token : Token} (verbatim : token.IsVerbatim) : token.isComment = false := by
  cases token <;> first | rfl | exact verbatim.elim

theorem balanced (x : Plain kind) : Balanced x.lexemes := by
  have operand {token : Token} {offset : Option Int} (none : ∀ op, token ≠ .operator op) :
      Balanced [⟨token, offset⟩] :=
    .single (by simp [Lexeme.isOp, none]) (by simp [Lexeme.isOp, none])
  induction x with
  | word token verbatim offset => exact operand (operand_of_isVerbatim verbatim)
  | color digits hex count offset => exact operand (by simp)
  | call name plain offset opened touches arguments closed ih =>
    exact (operand (by simp)).append (ih.parens opened closed)
  | last item ih => exact ih
  | beside item rest first second => exact first.append second
  | separated item op separator offset rest first second =>
    have between : Balanced [⟨.operator op, offset⟩] := by
      rcases separator with rfl | ⟨rfl, -⟩ <;> exact .single rfl rfl
    exact first.append (between.append second)
  | lastGroup row ih => exact ih
  | group row offset rest first second => exact first.append ((Balanced.single rfl rfl).append second)
  | noGroups => exact .nil
  | given groups ih => exact ih

theorem uncommented (x : Plain kind) : ∀ l ∈ x.lexemes, l.isComment = false := by
  induction x with
  | word token verbatim offset => simp [lexemes, Lexeme.isComment, isComment_of_isVerbatim verbatim]
  | color => simp [lexemes, Lexeme.isComment, Token.isComment]
  | call name plain offset opened touches arguments closed ih =>
    simp only [lexemes, List.forall_mem_cons, List.forall_mem_append]
    exact ⟨rfl, rfl, ih, rfl, by simp⟩
  | last item ih => exact ih
  | beside item rest first second => exact List.forall_mem_append.mpr ⟨first, second⟩
  | separated item op separator offset rest first second =>
    exact List.forall_mem_append.mpr ⟨first, List.forall_mem_cons.mpr ⟨rfl, second⟩⟩
  | lastGroup row ih => exact ih
  | group row offset rest first second =>
    exact List.forall_mem_append.mpr ⟨first, List.forall_mem_cons.mpr ⟨rfl, second⟩⟩
  | noGroups => simp [lexemes]
  | given groups ih => exact ih

def Kind.isCommaFree : Kind → Bool
  | .item => true
  | .row commas => !commas
  | .groups | .arguments => false

theorem hasOutside_lexemes (x : Plain kind) (free : kind.isCommaFree = true) :
    Expression.hasOutside .comma 0 x.lexemes = false := by
  induction x with
  | word token verbatim offset =>
    have operand := operand_of_isVerbatim verbatim
    simp [lexemes, Expression.hasOutside, Lexeme.isOp, operand]
  | color => simp [lexemes, Expression.hasOutside, Lexeme.isOp]
  | call name plain offset opened touches arguments closed =>
    have inside : Expression.hasOutside .comma 1 (arguments.lexemes ++ [⟨.operator .rightParen, closed⟩]) = false := by
      rw [Expression.hasOutside_append, arguments.balanced.enclosed, arguments.balanced.depth]
      rfl
    exact inside
  | last item ih => exact ih rfl
  | beside item rest first second =>
    rw [lexemes, Expression.hasOutside_append, first rfl, item.balanced.depth, second free, Bool.false_or]
  | separated item op separator offset rest first second =>
    rcases separator with rfl | ⟨rfl, commas⟩
    · rw [lexemes, Expression.hasOutside_append, first rfl, item.balanced.depth, Bool.false_or]
      exact second free
    · subst commas
      cases free
  | lastGroup | group | noGroups | given => cases free

/-- Whatever is not empty starts with a word or a name. -/
theorem startsApart (x : Plain kind) (notArguments : kind ≠ .arguments) : StartsApart x.lexemes := by
  induction x with
  | word token verbatim offset =>
    have operand := operand_of_isVerbatim verbatim
    exact ⟨_, _, rfl, by simp [Lexeme.isOp, operand]⟩
  | color | call => exact ⟨_, _, rfl, rfl⟩
  | last item ih => exact ih (by simp)
  | beside item rest ih | separated item op separator offset rest ih => exact (ih (by simp)).append _
  | lastGroup row ih => exact ih (by simp)
  | group row offset rest ih => exact (ih (by simp)).append _
  | noGroups | given => exact absurd rfl notArguments

end Plain

namespace Evaluate

variable {scope : Scope} {ls : List Lexeme} {text : Text}

/-- Before anything but a parenthesis the lexemes are these parts. -/
def SplitsInto (ls : List Lexeme) (parts : List Piece) : Prop :=
  ∀ rest : List Lexeme, (∀ l ∈ rest.head?, l.isOp .leftParen = false) → pieces (ls ++ rest) = parts ++ pieces rest

def AddsItem (scope : Scope) (ls : List Lexeme) (text : Text) : Prop :=
  ∃ part v, SplitsInto ls [part] ∧ Adds (evaluate scope) scope part (.value v) ∧
    ∀ precision, v.css precision false = .ok text

def AddsRow (scope : Scope) (ls : List Lexeme) (text : Text) : Prop :=
  ∃ parts items, SplitsInto ls parts ∧ Item.Sequence items ∧
    List.Forall₂ (Adds (evaluate scope) scope) parts items ∧ Item.Spells items text

/-- The groups have values that are written as the texts. Empty groups are left out. -/
def GivesTexts (scope : Scope) (groups : List (List Lexeme)) (texts : List Text) : Prop :=
  ∃ values, ((groups.filter (!·.isEmpty)).mapM (evaluate scope)).result = .ok values ∧
    ∀ precision, values.mapM (·.css precision false) = .ok texts

theorem AddsRow.evaluate (row : AddsRow scope ls text) (uncommented : ∀ l ∈ ls, l.isComment = false) :
    ∃ v, (evaluate scope ls).result = .ok v ∧ ∀ precision, v.css precision false = .ok text := by
  obtain ⟨parts, items, splits, sequence, adds, spells⟩ := row
  have whole := splits [] (by simp)
  rw [List.append_nil, pieces, List.append_nil] at whole
  obtain ⟨v, evaluated, css⟩ := evaluate_parts sequence uncommented (whole ▸ adds)
  refine ⟨v, evaluated, fun precision => ?_⟩
  rw [css, spells]
  rfl

theorem identValue_of_verbatim (scope : Scope) {raw : Text} (noVariable : isVariableName raw = false)
    (noSign : ¬ ['-', '$'] <+: raw) (noColor : isHexColor raw = false) (offset : Option Int) :
    identValue scope raw offset = .ok (.text raw) := by
  unfold identValue
  rw [if_neg (by simp [noVariable])]
  split
  · next name => exact absurd ⟨name, rfl⟩ noSign
  · rw [if_neg (by simp [noColor])]

/-- A lexeme that stands for a value is an item. -/
theorem addsItem_lexeme {l : Lexeme} {v : Value} (stands : Stands scope l (.value v))
    (css : ∀ precision, v.css precision false = .ok text) : AddsItem scope [l] text := by
  refine ⟨.lexeme l, v, fun rest apart => ?_, stands.adds, css⟩
  exact callsNothing_single l rest apart

theorem addsItem_word (scope : Scope) {token : Token} (verbatim : token.IsVerbatim) (offset : Option Int) :
    AddsItem scope [⟨token, offset⟩] token.raw := by
  have text (raw : Text) (precision : Int) : (Value.text raw).css precision false = .ok raw := by
    rw [Value.css]
  cases token with
  | string raw => exact addsItem_lexeme ⟨by simp, rfl, rfl, rfl, rfl⟩ (text raw)
  | ident raw =>
    obtain ⟨-, noVariable, noSign, noColor⟩ := verbatim
    have value := identValue_of_verbatim scope noVariable noSign noColor offset
    exact addsItem_lexeme ⟨by simp, rfl, value, rfl, rfl⟩ (text raw)
  | number n =>
    obtain ⟨written, -⟩ := verbatim
    refine addsItem_lexeme (v := .number ⟨n.value, n.unit, n.computed, some n.raw, false⟩)
      ⟨by simp, rfl, rfl, rfl, written⟩ fun precision => ?_
    rw [Value.css, Quantity.css, written]
    rfl
  | _ => exact verbatim.elim

theorem addsItem_color (scope : Scope) {digits : Text} (hex : digits.all Text.isHexDigit = true)
    (count : digits.length = 3 ∨ digits.length = 6) (offset : Option Int) :
    AddsItem scope [⟨.ident ('#' :: digits), offset⟩]
      ('#' :: if digits.length = 6 then digits.map Char.toLower else digits) := by
  have nonempty : digits ≠ [] := by
    rintro rfl
    simp at count
  have written {c : Color} {text : Text} (read : Color.ofHex ('#' :: digits) offset = .ok c)
      (plain : c.computed = false ∧ c.plain = text) : AddsItem scope [⟨.ident ('#' :: digits), offset⟩] text := by
    have value := identValue_hash scope hex nonempty offset
    rw [read] at value
    exact addsItem_lexeme ⟨by simp, rfl, value, rfl, plain.1⟩ fun precision => by rw [Value.css, plain.2]; rfl
  rcases count with three | six
  · obtain ⟨r, g, b, rfl⟩ := List.length_eq_three.mp three
    have read := Color.ofHex_three hex offset
    exact written read (Color.plain_three hex read)
  · match digits, six with
    | [r, r', g, g', b, b'], _ =>
      have read := Color.ofHex_six hex offset
      exact written read (Color.plain_six hex read)

/-- A call is written with the values of its groups. -/
theorem call_groups {name : Text} (plain : IsPlainFunction name) {texts : List Text}
    (groups : GivesTexts scope (Expression.split .comma ls) texts) (offset : Option Int) :
    (call (evaluate scope) scope name ls offset).result =
      .ok (.text (spellCall name (List.intercalate ", ".toList texts))) := by
  obtain ⟨values, evaluated, css⟩ := groups
  have supported : ¬ unsupportedFunctions.any (·.toList == Text.lower name) = true := by
    simpa using plain.supported
  have evaluates : ¬ (passThroughFunctions.any (·.toList == Text.lower name) || name.head? == some '-') = true := by
    simpa using ⟨plain.evaluated, plain.head_ne⟩
  simp only [call, if_neg supported, if_neg evaluates]
  rw [Traced.bind_of_ok evaluated]
  simp only [callValue, if_neg plain.notColor]
  rw [css]
  rfl

theorem pieces_call {l paren : Lexeme} {name : Text} {rest arguments after : List Lexeme}
    (called : callName? l paren = some name) (closed : closeGroup 0 rest = some (arguments, after)) :
    pieces (l :: paren :: rest) = .call name arguments l.offset :: pieces after := by
  rw [pieces, called]
  dsimp only
  split
  · next closes =>
    rw [closed] at closes
    cases closes
    rfl
  · next unclosed =>
    rw [closed] at unclosed
    cases unclosed

theorem addsItem_call {name : Text} (plain : IsPlainFunction name) {offset opened : Option Int}
    (touches : Lexeme.touches ⟨.ident name, offset⟩ ⟨.operator .leftParen, opened⟩ = true) (balanced : Balanced ls)
    {texts : List Text} (groups : GivesTexts scope (Expression.split .comma ls) texts) (closed : Option Int) :
    AddsItem scope
      (⟨.ident name, offset⟩ :: ⟨.operator .leftParen, opened⟩ :: (ls ++ [⟨.operator .rightParen, closed⟩]))
      (spellCall name (List.intercalate ", ".toList texts)) := by
  refine ⟨.call name ls offset, .text (spellCall name (List.intercalate ", ".toList texts)), fun rest _ => ?_,
    ⟨fun m => ?_, rfl, rfl⟩, fun precision => by rw [Value.css]⟩
  · have called : callName? ⟨.ident name, offset⟩ ⟨.operator .leftParen, opened⟩ = some name :=
      if_pos ⟨rfl, touches⟩
    simp only [List.cons_append, List.append_assoc, List.nil_append]
    exact pieces_call called (balanced.closeGroup_eq closed rest)
  · exact Traced.bind_of_ok (call_groups plain groups offset)

/-- An item alone is a row. -/
theorem AddsItem.row (item : AddsItem scope ls text) : AddsRow scope ls text := by
  obtain ⟨part, v, splits, adds, css⟩ := item
  exact ⟨[part], [.value v], splits, .last v, .cons adds .nil, .last css⟩

section

variable {more : List Lexeme} {rest : Text}

theorem SplitsInto.append {parts others : List Piece} (first : SplitsInto ls parts) (second : SplitsInto more others)
    (starts : StartsApart more) : SplitsInto (ls ++ more) (parts ++ others) := by
  obtain ⟨l, tail, rfl, apart⟩ := starts
  intro rest behind
  rw [List.append_assoc, first, second rest behind, List.append_assoc]
  intro l' here
  cases here
  exact apart

theorem AddsItem.beside (item : AddsItem scope ls text) (row : AddsRow scope more rest) (nonempty : text ≠ [])
    (starts : StartsApart more) : AddsRow scope (ls ++ more) (text ++ ' ' :: rest) := by
  obtain ⟨part, v, splits, adds, css⟩ := item
  obtain ⟨parts, items, splits', sequence, others, spells⟩ := row
  exact ⟨part :: parts, .value v :: items, splits.append splits' starts, .beside v sequence, .cons adds others,
    spells.beside css nonempty⟩

theorem AddsItem.separated (item : AddsItem scope ls text) (row : AddsRow scope more rest) {op : Operator}
    (separator : op = .slash ∨ op = .comma) (offset : Option Int) (starts : StartsApart more) :
    AddsRow scope (ls ++ ⟨.operator op, offset⟩ :: more)
      (text ++ op.char :: ((if op = .slash then [] else [' ']) ++ rest)) := by
  obtain ⟨part, v, splits, adds, css⟩ := item
  obtain ⟨parts, items, splits', sequence, others, spells⟩ := row
  have between : SplitsInto [⟨.operator op, offset⟩] [.lexeme ⟨.operator op, offset⟩] := callsNothing_single _
  have apart : StartsApart ([⟨.operator op, offset⟩] ++ more) :=
    ⟨_, more, rfl, by rcases separator with rfl | rfl <;> rfl⟩
  exact ⟨part :: .lexeme ⟨.operator op, offset⟩ :: parts, .value v :: .separator op :: items,
    splits.append (between.append splits' starts) apart, .separated v separator sequence,
    .cons adds (.cons ⟨⟨offset, rfl⟩, separator⟩ others), spells.separated css op⟩

theorem GivesTexts.cons {groups : List (List Lexeme)} {texts : List Text} {v : Value} (nonempty : ls ≠ [])
    (evaluated : (evaluate scope ls).result = .ok v) (css : ∀ precision, v.css precision false = .ok text)
    (gives : GivesTexts scope groups texts) : GivesTexts scope (ls :: groups) (text :: texts) := by
  obtain ⟨values, others, written⟩ := gives
  refine ⟨v :: values, ?_, fun precision => mapM_cons_eq_ok.mpr ⟨text, texts, css precision, written precision, rfl⟩⟩
  rw [List.filter_cons_of_pos (by simpa using nonempty), List.mapM_cons, Traced.bind_of_ok evaluated,
    Traced.bind_of_ok others]
  rfl

end

end Evaluate

namespace Plain

open Evaluate

variable {kind : Kind}

theorem spelling_ne_nil (x : Plain .item) : x.spelling ≠ [] := by
  cases x with
  | word token verbatim offset =>
    cases token with
    | string raw => exact verbatim
    | ident raw => exact verbatim.1
    | number n => exact verbatim.2
    | _ => exact verbatim.elim
  | color => exact List.cons_ne_nil _ _
  | call => simp [spelling]

def Reads (scope : Scope) (ls : List Lexeme) (text : Text) : Kind → Prop
  | .item => AddsItem scope ls text
  | .row _ => AddsRow scope ls text
  | .groups => ∃ first others, GivesTexts scope (Expression.split .comma ls) (first :: others) ∧
      List.intercalate ", ".toList (first :: others) = text
  | .arguments => ∃ texts, GivesTexts scope (Expression.split .comma ls) texts ∧
      List.intercalate ", ".toList texts = text

theorem reads (scope : Scope) (x : Plain kind) : Reads scope x.lexemes x.spelling kind := by
  have gives (row : Plain (.row false)) (ih : AddsRow scope row.lexemes row.spelling) {groups : List (List Lexeme)}
      {texts : List Text} (rest : GivesTexts scope groups texts) :
      GivesTexts scope (row.lexemes :: groups) (row.spelling :: texts) := by
    obtain ⟨v, evaluated, css⟩ := ih.evaluate row.uncommented
    obtain ⟨l, more, starts, -⟩ := row.startsApart (by simp)
    exact rest.cons (by simp [starts]) evaluated css
  induction x with
  | word token verbatim offset => exact addsItem_word scope verbatim offset
  | color digits hex count offset => exact addsItem_color scope hex count offset
  | call name plain offset opened touches arguments closed ih =>
    obtain ⟨texts, groups, spelled⟩ := ih
    have item := addsItem_call plain touches arguments.balanced groups closed
    have same : spellCall name arguments.spelling = name ++ '(' :: (arguments.spelling ++ [')']) := by simp [spellCall]
    rw [spelled, same] at item
    exact item
  | last item ih => exact AddsItem.row ih
  | beside item rest first second =>
    exact AddsItem.beside first second item.spelling_ne_nil (rest.startsApart (by simp))
  | separated item op separator offset rest first second =>
    exact AddsItem.separated first second (separator.imp_right And.left) offset (rest.startsApart (by simp))
  | lastGroup row ih =>
    have split : Expression.split .comma row.lexemes = [row.lexemes] :=
      Expression.splitFrom_of_none (row.hasOutside_lexemes rfl)
    refine ⟨row.spelling, [], ?_, by simp [spelling, List.intercalate]⟩
    rw [lexemes, split]
    exact gives row ih ⟨[], rfl, fun _ => rfl⟩
  | group row offset rest first second =>
    -- A row in a group has its commas inside calls, so the split is at the comma behind it.
    have split : Expression.split .comma (row.lexemes ++ ⟨.operator .comma, offset⟩ :: rest.lexemes) =
        row.lexemes :: Expression.split .comma rest.lexemes :=
      Expression.splitFrom_append .comma rfl (row.hasOutside_lexemes rfl) (row.balanced.depth 0) rest.lexemes
    obtain ⟨text, others, texts, spelled⟩ := second
    refine ⟨row.spelling, text :: others, ?_, ?_⟩
    · rw [lexemes, split]
      exact gives row first texts
    · rw [spelling, ← spelled]
      simp [List.intercalate]
  | noGroups => exact ⟨[], ⟨[], rfl, fun _ => rfl⟩, rfl⟩
  | given groups ih =>
    obtain ⟨first, others, gives, spelled⟩ := ih
    exact ⟨first :: others, gives, spelled⟩

end Plain

/-- A plain value passes through evaluation unchanged: in every scope it has a value, and
at every precision that is written as the plain value is spelled. -/
theorem evaluate_plain (scope : Scope) (x : Plain (.row true)) :
    ∃ v, (evaluate scope x.lexemes).result = .ok v ∧ ∀ precision, v.css precision false = .ok x.spelling :=
  Evaluate.AddsRow.evaluate (x.reads scope) x.uncommented

def Plain.nested : Plain (.row true) :=
  .separated (.word (.ident ['a']) (by decide) (some 0)) .slash (by decide) (some 1) <|
  .beside (.word (.ident ['b']) (by decide) (some 2)) <|
  .separated
    (.call ['f'] ⟨by decide, by decide, by decide, by decide⟩ (some 4) (some 5) rfl
      (.given <|
        .group (.beside (.word (.ident ['c']) (by decide) (some 6)) <|
          .last (.color ['F', 'F', 'F'] (by decide) (by decide) (some 8))) (some 12) <|
        .lastGroup <| .last <|
          .call ['g'] ⟨by decide, by decide, by decide, by decide⟩ (some 13) (some 14) rfl .noGroups (some 15))
      (some 16))
    .comma (by decide) (some 17) <|
  .last (.color ['A', 'B', 'C', 'D', 'E', 'F'] (by decide) (by decide) (some 18))

example : tokenize "a/b f(c #FFF,g()),#ABCDEF".toList = .ok Plain.nested.lexemes ∧
    Plain.nested.spelling = "a/b f(c #FFF, g()), #abcdef".toList := by
  decide +kernel

end Stylesheet

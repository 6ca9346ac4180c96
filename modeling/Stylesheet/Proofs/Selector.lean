import Stylesheet.Proofs.Lexeme.Groups
import Stylesheet.Proofs.Lexeme.Lexed
import Stylesheet.Proofs.Lexeme.Stream
import Stylesheet.Proofs.Text.Respacing

/-! Selectors as they are written and read. A selector in normal form that its own
lexemes spell is read back from any list of such selectors, whatever stands before the
list. -/
namespace Stylesheet

/-- The normal form of a selector is no longer than the selector. -/
theorem Selector.normalize_length (selector : Text) : (normalize selector).length ≤ selector.length :=
  (respaced_normalize selector).length_le

namespace Lexeme

variable (k : Nat) (l : Lexeme)

@[simp] theorem shift_token : (l.shift k).token = l.token := rfl

@[simp] theorem shift_raw : (l.shift k).raw = l.raw := rfl

theorem shift_depthAfter (depth : Nat) : (l.shift k).depthAfter depth = l.depthAfter depth := rfl

theorem touches_shift (next : Lexeme) : (l.shift k).touches (next.shift k) = l.touches next := by
  obtain ⟨token, offset⟩ := l
  obtain ⟨token', offset'⟩ := next
  cases offset with
  | none => rfl
  | some start =>
    cases offset' with
    | none => rfl
    | some start' =>
      simp only [touches, stop, shift, Option.map_some, raw]
      rw [Bool.eq_iff_iff, beq_iff_eq, beq_iff_eq]
      omega

end Lexeme

namespace Expression

theorem joinAfter_shift (k : Nat) (l : Lexeme) (ls : List Lexeme) :
    joinAfter (l.shift k) (ls.map (Lexeme.shift k)) = joinAfter l ls := by
  induction ls generalizing l with
  | nil => rfl
  | cons next ls ih => rw [List.map_cons, joinAfter, joinAfter, ih, Lexeme.touches_shift, Lexeme.shift_raw]

/-- Lexemes are spelled the same wherever they stand. -/
theorem join_shift (k : Nat) (ls : List Lexeme) : join (ls.map (Lexeme.shift k)) = join ls := by
  cases ls with
  | nil => rfl
  | cons l ls => rw [List.map_cons, join, join, joinAfter_shift, Lexeme.shift_raw]

theorem hasOutside_shift (op : Operator) (k depth : Nat) (ls : List Lexeme) :
    hasOutside op depth (ls.map (Lexeme.shift k)) = hasOutside op depth ls := by
  induction ls generalizing depth with
  | nil => rfl
  | cons l ls ih => rw [List.map_cons, hasOutside, hasOutside, ih, Lexeme.shift_depthAfter]; rfl

end Expression

/-- The selector is read as the lexemes: there is no comment, brace or semicolon among
them, what they open they close, no comma is outside parentheses, and spelled out they
have the selector as their normal form. -/
structure Selector.ReadsAs (selector : Text) (ls : List Lexeme) : Prop where
  tokens : tokenize selector = .ok ls
  plain : ∀ l ∈ ls, l.isComment = false ∧ l.boundary? = none
  closed : ls.foldl Lexeme.depthAfter 0 = 0
  single : Expression.hasOutside .comma 0 ls = false
  normal : Selector.normalize (Expression.join ls) = selector

structure Selector.Heads (ls : List Lexeme) (selectors : List Text) : Prop where
  plain : ∀ l ∈ ls, l.isComment = false ∧ l.boundary? = none
  closed : ls.foldl Lexeme.depthAfter 0 = 0
  groups : (Expression.split .comma ls).map (fun group => Selector.normalize (Expression.join group)) = selectors

namespace Selector

variable {selector : Text} {ls : List Lexeme}

/-- Only the empty selector has no lexemes. -/
theorem ReadsAs.eq_nil (reads : ReadsAs selector []) : selector = [] := by
  have short := normalize_length (Expression.join [])
  rw [reads.normal] at short
  exact List.length_eq_zero_iff.mp (Nat.le_zero.mp short)

/-- Nothing but its lexemes is in a selector: its normal form has no gap at the end. -/
theorem ReadsAs.lexed (reads : ReadsAs selector ls) (index : Nat) (more : Text) {c : Char}
    (follows : more.head? = some c) (stop : c = ' ' ∨ c = ',') :
    Lexed index selector more (ls.map (Lexeme.shift index)) := by
  obtain ⟨last, tiles⟩ := tokenize_eq_ok.mp reads.tokens
  have length := tiles.join_length
  have shorter := normalize_length (Expression.join ls)
  rw [reads.normal] at shorter
  obtain rfl : last = [] := List.length_eq_zero_iff.mp (by omega)
  have moved := tiles.shift index
  rw [Nat.zero_add] at moved
  refine moved.lexed more fun l _ => ?_
  rw [follows]
  rcases stop with rfl | rfl
  · exact l.token.endsBefore_of_stop rfl (by decide) fun _ => by decide
  · exact l.token.endsBefore_of_stop rfl (by decide) fun _ => by decide

theorem foldl_shift (k depth : Nat) (ls : List Lexeme) :
    (ls.map (Lexeme.shift k)).foldl Lexeme.depthAfter depth = ls.foldl Lexeme.depthAfter depth := by
  rw [List.foldl_map]
  rfl

theorem ReadsAs.plain_shift (reads : ReadsAs selector ls) (k : Nat) :
    ∀ l ∈ ls.map (Lexeme.shift k), l.isComment = false ∧ l.boundary? = none := by
  intro l member
  obtain ⟨l, inside, rfl⟩ := List.mem_map.mp member
  exact reads.plain l inside

theorem ReadsAs.heads (reads : ReadsAs selector ls) (k : Nat) :
    Heads (ls.map (Lexeme.shift k)) [selector] := by
  refine ⟨reads.plain_shift k, by rw [foldl_shift, reads.closed], ?_⟩
  have single := reads.single
  rw [← Expression.hasOutside_shift .comma k] at single
  rw [Expression.split, Expression.splitFrom_of_none single, List.map_singleton, Expression.join_shift, reads.normal]

theorem ReadsAs.heads_cons (reads : ReadsAs selector ls) (k : Nat) {comma : Lexeme}
    (isComma : comma.isOp .comma = true) {more : List Lexeme} {selectors : List Text}
    (others : Heads more selectors) :
    Heads (ls.map (Lexeme.shift k) ++ comma :: more) (selector :: selectors) := by
  have single := reads.single
  rw [← Expression.hasOutside_shift .comma k] at single
  have closed : (ls.map (Lexeme.shift k)).foldl Lexeme.depthAfter 0 = 0 := by rw [foldl_shift, reads.closed]
  have token := Lexeme.isOp_iff.mp isComma
  refine ⟨?_, ?_, ?_⟩
  · intro l member
    rcases List.mem_append.mp member with member | member
    · exact reads.plain_shift k l member
    · rcases List.mem_cons.mp member with rfl | member
      · simp [Lexeme.isComment, Token.isComment, Lexeme.boundary?, token]
      · exact others.plain l member
  · have flat : comma.depthAfter 0 = 0 := by simp [Lexeme.depthAfter, Lexeme.isOp, token]
    rw [List.foldl_append, closed, List.foldl_cons, flat, others.closed]
  · rw [Expression.split, Expression.splitFrom_append .comma isComma single closed, List.map_cons, Expression.join_shift,
      reads.normal]
    exact congrArg _ others.groups

/-- A list of selectors before a space is read as the head of a rule, which starts
with the lexemes of the first selector. -/
theorem heads_lexed {others : List Text} (reads : ReadsAs selector ls)
    (plain : ∀ s ∈ others, ∃ ls, ReadsAs s ls) (index : Nat) (rest : Text) :
    ∃ tail, Lexed index (List.intercalate [',', ' '] (selector :: others)) (' ' :: rest)
        (ls.map (Lexeme.shift index) ++ tail) ∧
      Heads (ls.map (Lexeme.shift index) ++ tail) (selector :: others) := by
  induction others generalizing selector ls index with
  | nil =>
    refine ⟨[], ?_, ?_⟩
    · rw [List.intercalate_singleton, List.append_nil]
      exact reads.lexed index _ rfl (.inl rfl)
    · rw [List.append_nil]
      exact reads.heads index
  | cons second others ih =>
    obtain ⟨ls', reads'⟩ := plain second List.mem_cons_self
    obtain ⟨tail, lexed, heads⟩ := ih reads' (fun s member => plain s (List.mem_cons_of_mem _ member))
      (index + selector.length + 1 + 1)
    obtain ⟨text, text_eq⟩ : ∃ text, text = List.intercalate [',', ' '] (second :: others) := ⟨_, rfl⟩
    rw [← text_eq] at lexed
    have first := reads.lexed index (',' :: ' ' :: text ++ ' ' :: rest) rfl (.inr rfl)
    have comma := (Token.isWhole_operator .comma).lexed (index + selector.length) (' ' :: text ++ ' ' :: rest) rfl
    have gap := lexed_space (c := ' ') rfl (index + selector.length + 1) (text ++ ' ' :: rest)
    have whole := first.append (comma.append (gap.append lexed))
    rw [List.intercalate_cons_cons, ← text_eq, List.append_assoc]
    exact ⟨_, whole, reads.heads_cons index rfl heads⟩

end Selector

end Stylesheet

import Stylesheet.Proofs.Lexeme.Stream
import Stylesheet.Proofs.Selector
import Stylesheet.Proofs.Statement.Continuation
import Stylesheet.Proofs.Value.Literal

/-! What a parser makes of the items it is about to read. Each lemma takes the lexemes
of one item at the front of the stream and says which statement the rounds go on with,
and that they go on behind those lexemes. -/
namespace Stylesheet

/-- What is left behind lexemes that are all in view. -/
theorem Cursor.stream_of_view {c : Cursor} (ls : List Lexeme) {more : List Lexeme}
    {rest : List (Except Failure Lexeme)} (left : c.stream = ls.map .ok ++ rest) (view : c.ahead = ls ++ more) :
    ({ c with ahead := more } : Cursor).stream = rest := by
  unfold stream at left ⊢
  rw [view, List.map_append, List.append_assoc] at left
  exact List.append_cancel_left left

namespace Parser

variable {p : Parser} {l : Lexeme} {rest : List (Except Failure Lexeme)} {blocks : List Block}
  {body : List Statement}

theorem take_of_stream (left : p.cursor.stream = .ok l :: rest) :
    ∃ p', take p = .ok (some l) p' ∧ p'.cursor.stream = rest ∧ p'.depth = p.depth := by
  obtain ⟨c, taken, stream⟩ := Cursor.next_of_stream left
  obtain ⟨p', ran, rfl, depth⟩ := reading_of taken
  exact ⟨p', ran, stream, depth⟩

theorem take_of_view {ahead : List Lexeme} (view : p.cursor.ahead = l :: ahead) :
    ∃ p', take p = .ok (some l) p' ∧ p'.cursor = { p.cursor with ahead } ∧ p'.depth = p.depth := by
  have taken : p.cursor.next = (.ok (some l), { p.cursor with ahead }) := by rw [Cursor.next, view]
  obtain ⟨p', ran, cursor, depth⟩ := reading_of taken
  exact ⟨p', ran, cursor, depth⟩

/-- A round reads the item of the next lexeme. -/
theorem round_of_stream (blocks : List Block) (body : List Statement) (left : p.cursor.stream = .ok l :: rest) :
    ∃ p', round true blocks body p = item true blocks body l p' ∧ p'.cursor.stream = p.cursor.stream ∧
      p'.depth = p.depth := by
  obtain ⟨c, seen, stream⟩ := Cursor.peek_of_stream left
  obtain ⟨p', ran, rfl, depth⟩ := reading_of seen
  exact ⟨p', bind_of_ok ran, stream.trans left.symm, depth⟩

theorem rounds_of_end (body : List Statement) (left : p.cursor.stream = []) :
    ∃ p', rounds true [] body p = .ok body p' := by
  obtain ⟨c, seen, -⟩ := Cursor.peek_of_end left
  obtain ⟨p', ran, -⟩ := reading_of seen
  have finished : round true [] body p = .ok (.finished body) p' := bind_of_ok ran
  refine ⟨p', ?_⟩
  rw [rounds]
  split
  · next failed => rw [finished] at failed; cases failed
  · next done => rw [finished] at done; cases done; rfl
  · next going => rw [finished] at going; cases going

/-- A comment is kept as it is. -/
theorem rounds_comment {raw : Text} (isComment : l.token = .comment raw) (left : p.cursor.stream = .ok l :: rest) :
    ∃ p', rounds true blocks body p = rounds true blocks (body ++ [.comment raw]) p' ∧
      p'.cursor.stream = rest ∧ p'.depth = p.depth := by
  obtain ⟨p₁, ran, stream, depth⟩ := round_of_stream blocks body left
  obtain ⟨p₂, switched, cursor, depth₂⟩ := switch_eq .comment p₁
  obtain ⟨p₃, taken, stream₃, depth₃⟩ := take_of_stream (p := p₂) (by rw [cursor, stream, left])
  refine ⟨p₃, rounds_of_reading (ran.trans ?_), stream₃, by rw [depth₃, depth₂, depth]⟩
  unfold item
  simp only [Lexeme.isOp, Lexeme.isComment, Lexeme.raw, isComment, Token.isComment, Token.raw]
  exact (bind_of_ok switched).trans (bind_of_ok taken)

/-- A closing brace ends the body of a rule. -/
theorem rounds_close (selectors : List Text) (depth : Nat) (before : List Statement) (blocks : List Block)
    (body : List Statement) (isClose : l.token = .operator .rightBrace) (left : p.cursor.stream = .ok l :: rest) :
    ∃ p', rounds true (⟨.rule selectors depth, before⟩ :: blocks) body p =
        rounds true blocks (before ++ [.rule selectors body depth]) p' ∧
      p'.cursor.stream = rest ∧ p'.depth = p.depth - 1 := by
  obtain ⟨p₁, ran, stream, depth₁⟩ := round_of_stream (⟨.rule selectors depth, before⟩ :: blocks) body left
  obtain ⟨p₂, taken, stream₂, depth₂⟩ := take_of_stream (stream.trans left)
  obtain ⟨p₃, switched, cursor, depth₃⟩ := switch_eq .selectors { p₂ with depth := p₂.depth - 1 }
  refine ⟨p₃, rounds_of_reading (ran.trans ?_), by rw [cursor, ← stream₂], ?_⟩
  · unfold item
    simp only [Lexeme.isOp, isClose]
    refine (bind_of_ok taken).trans (bind_of_ok (q := p₃) ?_)
    exact bind_of_ok (q := p₃) switched
  · rw [depth₃, ← depth₁, ← depth₂]

/-- What bounds nothing is no brace and no semicolon. -/
theorem isOp_of_boundary? {op : Operator} (none : l.boundary? = none)
    (bounds : op = .leftBrace ∨ op = .semicolon ∨ op = .rightBrace) : l.isOp op = false := by
  rw [Bool.eq_false_iff]
  intro isOp
  rw [Lexeme.boundary?, Lexeme.isOp_iff.mp isOp] at none
  simp [bounds] at none

theorem findBoundary_of_none {ls : List Lexeme} (none : ∀ l ∈ ls, l.boundary? = none) (depth : Nat) :
    Cursor.findBoundary depth ls = .inr (ls.foldl Lexeme.depthAfter depth) := by
  induction ls generalizing depth with
  | nil => rfl
  | cons l ls ih =>
    rw [List.foldl_cons, ← ih fun l member => none l (List.mem_cons_of_mem _ member)]
    rw [Cursor.findBoundary]
    simp [none l List.mem_cons_self]

theorem foldl_of_inert {ls : List Lexeme} (inert : ∀ l ∈ ls, l.Inert) {depth : Nat} :
    ls.foldl Lexeme.depthAfter depth = depth := by
  induction ls with
  | nil => rfl
  | cons l ls ih =>
    rw [List.foldl_cons, (inert l List.mem_cons_self).2.2, ih fun l member => inert l (List.mem_cons_of_mem _ member)]

/-- The head of a rule ends at the first opening brace in view. -/
theorem ruleHead_of_brace {ls more : List Lexeme} {brace : Lexeme} (isOpen : brace.isOp .leftBrace = true)
    (inside : ∀ l ∈ ls, l.isOp .leftBrace = false) (view : p.cursor.ahead = ls ++ brace :: more) :
    ∃ p', p'.cursor = { p.cursor with ahead := more } ∧ p'.depth = p.depth ∧
      ruleHead p = if [] ∈ selectorsOf ls then
          .error (.error .emptySelector (p.cursor.ahead.head?.bind (·.offset))) p'
        else .ok (selectorsOf ls) p' := by
  obtain ⟨p₁, cursor, depth, read⟩ := ruleHead_eq p
  have inside : ∀ l ∈ ls, (!l.isOp .leftBrace) = true := fun l member => by rw [inside l member]; rfl
  have head : p.cursor.ahead.takeWhile (!·.isOp .leftBrace) = ls := by
    rw [view, List.takeWhile_append_of_pos inside]
    simp [isOpen]
  have rest : (p.cursor.ahead.dropWhile (!·.isOp .leftBrace)).tail = more := by
    rw [view, List.dropWhile_append_of_pos inside]
    simp [isOpen]
  rw [head, rest] at read
  exact ⟨p₁.withView more, by rw [withView, cursor], depth, read⟩

/-- The head of a rule in view gives its selectors. -/
theorem ruleHead_of_view {ls more : List Lexeme} {brace : Lexeme} {selectors : List Text}
    (isOpen : brace.token = .operator .leftBrace) (heads : Selector.Heads ls selectors)
    (named : [] ∉ selectors) (view : p.cursor.ahead = ls ++ brace :: more) :
    ∃ p', ruleHead p = .ok selectors p' ∧ p'.cursor = { p.cursor with ahead := more } ∧ p'.depth = p.depth := by
  have inside : ∀ l ∈ ls, l.isOp .leftBrace = false := fun l member =>
    isOp_of_boundary? (heads.plain l member).2 (.inl rfl)
  have same : selectorsOf ls = selectors := by
    rw [selectorsOf, Expression.withoutComments_of_none fun l member => (heads.plain l member).1, heads.groups]
  obtain ⟨p', cursor, depth, read⟩ := ruleHead_of_brace (Lexeme.isOp_iff.mpr isOpen) inside view
  rw [same, if_neg named] at read
  exact ⟨p', read, cursor, depth⟩

/-- Selectors before an opening brace start a rule. -/
theorem rounds_open {ls : List Lexeme} {brace : Lexeme} {selectors : List Text}
    (isOpen : brace.token = .operator .leftBrace) (heads : Selector.Heads (l :: ls) selectors)
    (named : [] ∉ selectors) (noKeyword : isAtKeyword l.token = false)
    (left : p.cursor.stream = (l :: ls).map .ok ++ .ok brace :: rest) :
    ∃ p', rounds true blocks body p = rounds true (⟨.rule selectors p.depth, body⟩ :: blocks) [] p' ∧
      p'.cursor.stream = rest ∧ p'.depth = p.depth + 1 := by
  have inside := findBoundary_of_none (fun l member => (heads.plain l member).2) 0
  rw [heads.closed] at inside
  have bound : brace.boundary? = some .leftBrace := by simp [Lexeme.boundary?, isOpen]
  obtain ⟨p₁, ran, stream, depth₁⟩ := round_of_stream blocks body left
  obtain ⟨c, more, found, view, same⟩ := Cursor.boundary_of_stream (stream.trans left) inside bound
  obtain ⟨p₂, searched, rfl, depth₂⟩ := reading_of found
  obtain ⟨p₃, read, cursor, depth₃⟩ := ruleHead_of_view isOpen heads named view
  obtain ⟨comment, none⟩ := heads.plain l List.mem_cons_self
  refine ⟨{ p₃ with depth := p₃.depth + 1 }, rounds_of_reading (ran.trans ?_), ?_, ?_⟩
  · unfold item
    rw [isOp_of_boundary? none (.inr (.inl rfl)), isOp_of_boundary? none (.inr (.inr rfl)), comment, noKeyword]
    refine (bind_of_ok searched).trans ((bind_of_ok read).trans ?_)
    rw [← depth₁, ← depth₂, ← depth₃]
    rfl
  · change p₃.cursor.stream = rest
    rw [cursor]
    refine Cursor.stream_of_view (l :: ls ++ [brace]) ?_ ?_
    · rw [same, stream, left]
      simp
    · rw [view]
      simp
  · rw [← depth₁, ← depth₂, ← depth₃]

/-- A value in view is cut before its semicolon. -/
theorem cutValue_of_inert {e : List Lexeme} (more : List Lexeme) {semicolon : Lexeme}
    (isEnd : semicolon.token = .operator .semicolon) (inert : ∀ l ∈ e, l.Inert) :
    cutValue 0 (e ++ semicolon :: more) = some (e, more) := by
  induction e with
  | nil => simp [cutValue, Lexeme.isOp, isEnd]
  | cons l e ih =>
    obtain ⟨-, none, flat⟩ := inert l List.mem_cons_self
    rw [List.cons_append, cutValue, isOp_of_boundary? none (.inr (.inl rfl)),
      isOp_of_boundary? none (.inr (.inr rfl)), flat, ih fun l member => inert l (List.mem_cons_of_mem _ member)]
    rfl

theorem expect_of_view {op : Operator} (place : Place) {ahead : List Lexeme} (isOp : l.token = .operator op)
    (view : p.cursor.ahead = l :: ahead) :
    ∃ p', expect op place p = .ok () p' ∧ p'.cursor = { p.cursor with ahead } ∧ p'.depth = p.depth := by
  obtain ⟨p', taken, cursor, depth⟩ := take_of_view view
  refine ⟨p', (bind_of_ok taken).trans ?_, cursor, depth⟩
  simp only [Lexeme.isOp_iff.mpr isOp]
  rfl

/-- A property in view is read as one. -/
theorem declaration_of_view {name : Text} {colon semicolon : Lexeme} {e more : List Lexeme}
    (isName : l.token = .ident name) (isColon : colon.token = .operator .colon)
    (isEnd : semicolon.token = .operator .semicolon) (inert : ∀ l ∈ e, l.Inert) (nonempty : e ≠ [])
    (noVariable : isVariableName name = false)
    (view : p.cursor.ahead = l :: colon :: (e ++ semicolon :: more)) :
    ∃ p', declaration false p = .ok (.property name l.offset e) p' ∧
      p'.cursor = { p.cursor with ahead := more } ∧ p'.depth = p.depth := by
  obtain ⟨p₁, switched, cursor₁, depth₁⟩ := switch_eq .properties p
  rw [← cursor₁] at view
  obtain ⟨p₂, taken, cursor₂, depth₂⟩ := take_of_view view
  have view₂ : p₂.cursor.ahead = colon :: (e ++ semicolon :: more) := by rw [cursor₂]
  obtain ⟨p₃, passed, cursor₃, depth₃⟩ := expect_of_view (.afterName name) isColon view₂
  have view₃ : p₃.cursor.ahead = e ++ semicolon :: more := by rw [cursor₃]
  have cut := cutValue_of_inert more isEnd inert
  rw [← view₃] at cut
  have value := takeValue_of cut
  rw [Expression.withoutComments_of_none fun l member => (inert l member).1] at value
  refine ⟨p₃.withView more, ?_, ?_, by rw [withView, depth₃, depth₂, depth₁]⟩
  · refine (bind_of_ok switched).trans ((bind_of_ok taken).trans ?_)
    have ident : l.ident? = some name := by rw [Lexeme.ident?, isName]
    simp only [ident]
    refine (bind_of_ok passed).trans ((bind_of_ok value).trans ?_)
    simp only [noVariable, List.isEmpty_eq_false_iff.mpr nonempty]
    rfl
  · rw [withView, cursor₃, cursor₂, cursor₁]

/-- Inside a rule a property is read as one. -/
theorem rounds_property {block : Block} {name : Text} {colon semicolon : Lexeme} {e : List Lexeme}
    (isName : l.token = .ident name) (isColon : colon.token = .operator .colon)
    (isEnd : semicolon.token = .operator .semicolon) (inert : ∀ l ∈ e, l.Inert) (nonempty : e ≠ [])
    (noVariable : isVariableName name = false) (noKeyword : name.head? ≠ some '@')
    (left : p.cursor.stream = (l :: colon :: e).map .ok ++ .ok semicolon :: rest) :
    ∃ p', rounds true (block :: blocks) body p =
        rounds true (block :: blocks) (body ++ [.property name l.offset e]) p' ∧
      p'.cursor.stream = rest ∧ p'.depth = p.depth := by
  have plain : ∀ m ∈ l :: colon :: e, m.Inert := by
    have first : l.Inert :=
      Lexeme.inert_operand (by simp [isName]) (by simp [Lexeme.isComment, isName, Token.isComment])
    have second : colon.Inert := Lexeme.inert_separator isColon (.inr (.inr rfl))
    exact List.forall_mem_cons.mpr ⟨first, List.forall_mem_cons.mpr ⟨second, inert⟩⟩
  have inside := findBoundary_of_none (fun m member => (plain m member).2.1) 0
  rw [foldl_of_inert plain] at inside
  have bound : semicolon.boundary? = some .semicolon := by simp [Lexeme.boundary?, isEnd]
  obtain ⟨p₁, ran, stream, depth₁⟩ := round_of_stream (block :: blocks) body left
  obtain ⟨c, more, found, view, same⟩ := Cursor.boundary_of_stream (stream.trans left) inside bound
  obtain ⟨p₂, searched, rfl, depth₂⟩ := reading_of found
  obtain ⟨p₃, read, cursor, depth₃⟩ := declaration_of_view isName isColon isEnd inert nonempty noVariable view
  obtain ⟨comment, none, -⟩ := plain l List.mem_cons_self
  refine ⟨p₃, rounds_of_reading (ran.trans ?_), ?_, by rw [depth₃, depth₂, depth₁]⟩
  · have noKeyword : isAtKeyword l.token = false := by simpa [isAtKeyword, isName] using noKeyword
    unfold item
    rw [isOp_of_boundary? none (.inr (.inl rfl)), isOp_of_boundary? none (.inr (.inr rfl)), comment, noKeyword]
    exact (bind_of_ok searched).trans (bind_of_ok read)
  · rw [cursor]
    refine Cursor.stream_of_view (l :: colon :: e ++ [semicolon]) ?_ ?_
    · rw [same, stream, left]
      simp
    · rw [view]
      simp

end Parser

end Stylesheet

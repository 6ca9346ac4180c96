import Stylesheet.Node.Flatten
import Stylesheet.Node.Render
import Stylesheet.Node.Resolve
import Stylesheet.Proofs.Statement.Reading

/-! Plain nodes: comments, and rules of properties and comments in which nothing is
left to evaluate. What they are written as in the expanded style is read as statements
that resolve to nodes written the same way. -/
namespace Stylesheet

namespace Node

/-- A comment, or a property with a plain value, each of whose parts is a token of its
own. -/
def IsPlainDeclaration : Node → Prop
  | .property name _ value =>
    (Token.ident name).IsWhole ∧ name.head? ≠ some '$' ∧ name.head? ≠ some '@' ∧ value.IsPlain
  | .comment text => (Token.comment text).IsWhole
  | .rule .. => False

/-- A comment, or a rule of plain declarations under selectors in normal form, the
first of which does not start like an at-rule. -/
def IsPlain : Node → Prop
  | .rule selectors children _ =>
    (∀ s ∈ selectors, ∃ ls, Selector.ReadsAs s ls) ∧
      (∀ s ls l, selectors.head? = some s → tokenize s = .ok ls → ls.head? = some l → l.raw.head? ≠ some '@') ∧
      children ≠ [] ∧ ∀ n ∈ children, n.IsPlainDeclaration
  | .comment text => (Token.comment text).IsWhole
  | .property .. => False

def IsNamed : Node → Prop
  | .rule selectors _ _ => selectors ≠ [] ∧ [] ∉ selectors
  | _ => True

end Node

/-- Inside a rule the statement resolves to a declaration that is written as the
line. -/
def Statement.ResolvesTo (precision : Int) (s : Statement) (line : Text) : Prop :=
  ∀ expand scope, scope.Unbound → ∃ n, (Resolve.statement expand scope true s).result = .ok ([n], scope) ∧
    n.isDeclaration = true ∧ ∀ depth, Render.declaration .expanded precision depth n = .ok line

/-- The declaration is written as the line, from which a statement that resolves to
that line again is read. -/
structure Node.LineReadBack (precision : Int) (n : Node) (line : Text) : Prop where
  written : ∀ depth, Render.declaration .expanded precision depth n = .ok line
  nonempty : line ≠ []
  read : ∀ (p : Parser) (block : Parser.Block) (blocks : List Parser.Block) (body : List Statement) (more : Text),
    p.cursor.Before (line ++ '\n' :: more) → ∃ s p',
      Parser.rounds true (block :: blocks) body p = Parser.rounds true (block :: blocks) (body ++ [s]) p' ∧
        p'.cursor.Before ('\n' :: more) ∧ p'.depth = p.depth ∧ s.ResolvesTo precision line

namespace Node

variable {precision : Int}

theorem comment_readBack {text : Text} (whole : (Token.comment text).IsWhole) :
    LineReadBack precision (.comment text) (' ' :: ' ' :: text) := by
  refine ⟨fun depth => rfl, List.cons_ne_nil _ _, fun p block blocks body more before => ?_⟩
  obtain ⟨index, stream⟩ := (before.of_space rfl).of_space rfl
  have left := Cursor.Before.stream_eq (whole.lexed index ('\n' :: more) rfl) stream
  obtain ⟨p', ran, behind, depth⟩ := Parser.rounds_comment rfl left
  refine ⟨_, p', ran, ⟨_, behind⟩, depth, fun expand scope _ => ?_⟩
  exact ⟨.comment text, by rw [Resolve.statement]; rfl, rfl, fun _ => rfl⟩

/-- The line of a property without its indentation, piece by piece. -/
theorem lexed_declaration {name text more : Text} {index : Nat} {e : List Lexeme}
    (whole : (Token.ident name).IsWhole)
    (lexed : Lexed (index + name.length + 1 + 1) text ([';'] ++ '\n' :: more) e) :
    Lexed index (name ++ (':' :: ' ' :: (text ++ [';']))) ('\n' :: more)
      (⟨.ident name, some (index : Int)⟩ :: ⟨.operator .colon, some ((index + name.length : Nat) : Int)⟩ ::
        (e ++ [⟨.operator .semicolon, some ((index + name.length + 1 + 1 + text.length : Nat) : Int)⟩])) := by
  have ends : (Token.ident name).endsBefore (some ':') = true :=
    Token.endsBefore_of_isWord rfl rfl (by decide)
  have first := whole.lexed index (':' :: ' ' :: (text ++ [';']) ++ '\n' :: more) ends
  have colon := (Token.isWhole_operator .colon).lexed (index + name.length)
    (' ' :: (text ++ [';']) ++ '\n' :: more) rfl
  have gap := lexed_space (c := ' ') rfl (index + name.length + 1) (text ++ [';'] ++ '\n' :: more)
  have semicolon := (Token.isWhole_operator .semicolon).lexed (index + name.length + 1 + 1 + text.length)
    ('\n' :: more) rfl
  exact first.append (colon.append (gap.append (lexed.append semicolon)))

theorem property_readBack {name : Text} {offset : Option Int} {value : Value}
    (plain : IsPlainDeclaration (.property name offset value)) :
    ∃ line, LineReadBack precision (.property name offset value) line := by
  obtain ⟨whole, noVariable, noKeyword, plain⟩ := plain
  obtain ⟨text, css, readBack⟩ := plain.readBack
  have written (offset : Option Int) {v : Value} (same : v.css precision false = .ok text) (depth : Nat) :
      Render.declaration .expanded precision depth (.property name offset v) =
        .ok (' ' :: ' ' :: (name ++ (':' :: ' ' :: (text ++ [';'])))) := by
    change (v.css precision false >>= _) = _
    rw [same]
    simp [bind, Except.bind, pure, Except.pure, Style.property, Style.indent]
  refine ⟨_, written offset (css precision), List.cons_ne_nil _ _, fun p block blocks body more before => ?_⟩
  obtain ⟨index, stream⟩ := (before.of_space rfl).of_space rfl
  obtain ⟨e, lexed, nonempty, inert, evaluates⟩ := readBack (index + name.length + 1 + 1) ('\n' :: more)
  have left := Cursor.Before.stream_eq (lexed_declaration whole lexed) stream
  rw [List.map_cons, List.map_cons, List.map_append, List.cons_append, List.cons_append, List.append_assoc] at left
  have noName : isVariableName name = false := by simpa [isVariableName] using noVariable
  obtain ⟨p', ran, behind, depth⟩ := Parser.rounds_property rfl rfl rfl inert nonempty noName noKeyword left
  refine ⟨_, p', ran, ⟨_, behind⟩, depth, fun expand scope unbound => ?_⟩
  obtain ⟨v, evaluated, same⟩ := evaluates scope unbound
  refine ⟨.property name (some (index : Int)) v, ?_, rfl, written _ (same precision)⟩
  rw [Resolve.statement, if_pos rfl, Traced.bind_of_ok evaluated]
  rfl

/-- Inside a rule the statements resolve to declarations that are written as the
lines. -/
def BodyResolvesTo (precision : Int) (ss : List Statement) (lines : List Text) : Prop :=
  ∀ expand scope, scope.Unbound → ∃ ns, (Resolve.statements expand scope true ss).result = .ok (ns, scope) ∧
    (∀ n ∈ ns, n.isDeclaration = true) ∧ ∀ depth, ns.mapM (Render.declaration .expanded precision depth) = .ok lines

structure BodyReadBack (precision : Int) (ns : List Node) (lines : List Text) : Prop where
  written : ∀ depth, ns.mapM (Render.declaration .expanded precision depth) = .ok lines
  nonempty : ∀ line ∈ lines, line ≠ []
  read : ∀ (p : Parser) (block : Parser.Block) (blocks : List Parser.Block) (body : List Statement) (more : Text),
    p.cursor.Before (lines.flatMap ('\n' :: ·) ++ '\n' :: more) → ∃ ss p',
      Parser.rounds true (block :: blocks) body p = Parser.rounds true (block :: blocks) (body ++ ss) p' ∧
        p'.cursor.Before ('\n' :: more) ∧ p'.depth = p.depth ∧ BodyResolvesTo precision ss lines

theorem bodyReadBack_nil : BodyReadBack precision [] [] := by
  refine ⟨fun _ => rfl, by simp, fun p block blocks body more before => ?_⟩
  refine ⟨[], p, by rw [List.append_nil], before, rfl, fun expand scope _ => ?_⟩
  exact ⟨[], by rw [Resolve.statements]; rfl, by simp, fun _ => rfl⟩

theorem BodyResolvesTo.cons {s : Statement} {ss : List Statement} {line : Text} {lines : List Text}
    (first : s.ResolvesTo precision line) (others : BodyResolvesTo precision ss lines) :
    BodyResolvesTo precision (s :: ss) (line :: lines) := by
  intro expand scope unbound
  obtain ⟨n, resolved, declaration, written⟩ := first expand scope unbound
  obtain ⟨ns, resolvedAll, declarations, writtenAll⟩ := others expand scope unbound
  refine ⟨n :: ns, ?_, List.forall_mem_cons.mpr ⟨declaration, declarations⟩, fun depth => ?_⟩
  · rw [Resolve.statements, Traced.bind_of_ok resolved, Traced.bind_of_ok resolvedAll]
    rfl
  · exact mapM_cons_eq_ok.mpr ⟨line, lines, written depth, writtenAll depth, rfl⟩

theorem BodyReadBack.cons {n : Node} {ns : List Node} {line : Text} {lines : List Text}
    (first : LineReadBack precision n line) (others : BodyReadBack precision ns lines) :
    BodyReadBack precision (n :: ns) (line :: lines) := by
  refine ⟨fun depth => ?_, List.forall_mem_cons.mpr ⟨first.nonempty, others.nonempty⟩, ?_⟩
  · exact mapM_cons_eq_ok.mpr ⟨line, lines, first.written depth, others.written depth, rfl⟩
  · intro p block blocks body more before
    -- The line break before the first line is skipped; one behind it follows in any case.
    obtain ⟨rest, rest_eq⟩ : ∃ rest, lines.flatMap ('\n' :: ·) ++ '\n' :: more = '\n' :: rest := by
      cases lines with
      | nil => exact ⟨more, rfl⟩
      | cons line lines => exact ⟨line ++ (lines.flatMap ('\n' :: ·) ++ '\n' :: more), by simp⟩
    have atLine : p.cursor.Before (line ++ '\n' :: rest) := by
      rw [← rest_eq, ← List.append_assoc]
      exact before.of_space rfl
    obtain ⟨s, p₁, ran, before₁, depth₁, resolves⟩ := first.read p block blocks body rest atLine
    rw [← rest_eq] at before₁
    obtain ⟨ss, p₂, ran', before₂, depth₂, resolvesAll⟩ := others.read p₁ block blocks (body ++ [s]) more before₁
    refine ⟨s :: ss, p₂, ?_, before₂, depth₂.trans depth₁, .cons resolves resolvesAll⟩
    rw [ran, ran', List.append_assoc, List.singleton_append]

theorem bodyReadBack (precision : Int) {children : List Node} (plain : ∀ n ∈ children, n.IsPlainDeclaration) :
    ∃ lines, BodyReadBack precision children lines := by
  induction children with
  | nil => exact ⟨[], bodyReadBack_nil⟩
  | cons n children ih =>
    obtain ⟨lines, others⟩ := ih fun n member => plain n (List.mem_cons_of_mem _ member)
    have here := plain n List.mem_cons_self
    cases n with
    | property name offset value =>
      obtain ⟨line, first⟩ := property_readBack here
      exact ⟨line :: lines, .cons first others⟩
    | comment text => exact ⟨_, .cons (comment_readBack here) others⟩
    | rule => exact here.elim

/-- Outside all rules the statement resolves to a node that is written as the text
once it is flattened. -/
def ChunkResolvesTo (precision : Int) (s : Statement) (text : Text) : Prop :=
  ∀ expand scope, scope.Unbound → ∃ n, (Resolve.statement expand scope false s).result = .ok ([n], scope) ∧
    ∃ flat, flatten [n] = [flat] ∧ Render.chunk .expanded precision flat = .ok (['\n', '\n'], text)

structure ChunkReadBack (precision : Int) (n : Node) (text : Text) : Prop where
  written : Render.chunk .expanded precision n = .ok (['\n', '\n'], text)
  nonempty : text ≠ []
  read : ∀ (p : Parser) (body : List Statement) (more : Text), p.depth = 0 →
    p.cursor.Before (text ++ '\n' :: more) → ∃ s p',
      Parser.rounds true [] body p = Parser.rounds true [] (body ++ [s]) p' ∧
        p'.cursor.Before ('\n' :: more) ∧ p'.depth = 0 ∧ ChunkResolvesTo precision s text

theorem comment_chunkReadBack {text : Text} (whole : (Token.comment text).IsWhole) :
    ChunkReadBack precision (.comment text) text := by
  refine ⟨rfl, ?_, fun p body more outside before => ?_⟩
  · obtain ⟨c, tail, reads⟩ := whole.reads
    exact fun empty => List.cons_ne_nil c tail (reads.1.symm.trans empty)
  · obtain ⟨index, stream⟩ := before
    have left := Cursor.Before.stream_eq (whole.lexed index ('\n' :: more) rfl) stream
    obtain ⟨p', ran, behind, depth⟩ := Parser.rounds_comment rfl left
    refine ⟨_, p', ran, ⟨_, behind⟩, depth.trans outside, fun expand scope _ => ?_⟩
    exact ⟨.comment text, by rw [Resolve.statement]; rfl, .comment text, rfl, rfl⟩

/-- A separator before every text, the first included. -/
theorem append_intercalate (separator : Text) {texts : List Text} (nonempty : texts ≠ []) :
    separator ++ List.intercalate separator texts = texts.flatMap (separator ++ ·) := by
  induction texts with
  | nil => exact absurd rfl nonempty
  | cons text texts ih =>
    cases texts with
    | nil => simp
    | cons next texts =>
      rw [List.intercalate_cons_cons, List.flatMap_cons, ← ih (List.cons_ne_nil _ _)]
      simp

def ruleText (selectors : List Text) (lines : List Text) : Text :=
  List.intercalate [',', ' '] selectors ++ (' ' :: '\x7b' :: (lines.flatMap ('\n' :: ·) ++ ['\n', '\x7d']))

theorem chunk_rule {children : List Node} {lines : List Text} (selectors : List Text) (depth : Nat)
    (written : children.mapM (Render.declaration .expanded precision depth) = .ok lines)
    (texts : ∀ line ∈ lines, line ≠ []) (nonempty : lines ≠ []) :
    Render.chunk .expanded precision (.rule selectors children depth) =
      .ok (['\n', '\n'], ruleText selectors lines) := by
  have kept : lines.filter (!·.isEmpty) = lines := by
    rw [List.filter_eq_self]
    intro line member
    simp [texts line member]
  have separated := append_intercalate ['\n'] nonempty
  have text : Style.block .expanded depth (Style.selectors .expanded selectors) lines =
      ruleText selectors lines := by
    rw [Style.block, Style.selectors, if_neg (by decide), ruleText]
    simp only [List.singleton_append] at separated
    rw [← separated]
    simp
  rw [Render.chunk, written]
  change Except.ok (_, Style.block .expanded depth _ (lines.filter _)) = _
  rw [kept, text]
  congr 2
  split <;> rfl

theorem rulesAll_of_declarations {ns : List Node} (declarations : ∀ n ∈ ns, n.isDeclaration = true)
    (parents : List Text) (depth : Nat) : Flatten.rulesAll parents depth ns = [] := by
  induction ns with
  | nil => rw [Flatten.rulesAll]
  | cons n ns ih =>
    have here := declarations n List.mem_cons_self
    rw [Flatten.rulesAll, ih fun n member => declarations n (List.mem_cons_of_mem _ member), List.append_nil]
    cases n with
    | rule => cases here
    | property | comment => rw [Flatten.rules]

/-- A rule of declarations is flat already. -/
theorem flatten_rule (selectors : List Text) {children : List Node} (nonempty : children ≠ [])
    (declarations : ∀ n ∈ children, n.isDeclaration = true) (depth : Nat) :
    flatten [.rule selectors children depth] = [.rule selectors children 0] := by
  have all : children.filter isDeclaration = children := List.filter_eq_self.mpr declarations
  have some : children.isEmpty = false := List.isEmpty_eq_false_iff.mpr nonempty
  rw [flatten, List.flatMap_singleton, if_pos (by rfl), Flatten.rules, all, some]
  simp [Selector.combine, rulesAll_of_declarations declarations]

theorem lines_ne_nil {children : List Node} {lines : List Text} {depth : Nat}
    (written : children.mapM (Render.declaration .expanded precision depth) = .ok lines)
    (nonempty : children ≠ []) : lines ≠ [] := by
  obtain ⟨n, rest, rfl⟩ := List.exists_cons_of_ne_nil nonempty
  obtain ⟨line, lines, -, -, rfl⟩ := mapM_cons_eq_ok.mp written
  exact List.cons_ne_nil _ _

/-- The rule statement of resolved declarations is written like the rule they came
from. -/
theorem rule_resolvesTo {selectors : List Text} {ss : List Statement} {lines : List Text}
    (resolves : BodyResolvesTo precision ss lines) (texts : ∀ line ∈ lines, line ≠ []) (nonempty : lines ≠ []) :
    ChunkResolvesTo precision (.rule selectors ss 0) (ruleText selectors lines) := by
  intro expand scope unbound
  obtain ⟨ns, resolved, declarations, written⟩ := resolves expand scope.child fun name => unbound name
  have some : ns ≠ [] := by
    rintro rfl
    exact nonempty (Except.ok.inj (written 0)).symm
  refine ⟨.rule selectors ns 0, ?_, _, flatten_rule selectors some declarations 0, ?_⟩
  · rw [Resolve.statement, Traced.bind_of_ok resolved]
    rfl
  · exact chunk_rule selectors 0 (written 0) texts nonempty

/-- The head of a rule is read up to its opening brace. -/
theorem rule_opens {selectors : List Text} {p : Parser} {more : Text} (before : List Statement)
    (reads : ∀ s ∈ selectors, ∃ ls, Selector.ReadsAs s ls)
    (noKeyword : ∀ s ls l, selectors.head? = some s → tokenize s = .ok ls → ls.head? = some l →
      l.raw.head? ≠ some '@')
    (named : selectors ≠ [] ∧ [] ∉ selectors)
    (stands : p.cursor.Before (List.intercalate [',', ' '] selectors ++ ' ' :: '\x7b' :: more)) :
    ∃ p', Parser.rounds true [] before p = Parser.rounds true [⟨.rule selectors p.depth, before⟩] [] p' ∧
      p'.cursor.Before more ∧ p'.depth = p.depth + 1 := by
  obtain ⟨nonempty, noEmpty⟩ := named
  obtain ⟨selector, others, rfl⟩ := List.exists_cons_of_ne_nil nonempty
  obtain ⟨ls, first⟩ := reads selector List.mem_cons_self
  obtain ⟨index, stream⟩ := stands
  obtain ⟨tail, lexed, heads⟩ := Selector.heads_lexed first
    (fun s member => reads s (List.mem_cons_of_mem _ member)) index ('\x7b' :: more)
  cases ls with
  | nil => exact absurd first.eq_nil fun empty => noEmpty (empty ▸ List.mem_cons_self)
  | cons l ls =>
    have keyword : Parser.isAtKeyword l.token = false := by
      have start := noKeyword selector (l :: ls) l rfl first.tokens rfl
      unfold Parser.isAtKeyword
      split
      · next raw token => simpa [Lexeme.raw, token, Token.raw] using start
      · rfl
    have gap := lexed_space (c := ' ') rfl (index + (List.intercalate [',', ' '] (selector :: others)).length)
      ((Token.operator .leftBrace).raw ++ more)
    have brace := (Token.isWhole_operator .leftBrace).lexed
      (index + (List.intercalate [',', ' '] (selector :: others)).length + 1) more rfl
    have head : Lexed index _ ([' '] ++ (Token.operator .leftBrace).raw ++ more) _ := lexed
    have whole := head.append (gap.append brace)
    have left := Cursor.Before.stream_eq whole (stream.trans (by rw [List.append_assoc]; rfl))
    rw [List.nil_append, List.map_append, List.append_assoc] at left
    obtain ⟨p', opened, stream', depth⟩ := Parser.rounds_open rfl heads noEmpty keyword left
    exact ⟨p', opened, ⟨_, stream'⟩, depth⟩

theorem rule_chunkReadBack {selectors : List Text} {children : List Node} {depth : Nat}
    (plain : IsPlain (.rule selectors children depth)) (named : IsNamed (.rule selectors children depth)) :
    ∃ text, ChunkReadBack precision (.rule selectors children depth) text := by
  obtain ⟨reads, noKeyword, nonempty, declarations⟩ := plain
  obtain ⟨lines, body⟩ := bodyReadBack precision declarations
  have lines_ne := lines_ne_nil (body.written depth) nonempty
  refine ⟨ruleText selectors lines, chunk_rule selectors depth (body.written depth) body.nonempty lines_ne, ?_, ?_⟩
  · simp [ruleText]
  · intro p before more outside stands
    have head : p.cursor.Before (List.intercalate [',', ' '] selectors ++ ' ' :: '\x7b' ::
        (lines.flatMap ('\n' :: ·) ++ '\n' :: '\x7d' :: '\n' :: more)) := by
      simpa [ruleText] using stands
    obtain ⟨p₁, opened, before₁, depth₁⟩ := rule_opens before reads noKeyword named head
    obtain ⟨ss, p₂, read, before₂, depth₂, resolves⟩ :=
      body.read p₁ ⟨.rule selectors p.depth, before⟩ [] [] _ before₁
    obtain ⟨index, stream⟩ := before₂.of_space rfl
    have left := Cursor.Before.stream_eq
      ((Token.isWhole_operator .rightBrace).lexed index ('\n' :: more) rfl) stream
    obtain ⟨p₃, closed, before₃, depth₃⟩ := Parser.rounds_close selectors p.depth before [] ([] ++ ss) rfl left
    rw [outside] at opened read closed
    refine ⟨.rule selectors ss 0, p₃, ?_, ⟨_, before₃⟩, by omega, rule_resolvesTo resolves body.nonempty lines_ne⟩
    rw [opened, read]
    exact closed

end Node

end Stylesheet

import Stylesheet.Proofs.Lexeme.Spans
import Stylesheet.Proofs.Statement.Items
import Stylesheet.Proofs.Text.Spacing

/-! Well formed statements. Every rule of a parsed source has selectors in normal form and
knows how many rules are around it, every expression has lexemes but no comments, and no
property stands outside all bodies. The names and expressions of the statements are
lexemes of the source, in the order of the source. One round adds to what the open bodies
have written no more than what it takes, so this holds of the statements of a whole
source. -/
namespace Stylesheet

namespace Statement

/-- A well formed statement with so many rules around it, which stands outside all bodies
or in one. -/
inductive IsWellFormed : (depth : Nat) → (inRoot : Bool) → Statement → Prop where
  | rule {depth inRoot} {selectors : List Text} {body : List Statement} (some : selectors ≠ [])
      (normal : ∀ selector ∈ selectors, selector ≠ [] ∧ selector.IsSpaced)
      (inside : ∀ s ∈ body, IsWellFormed (depth + 1) false s) :
      IsWellFormed depth inRoot (.rule selectors body depth)
  | property {depth name offset} {e : Expression} (value : e.IsValue) :
      IsWellFormed depth false (.property name offset e)
  | assignment {depth inRoot name offset isDefault isGlobal} {e : Expression} (value : e.IsValue)
      (noFlag : ∀ l ∈ e.getLast?, Parser.flag? l = none) :
      IsWellFormed depth inRoot (.assignment name offset e isDefault isGlobal)
  | comment {depth inRoot text} : IsWellFormed depth inRoot (.comment text)
  | mixin {depth inRoot name} {parameters : List Parameter} {body : List Statement}
      (defaults : ∀ parameter ∈ parameters, ∀ e ∈ parameter.default, e.IsValue)
      (inside : ∀ s ∈ body, IsWellFormed depth false s) : IsWellFormed depth inRoot (.mixin name parameters body)
  | call {depth inRoot name offset} {arguments : List Argument}
      (values : ∀ argument ∈ arguments, argument.value.IsValue) :
      IsWellFormed depth inRoot (.call name arguments offset)

mutual
/-- The lexemes of the names of properties and variables and of all expressions, in the
order of the source. -/
def written : Statement → List Lexeme
  | .rule _ body _ => writtenAll body
  | .property name offset value | .assignment name offset value _ _ => ⟨.ident name, offset⟩ :: value
  | .comment _ => []
  | .mixin _ parameters body => parameters.flatMap (·.default.getD []) ++ writtenAll body
  | .call _ arguments _ => arguments.flatMap (·.value)

def writtenAll : List Statement → List Lexeme
  | [] => []
  | s :: rest => written s ++ writtenAll rest
end

theorem writtenAll_append (ss more : List Statement) : writtenAll (ss ++ more) = writtenAll ss ++ writtenAll more := by
  induction ss with
  | nil => rfl
  | cons s ss ih => rw [List.cons_append, writtenAll, writtenAll, ih, List.append_assoc]

variable {inRoot : Bool} {taken : List Lexeme} {s : Statement}

theorem ReadFrom.isWellFormed (read : s.ReadFrom inRoot taken) (depth : Nat) : s.IsWellFormed depth inRoot := by
  cases read with
  | property named isValue written inside =>
    rw [inside]
    exact .property isValue
  | assignment named isValue noFlag written => exact .assignment isValue noFlag
  | comment here => exact .comment
  | call here values written => exact .call values

theorem ReadFrom.written_sublist (read : s.ReadFrom inRoot taken) : s.written.Sublist taken := by
  have whole {l : Lexeme} {name : Text} {value : Expression} (named : l.ident? = some name)
      (written : (l :: value).Sublist taken) : (⟨.ident name, l.offset⟩ :: value).Sublist taken := by
    rw [← Lexeme.token_of_ident? named]
    exact written
  cases read with
  | property named isValue written inside => exact whole named written
  | assignment named isValue noFlag written => exact whole named written
  | comment here => exact List.nil_sublist taken
  | call here values written => exact written

end Statement

namespace Parser

/-- What is opened becomes a well formed statement with so many rules around it, once its
body is read. -/
inductive Opening.IsHead (depth : Nat) : Opening → Prop where
  | rule {selectors : List Text} (some : selectors ≠ [])
      (normal : ∀ selector ∈ selectors, selector ≠ [] ∧ selector.IsSpaced) : IsHead depth (.rule selectors depth)
  | mixin {name : Text} {parameters : List Parameter}
      (defaults : ∀ parameter ∈ parameters, ∀ e ∈ parameter.default, e.IsValue) : IsHead depth (.mixin name parameters)

def Opening.written : Opening → List Lexeme
  | .rule .. => []
  | .mixin _ parameters => parameters.flatMap (·.default.getD [])

theorem Opening.written_statement (opening : Opening) (body : List Statement) :
    (opening.statement body).written = opening.written ++ Statement.writtenAll body := by
  cases opening <;> rfl

section

variable {depth : Nat} {taken : List Lexeme} {opening : Opening}

/-- Selectors are in normal form and named. -/
theorem Opening.ReadFrom.isHead (head : opening.ReadFrom depth taken) : opening.IsHead depth := by
  have hasHead := head.hasHead []
  cases head with
  | rule named =>
    refine .rule hasHead fun selector member => ?_
    have nonempty : selector ≠ [] := fun empty => named (empty ▸ member)
    obtain ⟨group, -, rfl⟩ := List.mem_map.mp member
    exact ⟨nonempty, Selector.isSpaced_normalize nonempty⟩
  | mixin defaults written => exact .mixin defaults

theorem Opening.ReadFrom.written_sublist (head : opening.ReadFrom depth taken) : opening.written.Sublist taken := by
  cases head with
  | rule named => exact List.nil_sublist taken
  | mixin defaults written => exact written

end

variable {blocks blocks' : List Block} {body body' ss : List Statement} {p p' : Parser} {depth : Nat}
  {taken done : List Lexeme}

/-- All that has been read is well formed, and so is what is still open. -/
def Sound : List Block → List Statement → Prop
  | [], body => ∀ s ∈ body, s.IsWellFormed 0 true
  | block :: outer, body =>
    Sound outer block.before ∧ block.opening.IsHead (openRules outer) ∧
      ∀ s ∈ body, s.IsWellFormed (openRules (block :: outer)) false

def written : List Block → List Statement → List Lexeme
  | [], body => Statement.writtenAll body
  | block :: outer, body => written outer block.before ++ (block.opening.written ++ Statement.writtenAll body)

theorem Sound.add (sound : Sound blocks body) {s : Statement}
    (good : s.IsWellFormed (openRules blocks) blocks.isEmpty) : Sound blocks (body ++ [s]) := by
  cases blocks with
  | nil => exact List.forall_mem_append.mpr ⟨sound, List.forall_mem_singleton.mpr good⟩
  | cons block outer =>
    obtain ⟨outside, head, inside⟩ := sound
    exact ⟨outside, head, List.forall_mem_append.mpr ⟨inside, List.forall_mem_singleton.mpr good⟩⟩

theorem written_add (blocks : List Block) (body : List Statement) (s : Statement) :
    written blocks (body ++ [s]) = written blocks body ++ s.written := by
  cases blocks <;> simp [written, Statement.writtenAll_append, Statement.writtenAll]

/-- A body that is closed is a well formed statement of the body around it. -/
theorem Opening.IsHead.statement {block : Block} {outer : List Block} (head : block.opening.IsHead (openRules outer))
    (inside : ∀ s ∈ body, s.IsWellFormed (openRules (block :: outer)) false) (inRoot : Bool) :
    (block.opening.statement body).IsWellFormed (openRules outer) inRoot := by
  obtain ⟨opening, before⟩ := block
  cases head with
  | rule some normal => exact .rule some normal inside
  | mixin defaults => exact .mixin defaults inside

theorem written_close (block : Block) (outer : List Block) (body : List Statement) :
    written outer (block.before ++ [block.opening.statement body]) = written (block :: outer) body := by
  rw [written_add, Opening.written_statement, written]

theorem Advance.sound (advance : Advance true blocks body (openRules blocks) taken blocks' body' depth)
    (sound : Sound blocks body) : Sound blocks' body' := by
  cases advance with
  | skip => exact sound
  | add leaf => exact sound.add (leaf.isWellFormed _)
  | enter head => exact ⟨sound, head.isHead, by simp⟩
  | close inside =>
    subst inside
    obtain ⟨outside, head, inside⟩ := sound
    exact outside.add (head.statement inside _)

theorem Advance.written (advance : Advance true blocks body (openRules blocks) taken blocks' body' depth)
    (before : (written blocks body).Sublist done) : (Parser.written blocks' body').Sublist (done ++ taken) := by
  cases advance with
  | skip => exact before.trans (List.sublist_append_left done taken)
  | add leaf =>
    rw [written_add]
    exact before.append leaf.written_sublist
  | enter head =>
    have opened := before.append head.written_sublist
    simpa [Parser.written, Statement.writtenAll] using opened
  | close inside =>
    subst inside
    rw [written_close]
    exact before.trans (List.sublist_append_left done taken)

/-- What has been read since the rounds started is well formed, and written in what has
been taken. -/
def Transcribed (source : Parser) (blocks : List Block) (body : List Statement) (p : Parser) : Prop :=
  p.depth = openRules blocks ∧ Sound blocks body ∧
    ∃ done, source.cursor.Passes done p.cursor ∧ (written blocks body).Sublist done

theorem preserves_transcribed (source : Parser) : Preserves true (Transcribed source) := by
  intro blocks body p taken blocks' body' q start passes advance
  obtain ⟨depth, sound, done, before, written⟩ := start
  rw [depth] at advance
  exact ⟨advance.depth_eq, advance.sound sound, done ++ taken, before.trans passes, advance.written written⟩

end Parser

/-- No lexeme is twice among those of a source. -/
theorem tokenize_nodup {source : Text} {ls : List Lexeme} (read : tokenize source = .ok ls) : ls.Nodup := by
  obtain ⟨last, tiles⟩ := tokenize_eq_ok.mp read
  have cover : Covers source 0 ls := tiles.covers rfl (Nat.zero_le _)
  exact cover.ordered.imp fun ordered same => absurd ordered.1 (by rw [same]; exact Nat.lt_irrefl _)

/-- The statements of a source are well formed. The lexemes of their names and expressions
are lexemes of the source in its order, and none of them is there twice. -/
theorem parse_wellFormed {source : Text} {ss : List Statement} (parsed : (parse source).result = .ok ss) :
    (∀ s ∈ ss, s.IsWellFormed 0 true) ∧
      ∃ ls, tokenize source = .ok ls ∧ (Statement.writtenAll ss).Sublist ls ∧ (Statement.writtenAll ss).Nodup := by
  obtain ⟨p, ran⟩ := parse_ok parsed
  have nothing : Parser.Transcribed (Parser.start source) [] [] (Parser.start source) :=
    ⟨rfl, by simp [Parser.Sound], [], .refl _, List.Sublist.refl _⟩
  obtain ⟨q, ⟨-, good, ls, passes, written⟩, whole⟩ := (Parser.preserves_transcribed _).rounds_ok nothing ran
  have stream : (Parser.start source).cursor.stream = ls.map .ok := by
    rw [passes.stream, whole rfl, List.append_nil]
  have read : tokenize source = .ok ls := mapM_of_map_eq stream
  exact ⟨good, ls, read, written, written.nodup (tokenize_nodup read)⟩

/-- A rule in a mixin in a rule, with an assignment before them and a call behind. -/
def nestedSource : Text :=
  "$v: 1px /**/ !default; x \x7b @mixin m($p: 2) \x7b a > b , [ c = d ] \x7b e: $p \x7d \x7d @include m(3, $q: 4); \x7d".toList

theorem parse_wellFormed_nested : ∃ ss, (parse nestedSource).result = .ok ss ∧
    (Statement.writtenAll ss).map Lexeme.raw = ["$v", "1px", "2", "e", "$p", "3", "4"].map String.toList ∧
    (∀ s ∈ ss, s.IsWellFormed 0 true) ∧
    ∃ ls, tokenize nestedSource = .ok ls ∧ (Statement.writtenAll ss).Sublist ls ∧ (Statement.writtenAll ss).Nodup := by
  obtain ⟨ss, parsed⟩ : ∃ ss, (parse nestedSource).result = .ok ss := exists_of_isOk (by decide +kernel)
  have spelled : (parse nestedSource).result.toOption.map (fun ss => (Statement.writtenAll ss).map Lexeme.raw) =
      some (["$v", "1px", "2", "e", "$p", "3", "4"].map String.toList) := by decide +kernel
  rw [parsed] at spelled
  exact ⟨ss, parsed, Option.some.inj spelled, parse_wellFormed parsed⟩

end Stylesheet

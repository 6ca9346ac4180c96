import Mathlib.Data.List.Induction
import Stylesheet.Compile
import Stylesheet.Node.Flatten
import Stylesheet.Proofs.Node.Pieces

/-! Comments in the compressed style. They are not written, but flattening counts them as
declarations: a rule of comments only is kept, and leaves an empty block. So nodes and the
same nodes without their comments have one compressed css exactly if there is no such
rule, or none at all because a value has no spelling. -/
namespace Stylesheet

namespace Node

def isComment : Node → Bool
  | .comment _ => true
  | _ => false

mutual
def uncommented : Node → Node
  | .rule selectors children depth => .rule selectors (uncommentedAll children) depth
  | n => n

def uncommentedAll : List Node → List Node
  | [] => []
  | n :: rest => if n.isComment then uncommentedAll rest else uncommented n :: uncommentedAll rest
end

/-- Not all declarations of a rule are comments, if it has any. -/
def IsSubstantial (n : Node) : Prop := n.hasDeclarations = true → n.children.any isProperty = true

/-- Without comments, the declarations are the properties. -/
theorem declarations_uncommentedAll (ns : List Node) :
    (uncommentedAll ns).filter isDeclaration = ns.filter isProperty := by
  induction ns with
  | nil => rfl
  | cons n ns ih =>
    cases n with
    | comment text => exact ih
    | property name offset value => exact congrArg (Node.property name offset value :: ·) ih
    | rule selectors children depth => exact ih

theorem properties_of_declarations (ns : List Node) :
    (ns.filter isDeclaration).filter isProperty = ns.filter isProperty := by
  rw [List.filter_filter]
  apply List.filter_congr
  intro n _
  cases n <;> rfl

end Node

namespace Render

def compressedBlock (precision : Int) (selectors : List Text) (properties : List Node) : Except Failure Text := do
  let lines ← properties.mapM (declaration .compressed precision 0)
  return Style.compressed.block 0 (Style.compressed.selectors selectors) lines

/-- The compressed text of a node. Of a rule, only the properties right inside it count. -/
def compressedText (precision : Int) : Node → Except Failure Text
  | .rule selectors children _ => compressedBlock precision selectors (children.filter Node.isProperty)
  | _ => return []

def compressedTexts (precision : Int) (nodes : List Node) : Except Failure Text :=
  (nodes.mapM (compressedText precision)).map List.flatten

/-- Only properties have a compressed line. -/
theorem compressed_lines (precision : Int) (depth : Nat) (children : List Node) :
    (children.filter Node.isProperty).mapM (declaration .compressed precision 0) =
      (children.mapM (declaration .compressed precision depth)).map (List.filter (!·.isEmpty)) := by
  induction children with
  | nil => rfl
  | cons n children ih =>
    rw [List.mapM_cons]
    cases n with
    | comment | rule =>
      refine ih.trans ?_
      cases children.mapM (declaration .compressed precision depth) <;> rfl
    | property name offset value =>
      rw [List.filter_cons_of_pos rfl, List.mapM_cons, ih]
      have same : declaration .compressed precision 0 (.property name offset value) =
          declaration .compressed precision depth (.property name offset value) := rfl
      rw [same]
      cases spelled : declaration .compressed precision depth (.property name offset value) with
      | error failure => rfl
      | ok line =>
        cases children.mapM (declaration .compressed precision depth) with
        | error failure => rfl
        | ok lines =>
          have visible : (!line.isEmpty) = true := by simpa using declaration_ne_nil rfl spelled
          exact congrArg Except.ok (List.filter_cons_of_pos (p := fun line : Text => !line.isEmpty) visible).symm

theorem chunk_compressed (precision : Int) (n : Node) :
    chunk .compressed precision n = (compressedText precision n).map fun text => ([], text) := by
  cases n with
  | property | comment => rfl
  | rule selectors children depth =>
    have between : (if depth = 0 then Style.compressed.ruleSeparator else Style.compressed.childSeparator) = [] := by
      split <;> rfl
    rw [chunk, compressedText, compressedBlock, compressed_lines precision depth, between]
    cases children.mapM (declaration .compressed precision depth) <;> rfl

theorem assemble_of_nothing_between (texts : List Text) :
    assemble (texts.map fun text => ([], text)) = texts.flatten := by
  induction texts using List.reverseRecOn with
  | nil => rfl
  | append_singleton texts text ih =>
    rw [List.map_append, List.map_singleton, assemble_concat, ih, List.flatten_append, List.flatten_singleton]
    cases text with
    | nil => simp
    | cons c text => simp

/-- What is written ends with a newline, unless it is empty. -/
def closed (out : Text) : Text := if out.isEmpty then [] else out ++ ['\n']

theorem render_compressed (precision : Int) (nodes : List Node) :
    render .compressed precision nodes = (compressedTexts precision nodes).map closed := by
  rw [render, mapM_map (chunk_compressed precision), compressedTexts]
  cases nodes.mapM (compressedText precision) with
  | error failure => rfl
  | ok texts => exact congrArg (fun out => Except.ok (closed out)) (assemble_of_nothing_between texts)

theorem compressedTexts_append (precision : Int) (nodes more : List Node) :
    compressedTexts precision (nodes ++ more) =
      compressedTexts precision nodes >>= fun a => (compressedTexts precision more).map (a ++ ·) := by
  simp only [compressedTexts, List.mapM_append]
  cases nodes.mapM (compressedText precision) with
  | error failure => rfl
  | ok first =>
    cases more.mapM (compressedText precision) with
    | error failure => rfl
    | ok second => exact congrArg Except.ok List.flatten_append

/-- Outside all rules nothing is written, so flattening may as well leave it out. -/
theorem compressedTexts_flatten (precision : Int) (nodes : List Node) :
    compressedTexts precision (flatten nodes) = compressedTexts precision (Flatten.rulesAll [] 0 nodes) := by
  induction nodes with
  | nil => rfl
  | cons n nodes ih =>
    rw [flatten, List.flatMap_cons, Flatten.rulesAll, compressedTexts_append, compressedTexts_append, ← ih]
    cases n <;> rfl

/-- Both fail alike; or both give a text, the same one where `P` holds, and else the second
gives a shorter one. -/
def Trims (P : Prop) (x y : Except Failure Text) : Prop :=
  (∃ failure, x = .error failure ∧ y = .error failure) ∨
    ∃ a b, x = .ok a ∧ y = .ok b ∧ (P ∧ a = b ∨ ¬P ∧ b.length < a.length)

theorem trims_self {P : Prop} (holds : P) (x : Except Failure Text) : Trims P x x := by
  cases x with
  | error failure => exact .inl ⟨failure, rfl, rfl⟩
  | ok a => exact .inr ⟨a, a, rfl, rfl, .inl ⟨holds, rfl⟩⟩

theorem Trims.append {P Q : Prop} {x y x' y' : Except Failure Text} (first : Trims P x y) (second : Trims Q x' y') :
    Trims (P ∧ Q) (x >>= fun a => x'.map (a ++ ·)) (y >>= fun b => y'.map (b ++ ·)) := by
  obtain ⟨failure, rfl, rfl⟩ | ⟨a, b, rfl, rfl, one⟩ := first
  · exact .inl ⟨failure, rfl, rfl⟩
  obtain ⟨failure, rfl, rfl⟩ | ⟨a', b', rfl, rfl, two⟩ := second
  · exact .inl ⟨failure, rfl, rfl⟩
  refine .inr ⟨a ++ a', b ++ b', rfl, rfl, ?_⟩
  rw [List.length_append, List.length_append]
  obtain ⟨p, rfl⟩ | ⟨p, shorter⟩ := one
  · obtain ⟨q, rfl⟩ | ⟨q, shorter⟩ := two
    · exact .inl ⟨⟨p, q⟩, rfl⟩
    · exact .inr ⟨fun both => q both.2, by omega⟩
  · refine .inr ⟨fun both => p both.1, ?_⟩
    obtain ⟨-, rfl⟩ | ⟨-, shorter'⟩ := two
    · omega
    · omega

/-- A rule's own block is the same without its comments, if it is substantial, and else
goes with them. -/
theorem trims_block (precision : Int) (combined : List Text) (depth depth' : Nat) (selectors : List Text)
    (children : List Node) (own : Nat) :
    let block (depth : Nat) (declarations : List Node) : List Node :=
      if declarations.isEmpty then [] else [.rule combined declarations depth]
    Trims (Node.IsSubstantial (.rule selectors children own))
      (compressedTexts precision (block depth (children.filter Node.isDeclaration)))
      (compressedTexts precision (block depth' ((Node.uncommentedAll children).filter Node.isDeclaration))) := by
  intro block
  have text (depth : Nat) (declarations : List Node) (some : declarations ≠ []) :
      compressedTexts precision (block depth declarations) =
        compressedBlock precision combined (declarations.filter Node.isProperty) := by
    have shown : block depth declarations = [.rule combined declarations depth] := if_neg (by simpa using some)
    rw [shown, compressedTexts, List.mapM_cons, compressedText]
    cases compressedBlock precision combined (declarations.filter Node.isProperty) with
    | error failure => rfl
    | ok lines => exact congrArg Except.ok (List.append_nil _)
  have any : children.any Node.isProperty = true ↔ children.filter Node.isProperty ≠ [] := by
    simp [List.filter_eq_nil_iff]
  rw [Node.declarations_uncommentedAll]
  by_cases declares : children.filter Node.isDeclaration = []
  · have silent : children.filter Node.isProperty = [] := by
      rw [← Node.properties_of_declarations, declares]
      rfl
    rw [declares, silent]
    refine trims_self ?_ _
    intro has
    obtain ⟨n, member, declaration⟩ := List.any_eq_true.mp has
    exact absurd declaration (List.filter_eq_nil_iff.mp declares n member)
  · rw [text depth _ declares, Node.properties_of_declarations]
    by_cases silent : children.filter Node.isProperty = []
    · -- All declarations are comments, so the block has no lines.
      rw [silent]
      refine .inr ⟨_, [], rfl, rfl, .inr ⟨?_, by simp [Style.block]⟩⟩
      intro substantial
      obtain ⟨n, member⟩ := List.exists_mem_of_ne_nil _ declares
      exact any.mp (substantial (List.any_eq_true.mpr ⟨n, List.mem_filter.mp member⟩)) silent
    · have again : (children.filter Node.isProperty).filter Node.isProperty = children.filter Node.isProperty := by
        simp
      rw [text depth' _ silent, again]
      exact trims_self (fun _ => any.mpr silent) _

end Render

namespace Flatten

/-- The plain rules of a rule are its own block, if it has declarations, and then those of
the rules inside it. -/
theorem rules_eq (parents : List Text) (depth : Nat) (selectors : List Text) (children : List Node) (own : Nat) :
    ∃ inner, rules parents depth (.rule selectors children own) =
      (if (children.filter Node.isDeclaration).isEmpty then []
        else [.rule (Selector.combine parents selectors) (children.filter Node.isDeclaration) depth]) ++
          rulesAll (Selector.combine parents selectors) inner children := by
  rw [rules]
  split
  · exact ⟨depth, rfl⟩
  · exact ⟨depth + 1, rfl⟩

end Flatten

namespace Render

mutual
theorem trims_rules (precision : Int) (parents : List Text) (depth depth' : Nat) (n : Node) :
    Trims (∀ m ∈ n.nodes, m.IsSubstantial) (compressedTexts precision (Flatten.rules parents depth n))
      (compressedTexts precision (Flatten.rules parents depth' n.uncommented)) := by
  cases n with
  | property | comment =>
    refine trims_self ?_ _
    intro m member
    cases List.mem_singleton.mp member
    exact fun has => absurd has (by simp [Node.hasDeclarations, Node.children])
  | rule selectors children own =>
    obtain ⟨inner, one⟩ := Flatten.rules_eq parents depth selectors children own
    obtain ⟨inner', two⟩ := Flatten.rules_eq parents depth' selectors (Node.uncommentedAll children) own
    rw [Node.uncommented, one, two, compressedTexts_append, compressedTexts_append, Node.nodes]
    simp only [List.forall_mem_cons]
    exact (trims_block precision _ depth depth' selectors children own).append
      (trims_rulesAll precision _ inner inner' children)

theorem trims_rulesAll (precision : Int) (parents : List Text) (depth depth' : Nat) (ns : List Node) :
    Trims (∀ m ∈ Node.nodesAll ns, m.IsSubstantial) (compressedTexts precision (Flatten.rulesAll parents depth ns))
      (compressedTexts precision (Flatten.rulesAll parents depth' (Node.uncommentedAll ns))) := by
  cases ns with
  | nil => exact trims_self (by simp [Node.nodesAll]) _
  | cons n ns =>
    have both := (trims_rules precision parents depth depth' n).append
      (trims_rulesAll precision parents depth depth' ns)
    rw [← compressedTexts_append, ← compressedTexts_append, ← List.forall_mem_append] at both
    cases n with
    | property | comment | rule => exact both
end

theorem closed_inj {a b : Text} (same : closed a = closed b) : a.length = b.length := by
  cases a with
  | nil =>
    cases b with
    | nil => rfl
    | cons d b => simp [closed] at same
  | cons c a =>
    cases b with
    | nil => simp [closed] at same
    | cons d b =>
      have lengths := congrArg List.length same
      simpa [closed] using lengths

end Render

/-- Without their comments, nodes have the same compressed css if no rule has comments for
its only declarations; and if one has, only if they have no compressed css at all. -/
theorem compressed_uncommented_iff (precision : Int) (nodes : List Node) :
    render .compressed precision (flatten nodes) =
        render .compressed precision (flatten (Node.uncommentedAll nodes)) ↔
      (∀ n ∈ Node.nodesAll nodes, n.IsSubstantial) ∨
        ∃ failure, render .compressed precision (flatten nodes) = .error failure := by
  rw [Render.render_compressed, Render.render_compressed, Render.compressedTexts_flatten,
    Render.compressedTexts_flatten]
  obtain ⟨failure, one, two⟩ | ⟨a, b, one, two, either⟩ := Render.trims_rulesAll precision [] 0 0 nodes
  · rw [one, two]
    exact ⟨fun _ => .inr ⟨failure, rfl⟩, fun _ => rfl⟩
  · rw [one, two]
    obtain ⟨substantial, rfl⟩ | ⟨hollow, shorter⟩ := either
    · exact ⟨fun _ => .inl substantial, fun _ => rfl⟩
    · constructor
      · intro same
        have lengths := Render.closed_inj (Except.ok.inj same)
        omega
      · rintro (substantial | ⟨failure, failed⟩)
        · exact absurd substantial hollow
        · cases failed

/-- A rule of comments only leaves an empty block. -/
theorem compressed_comment_traced :
    (compile "a \x7b /* b */ \x7d".toList .compressed 5).result = .ok "a\x7b\x7d\n".toList ∧
      ¬∀ precision nodes, render .compressed precision (flatten nodes) =
        render .compressed precision (flatten (Node.uncommentedAll nodes)) := by
  constructor
  · exact eq_ok_of_toOption (by decide +kernel)
  · intro same
    have here := same 5 [.rule [['a']] [.comment "/* b */".toList] 0]
    exact absurd (congrArg Except.toOption here) (by decide +kernel)

end Stylesheet

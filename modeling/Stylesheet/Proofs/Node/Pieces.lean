import Stylesheet.Node.Render
import Stylesheet.Proofs.Node.Shape

/-! Rendered css in pieces: the lines of properties, each with its property, and the
text around them. The pieces spell exactly the rendered css, and their properties are
those of the nodes, so no property is left out of the css or written twice. -/
namespace Stylesheet

namespace Style

def opening (style : Style) (depth : Nat) (selectors : Text) : Text :=
  match style with
  | nested => style.indent depth ++ selectors ++ " \x7b\n".toList
  | expanded => selectors ++ " \x7b\n".toList
  | compact => selectors ++ " \x7b ".toList
  | compressed => selectors ++ "\x7b".toList

def lineSeparator : Style → Text
  | nested | expanded => ['\n']
  | compact => [' ']
  | compressed => [';']

def closing : Style → Text
  | nested | compact => " \x7d".toList
  | expanded => "\n\x7d".toList
  | compressed => "\x7d".toList

theorem block_eq (style : Style) (depth : Nat) (selectors : Text) (lines : List Text) :
    style.block depth selectors lines =
      style.opening depth selectors ++ List.intercalate style.lineSeparator lines ++ style.closing := by
  cases style <;> rfl

theorem property_ne_nil (style : Style) (depth : Nat) (name value : Text) :
    style.property depth name value ≠ [] := by
  cases style <;> simp [property]

end Style

namespace Render

/-- A piece of css: the line of a property, or text around such lines. -/
structure Piece where
  property : Option Node
  text : Text

def Piece.frame (text : Text) : Piece := ⟨none, text⟩

def spell (pieces : List Piece) : Text := pieces.flatMap Piece.text

def written (pieces : List Piece) : List Node := pieces.filterMap Piece.property

def linePiece (style : Style) (precision : Int) (depth : Nat) (n : Node) : Except Failure Piece := do
  return ⟨if n.isProperty then some n else none, ← declaration style precision depth n⟩

def chunkPieces (style : Style) (precision : Int) : Node → Except Failure (Text × List Piece)
  | .rule selectors children depth => do
    let lines ← children.mapM (linePiece style precision depth)
    let inside := (lines.filter (!·.text.isEmpty)).intersperse (.frame style.lineSeparator)
    return (if depth = 0 then style.ruleSeparator else style.childSeparator,
      .frame (style.opening depth (style.selectors selectors)) :: inside ++ [.frame style.closing])
  | .comment text => return (style.ruleSeparator, [.frame (style.outerComment text)])
  | .property .. => return ([], [])

def assemblePieces (chunks : List (Text × List Piece)) : List Piece :=
  chunks.foldl (fun out (separator, pieces) =>
    if (spell pieces).isEmpty then out
    else out ++ (if (spell out).isEmpty then [] else [.frame separator]) ++ pieces) []

def pieces (style : Style) (precision : Int) (nodes : List Node) : Except Failure (List Piece) := do
  let out := assemblePieces (← nodes.mapM (chunkPieces style precision))
  return if (spell out).isEmpty then [] else out ++ [.frame ['\n']]

@[simp] theorem spell_append (a b : List Piece) : spell (a ++ b) = spell a ++ spell b := List.flatMap_append

@[simp] theorem spell_cons (a : Piece) (b : List Piece) : spell (a :: b) = a.text ++ spell b := rfl

@[simp] theorem spell_nil : spell [] = [] := rfl

@[simp] theorem written_append (a b : List Piece) : written (a ++ b) = written a ++ written b :=
  List.filterMap_append

@[simp] theorem written_frame (text : Text) (b : List Piece) : written (.frame text :: b) = written b := rfl

@[simp] theorem written_nil : written [] = [] := rfl

theorem spell_intersperse (separator : Text) (lines : List Piece) :
    spell (lines.intersperse (.frame separator)) = List.intercalate separator (lines.map Piece.text) := by
  induction lines with
  | nil => rfl
  | cons line lines ih =>
    cases lines with
    | nil => simp [List.intercalate]
    | cons next lines =>
      simp only [List.intersperse_cons_cons, spell_cons, ih, List.map_cons, List.intercalate,
        List.flatten_cons]
      rfl

theorem written_intersperse (separator : Text) (lines : List Piece) :
    written (lines.intersperse (.frame separator)) = written lines := by
  induction lines with
  | nil => rfl
  | cons line lines ih =>
    cases lines with
    | nil => rfl
    | cons next lines =>
      rw [List.intersperse_cons_cons, ← List.singleton_append, written_append, written_frame, ih,
        ← written_append]
      rfl

theorem linePiece_text (style : Style) (precision : Int) (depth : Nat) (n : Node) :
    declaration style precision depth n = (linePiece style precision depth n).map Piece.text := by
  unfold linePiece
  cases declaration style precision depth n <;> rfl

/-- A chunk is spelled by its pieces. -/
theorem chunk_eq (style : Style) (precision : Int) (n : Node) :
    chunk style precision n = (chunkPieces style precision n).map fun c => (c.1, spell c.2) := by
  cases n with
  | property => rfl
  | comment text => simp [chunk, chunkPieces, Except.map, pure, Except.pure, Piece.frame]
  | rule selectors children depth =>
    rw [chunk, chunkPieces, mapM_map (linePiece_text style precision depth)]
    cases children.mapM (linePiece style precision depth) with
    | error failure => rfl
    | ok lines =>
      have inside : List.intercalate style.lineSeparator ((lines.map Piece.text).filter (!·.isEmpty)) =
          spell ((lines.filter (!·.text.isEmpty)).intersperse (.frame style.lineSeparator)) := by
        rw [spell_intersperse, List.filter_map]
        rfl
      change Except.ok _ = Except.ok _
      rw [Style.block_eq, inside]
      simp [Piece.frame]

/-- A last chunk that is not empty follows its separator, unless it is the first text. -/
theorem assemble_concat (chunks : List (Text × Text)) (chunk : Text × Text) :
    assemble (chunks ++ [chunk]) =
      if chunk.2.isEmpty then assemble chunks
      else assemble chunks ++ (if (assemble chunks).isEmpty then [] else chunk.1) ++ chunk.2 := by
  rw [assemble, List.foldl_append]
  rfl

theorem assemble_eq (chunks : List (Text × List Piece)) :
    assemble (chunks.map fun c => (c.1, spell c.2)) = spell (assemblePieces chunks) := by
  unfold assemble assemblePieces
  rw [List.foldl_map]
  change List.foldl _ (spell []) chunks = _
  apply List.foldl_hom spell
  intro out chunk
  dsimp only
  split
  · rfl
  · split <;> simp [Piece.frame]

/-- The pieces spell the rendered css. -/
theorem render_eq (style : Style) (precision : Int) (nodes : List Node) :
    render style precision nodes = (pieces style precision nodes).map spell := by
  unfold render pieces
  rw [mapM_map (chunk_eq style precision)]
  cases nodes.mapM (chunkPieces style precision) with
  | error failure => rfl
  | ok chunks =>
    change Except.ok _ = Except.ok _
    rw [assemble_eq]
    split <;> simp [Piece.frame]

/-- Every piece with a property is that property's own line. -/
def Labelled (style : Style) (precision : Int) (pieces : List Piece) : Prop :=
  ∀ piece ∈ pieces, ∀ n ∈ piece.property,
    n.isProperty = true ∧ ∃ depth, declaration style precision depth n = .ok piece.text

section

variable {style : Style} {precision : Int}

theorem labelled_nil : Labelled style precision [] := fun _ member => by cases member

theorem Labelled.append {a b : List Piece} (first : Labelled style precision a)
    (second : Labelled style precision b) : Labelled style precision (a ++ b) := by
  intro piece member
  rcases List.mem_append.mp member with member | member
  · exact first piece member
  · exact second piece member

theorem Labelled.frame {a : List Piece} (rest : Labelled style precision a) (text : Text) :
    Labelled style precision (.frame text :: a) := by
  intro piece member
  rcases List.mem_cons.mp member with rfl | member
  · intro n label
    cases label
  · exact rest piece member

theorem Labelled.intersperse {a : List Piece} (lines : Labelled style precision a) (separator : Text) :
    Labelled style precision (a.intersperse (.frame separator)) := by
  induction a with
  | nil => exact lines
  | cons line rest ih =>
    cases rest with
    | nil => exact lines
    | cons next rest =>
      have first : Labelled style precision [line] := fun piece member => lines piece (by simp_all)
      have others := ih fun piece member => lines piece (List.mem_cons_of_mem _ member)
      exact first.append (others.frame separator)

theorem declaration_ne_nil {depth : Nat} {n : Node} {text : Text} (isProperty : n.isProperty = true)
    (spelled : declaration style precision depth n = .ok text) : text ≠ [] := by
  cases n with
  | property name offset value =>
    obtain ⟨css, -, same⟩ := bind_eq_ok.mp spelled
    rw [← Except.ok.inj same]
    exact Style.property_ne_nil _ _ _ _
  | comment | rule => cases isProperty

/-- Pieces without text have no properties. -/
theorem Labelled.written_of_spell {a : List Piece} (labelled : Labelled style precision a)
    (nothing : spell a = []) : written a = [] := by
  induction a with
  | nil => rfl
  | cons piece rest ih =>
    obtain ⟨empty, nothing⟩ := List.append_eq_nil_iff.mp nothing
    have rest := ih (fun p member => labelled p (List.mem_cons_of_mem _ member)) nothing
    cases label : piece.property with
    | none => simpa [written, label] using rest
    | some n =>
      obtain ⟨isProperty, depth, spelled⟩ := labelled piece List.mem_cons_self n label
      exact absurd empty (declaration_ne_nil isProperty spelled)

theorem labelled_lines {depth : Nat} {children : List Node} {lines : List Piece}
    (read : children.mapM (linePiece style precision depth) = .ok lines) : Labelled style precision lines := by
  induction children generalizing lines with
  | nil =>
    cases read
    exact labelled_nil
  | cons n children ih =>
    obtain ⟨line, rest, first, others, rfl⟩ := mapM_cons_eq_ok.mp read
    obtain ⟨text, spelled, same⟩ := bind_eq_ok.mp first
    obtain rfl := Except.ok.inj same
    intro piece member
    rcases List.mem_cons.mp member with rfl | member
    · intro m label
      cases isProperty : n.isProperty with
      | false => simp [isProperty] at label
      | true =>
        obtain rfl : n = m := by simpa [isProperty] using label
        exact ⟨isProperty, depth, spelled⟩
    · exact ih others piece member

/-- The lines of declarations that are kept are those of all properties. -/
theorem written_lines {depth : Nat} {children : List Node} {lines : List Piece}
    (read : children.mapM (linePiece style precision depth) = .ok lines) :
    written (lines.filter (!·.text.isEmpty)) = children.filter Node.isProperty := by
  induction children generalizing lines with
  | nil =>
    cases read
    rfl
  | cons n children ih =>
    obtain ⟨line, rest, first, others, rfl⟩ := mapM_cons_eq_ok.mp read
    obtain ⟨text, spelled, same⟩ := bind_eq_ok.mp first
    obtain rfl := Except.ok.inj same
    cases n with
    | property name offset value =>
      have some : text ≠ [] := declaration_ne_nil rfl spelled
      rw [List.filter_cons_of_pos (by simp [some]), List.filter_cons_of_pos rfl, ← ih others]
      rfl
    | comment | rule =>
      refine Eq.trans ?_ (ih others)
      rw [List.filter_cons]
      cases text <;> rfl

theorem chunkPieces_ok {n : Node} {separator : Text} {out : List Piece}
    (read : chunkPieces style precision n = .ok (separator, out)) :
    written out = n.children.filter Node.isProperty ∧ Labelled style precision out := by
  cases n with
  | property =>
    cases read
    exact ⟨rfl, labelled_nil⟩
  | comment =>
    cases read
    exact ⟨rfl, labelled_nil.frame _⟩
  | rule selectors children depth =>
    obtain ⟨lines, inside, same⟩ := bind_eq_ok.mp read
    obtain ⟨-, rfl⟩ := Prod.mk.inj (Except.ok.inj same)
    constructor
    · rw [List.cons_append, written_frame, written_append, written_intersperse, written_lines inside,
        written_frame]
      exact List.append_nil _
    · have kept : Labelled style precision (lines.filter (!·.text.isEmpty)) := fun piece member =>
        labelled_lines inside piece (List.mem_filter.mp member).1
      exact ((kept.intersperse _).frame _).append (labelled_nil.frame _)

theorem assemblePieces_ok {chunks : List (Text × List Piece)} (each : ∀ c ∈ chunks, Labelled style precision c.2) :
    written (assemblePieces chunks) = (chunks.flatMap fun c => written c.2) ∧
      Labelled style precision (assemblePieces chunks) := by
  have grows : ∀ out, Labelled style precision out →
      let result := chunks.foldl (fun out (separator, pieces) =>
        if (spell pieces).isEmpty then out
        else out ++ (if (spell out).isEmpty then [] else [.frame separator]) ++ pieces) out
      written result = written out ++ (chunks.flatMap fun c => written c.2) ∧ Labelled style precision result := by
    induction chunks with
    | nil => exact fun out labelled => ⟨by simp, labelled⟩
    | cons chunk chunks ih =>
      intro out labelled
      obtain ⟨separator, pieces⟩ := chunk
      have here : Labelled style precision pieces := each _ List.mem_cons_self
      have later := ih fun c member => each c (List.mem_cons_of_mem _ member)
      rw [List.foldl_cons, List.flatMap_cons, ← List.append_assoc]
      dsimp only
      split
      · next nothing =>
        rw [here.written_of_spell (List.isEmpty_iff.mp nothing), List.append_nil]
        exact later out labelled
      · split
        · simpa using later _ ((labelled.append labelled_nil).append here)
        · simpa using later _ ((labelled.append (labelled_nil.frame separator)).append here)
  exact grows [] labelled_nil

theorem mapM_chunkPieces_ok {nodes : List Node} {chunks : List (Text × List Piece)}
    (read : nodes.mapM (chunkPieces style precision) = .ok chunks) :
    (chunks.flatMap fun c => written c.2) = (nodes.flatMap fun n => n.children.filter Node.isProperty) ∧
      ∀ c ∈ chunks, Labelled style precision c.2 := by
  induction nodes generalizing chunks with
  | nil =>
    cases read
    exact ⟨rfl, by simp⟩
  | cons n nodes ih =>
    obtain ⟨⟨separator, out⟩, rest, first, others, rfl⟩ := mapM_cons_eq_ok.mp read
    obtain ⟨own, labelled⟩ := chunkPieces_ok first
    obtain ⟨all, labelledAll⟩ := ih others
    constructor
    · rw [List.flatMap_cons, List.flatMap_cons, own, all]
    · intro c member
      rcases List.mem_cons.mp member with rfl | member
      · exact labelled
      · exact labelledAll c member

/-- The properties written are the properties right inside the nodes, each as its own
line. -/
theorem pieces_ok {nodes : List Node} {out : List Piece} (rendered : pieces style precision nodes = .ok out) :
    written out = (nodes.flatMap fun n => n.children.filter Node.isProperty) ∧ Labelled style precision out := by
  obtain ⟨chunks, read, same⟩ := bind_eq_ok.mp rendered
  obtain ⟨all, each⟩ := mapM_chunkPieces_ok read
  obtain ⟨assembled, labelled⟩ := assemblePieces_ok each
  rw [← Except.ok.inj same, ← all, ← assembled]
  split
  · next nothing => exact ⟨(labelled.written_of_spell (List.isEmpty_iff.mp nothing)).symm, labelled_nil⟩
  · exact ⟨by simp, labelled.append (labelled_nil.frame _)⟩

end

end Render

end Stylesheet

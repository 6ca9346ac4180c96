import Mathlib.Data.List.Induction
import Stylesheet.Proofs.Node.Pieces
import Stylesheet.Proofs.Text.Respacing

/-! The styles write the same css. All that a style puts around selectors, properties and
comments is blanks, the compressed style apart; so without its blanks the css is one text,
which is given here without a style. Whether a value can be spelled does not depend on
the style either. -/
namespace Stylesheet

namespace Text

theorem visible_cons (c : Char) (rest : Text) : visible (c :: rest) = visible [c] ++ visible rest :=
  visible_append [c] rest

theorem visible_cons_of_blank {c : Char} (blank : isBlank c = true) (rest : Text) :
    visible (c :: rest) = visible rest :=
  List.filter_cons_of_neg (by simp [blank])

theorem visible_cons_of_not_blank {c : Char} (word : isBlank c = false) (rest : Text) :
    visible (c :: rest) = c :: visible rest := List.filter_cons_of_pos (by simp [word])

/-- Blanks between lines leave no trace. -/
theorem visible_intercalate {separator : Text} (blank : visible separator = []) (lines : List Text) :
    visible (List.intercalate separator lines) = (lines.map visible).flatten := by
  induction lines with
  | nil => rfl
  | cons line lines ih =>
    cases lines with
    | nil => simp [List.intercalate]
    | cons next lines =>
      rw [List.intercalate_cons_cons, visible_append, visible_append, blank, ih, List.append_nil]
      rfl

theorem visible_filter_isEmpty (lines : List Text) :
    ((lines.filter (!·.isEmpty)).map visible).flatten = (lines.map visible).flatten := by
  induction lines with
  | nil => rfl
  | cons line lines ih =>
    cases line with
    | nil => exact ih
    | cons c line => exact congrArg (visible (c :: line) ++ ·) ih

/-- Only line breaks, which are blanks, are lost where lines are cut. -/
theorem visible_lines (text : Text) : ((lines text).map visible).flatten = visible text := by
  fun_induction lines text with
  | case1 => rfl
  | case2 rest ih =>
    rw [visible_cons_of_blank (by decide), visible_cons_of_blank (by decide)]
    exact ih
  | case3 c rest _ lineBreak ih =>
    rw [visible_cons_of_blank (isBlank_of_isLineBreak lineBreak)]
    exact ih
  | case4 c rest _ _ nothing ih =>
    rw [nothing] at ih
    rw [visible_cons, ← ih]
    rfl
  | case5 c rest _ _ line more found ih =>
    rw [found] at ih
    rw [visible_cons, ← ih, List.map_cons, List.flatten_cons, visible_cons, List.append_assoc]
    rfl

end Text

theorem Style.visible_oneLine (comment : Text) : Text.visible (oneLine comment) = Text.visible comment := by
  have stripped : ((Text.lines comment).map Text.strip).map Text.visible = (Text.lines comment).map Text.visible := by
    rw [List.map_map]
    exact List.map_congr_left fun line _ => (Text.respaced_strip line).visible_eq
  rw [oneLine, Text.visible_intercalate (by decide), stripped, Text.visible_lines]

namespace Style

variable {style : Style}

theorem visible_indent (style : Style) (depth : Nat) : Text.visible (style.indent depth) = [] := by
  cases style with
  | nested => exact List.filter_eq_nil_iff.mpr fun c member => by rw [List.eq_of_mem_replicate member]; decide
  | expanded | compact | compressed => rfl

theorem visible_property (plain : style ≠ .compressed) (depth : Nat) (name value : Text) :
    Text.visible (style.property depth name value) = Text.visible (name ++ ':' :: value ++ [';']) := by
  have blank := Text.visible_cons_of_blank (c := ' ') (by decide)
  have colon := Text.visible_cons_of_not_blank (c := ':') (by decide)
  cases style with
  | compressed => exact absurd rfl plain
  | nested | expanded | compact =>
    simp only [property, List.append_assoc, List.cons_append, Text.visible_append, visible_indent, blank, colon,
      List.nil_append]

theorem visible_innerComment (plain : style ≠ .compressed) (depth : Nat) (text : Text) :
    Text.visible (style.innerComment depth text) = Text.visible text := by
  have blank := Text.visible_cons_of_blank (c := ' ') (by decide)
  cases style with
  | compressed => exact absurd rfl plain
  | compact => exact visible_oneLine text
  | nested | expanded => simp only [innerComment, Text.visible_append, visible_indent, blank, List.nil_append]

theorem visible_outerComment (plain : style ≠ .compressed) (text : Text) :
    Text.visible (style.outerComment text) = Text.visible text := by
  cases style with
  | compressed => exact absurd rfl plain
  | compact => exact visible_oneLine text
  | nested | expanded => rfl

/-- Inside the braces of a rule stand its lines, whatever the style puts between them. -/
theorem visible_block (plain : style ≠ .compressed) (depth : Nat) (selectors : Text) (lines : List Text) :
    Text.visible (style.block depth selectors lines) =
      Text.visible selectors ++ '\x7b' :: (lines.map Text.visible).flatten ++ ['\x7d'] := by
  have between : Text.visible style.lineSeparator = [] := by
    cases style with
    | compressed => exact absurd rfl plain
    | nested | expanded | compact => decide
  have opening : Text.visible (style.opening depth selectors) = Text.visible selectors ++ ['\x7b'] := by
    cases style with
    | compressed => exact absurd rfl plain
    | nested =>
      rw [Style.opening, Text.visible_append, Text.visible_append, visible_indent, List.nil_append]
      rfl
    | expanded | compact =>
      rw [Style.opening, Text.visible_append]
      rfl
  have closing : Text.visible style.closing = ['\x7d'] := by
    cases style <;> decide
  rw [block_eq, Text.visible_append, Text.visible_append, Text.visible_intercalate between, opening, closing]
  simp

end Style

namespace Render

def visibleLine (precision : Int) : Node → Except Failure Text
  | .property name _ value => return Text.visible (name ++ ':' :: (← value.css precision false) ++ [';'])
  | .comment text => return Text.visible text
  | .rule .. => return []

def visibleChunk (precision : Int) : Node → Except Failure Text
  | .rule selectors children _ => do
    let lines ← children.mapM (visibleLine precision)
    return Text.visible (List.intercalate [',', ' '] selectors) ++ '\x7b' :: lines.flatten ++ ['\x7d']
  | .comment text => return Text.visible text
  | .property .. => return []

variable {style : Style}

theorem visibleLine_eq (plain : style ≠ .compressed) (precision : Int) (depth : Nat) (n : Node) :
    visibleLine precision n = (declaration style precision depth n).map Text.visible := by
  cases n with
  | rule => rfl
  | comment text => exact congrArg Except.ok (Style.visible_innerComment plain depth text).symm
  | property name offset value =>
    rw [visibleLine, declaration, decide_eq_false plain]
    cases value.css precision false with
    | error failure => rfl
    | ok css => exact congrArg Except.ok (Style.visible_property plain depth name css).symm

theorem visibleChunk_eq (plain : style ≠ .compressed) (precision : Int) (n : Node) :
    visibleChunk precision n = (chunk style precision n).map fun c => Text.visible c.2 := by
  cases n with
  | property => rfl
  | comment text => exact congrArg Except.ok (Style.visible_outerComment plain text).symm
  | rule selectors children depth =>
    rw [visibleChunk, chunk, mapM_map (visibleLine_eq plain precision depth)]
    cases children.mapM (declaration style precision depth) with
    | error failure => rfl
    | ok lines =>
      have joined : style.selectors selectors = List.intercalate [',', ' '] selectors := if_neg plain
      have written := Style.visible_block plain depth (style.selectors selectors) (lines.filter (!·.isEmpty))
      rw [Text.visible_filter_isEmpty] at written
      rw [← joined]
      exact congrArg Except.ok written.symm

/-- Only blanks stand between chunks, in any style. -/
theorem visible_separator {precision : Int} {n : Node} {separator text : Text}
    (made : chunk style precision n = .ok (separator, text)) : Text.visible separator = [] := by
  have rules : Text.visible style.ruleSeparator = [] := by cases style <;> decide
  have nested : Text.visible style.childSeparator = [] := by cases style <;> decide
  cases n with
  | property =>
    cases made
    rfl
  | comment =>
    cases made
    exact rules
  | rule selectors children depth =>
    obtain ⟨lines, -, same⟩ := bind_eq_ok.mp made
    cases same
    split
    · exact rules
    · exact nested

theorem visible_assemble {chunks : List (Text × Text)} (between : ∀ c ∈ chunks, Text.visible c.1 = []) :
    Text.visible (assemble chunks) = (chunks.map fun c => Text.visible c.2).flatten := by
  induction chunks using List.reverseRecOn with
  | nil => rfl
  | append_singleton chunks chunk ih =>
    obtain ⟨before, last⟩ := List.forall_mem_append.mp between
    have here : Text.visible chunk.1 = [] := last chunk List.mem_cons_self
    rw [assemble_concat, List.map_append, List.flatten_append, ← ih before, List.map_singleton, List.flatten_singleton]
    split
    · next nothing =>
      rw [List.isEmpty_iff.mp nothing]
      exact (List.append_nil _).symm
    · split
      · rw [List.append_nil, Text.visible_append]
      · rw [Text.visible_append, Text.visible_append, here, List.append_nil]

/-- Without its blanks the css is the same in every style but the compressed one. -/
theorem visible_render (plain : style ≠ .compressed) (precision : Int) (nodes : List Node) :
    (render style precision nodes).map Text.visible =
      (nodes.mapM (visibleChunk precision)).map List.flatten := by
  rw [mapM_map (visibleChunk_eq plain precision), render]
  cases made : nodes.mapM (chunk style precision) with
  | error failure => rfl
  | ok chunks =>
    have between : ∀ c ∈ chunks, Text.visible c.1 = [] := by
      intro c member
      have results := map_eq_of_mapM made
      have result : (Except.ok c : Except Failure _) ∈ nodes.map (chunk style precision) :=
        results ▸ List.mem_map_of_mem member
      obtain ⟨n, -, here⟩ := List.mem_map.mp result
      exact visible_separator here
    change Except.ok _ = Except.ok _
    rw [← visible_assemble between]
    split
    · next nothing => rw [List.isEmpty_iff.mp nothing]
    · rw [Text.visible_append]
      exact congrArg Except.ok (List.append_nil _)

end Render

mutual
/-- How colours are spelled does not decide whether a value can be. -/
theorem Value.failure?_css (precision : Int) (compressed compressed' : Bool) (v : Value) :
    failure? (v.css precision compressed) = failure? (v.css precision compressed') := by
  cases v with
  | number | text | color => rfl
  | list items =>
    rw [Value.css, Value.css]
    exact Item.failure?_cssFrom precision compressed compressed' [] [] false items

theorem Item.failure?_cssFrom (precision : Int) (compressed compressed' : Bool) (out out' : Text)
    (afterSlash : Bool) (items : List Item) :
    failure? (Item.cssFrom precision compressed out afterSlash items) =
      failure? (Item.cssFrom precision compressed' out' afterSlash items) := by
  cases items with
  | nil => rfl
  | cons item rest =>
    cases item with
    | separator op => exact Item.failure?_cssFrom precision compressed compressed' _ _ _ rest
    | value v =>
      have first := Value.failure?_css precision compressed compressed' v
      rw [Item.cssFrom, Item.cssFrom]
      cases one : v.css precision compressed with
      | error failure =>
        rw [one] at first
        rw [eq_error_of_failure? first.symm]
        rfl
      | ok text =>
        cases two : v.css precision compressed' with
        | error failure =>
          rw [one, two] at first
          cases first
        | ok text' => exact Item.failure?_cssFrom precision compressed compressed' _ _ _ rest
end

/-- Rendering fails in every style or in none, and for the same reason. -/
theorem failure?_render (precision : Int) (nodes : List Node) (style style' : Style) :
    failure? (render style precision nodes) = failure? (render style' precision nodes) := by
  have lines (depth : Nat) (n : Node) : failure? (Render.declaration style precision depth n) =
      failure? (Render.declaration style' precision depth n) := by
    cases n with
    | comment | rule => rfl
    | property name offset value =>
      refine (failure?_bind_ok _ _).trans (Eq.trans ?_ (failure?_bind_ok _ _).symm)
      exact value.failure?_css precision _ _
  have chunks (n : Node) :
      failure? (Render.chunk style precision n) = failure? (Render.chunk style' precision n) := by
    cases n with
    | comment | property => rfl
    | rule selectors children depth =>
      refine (failure?_bind_ok _ _).trans (Eq.trans ?_ (failure?_bind_ok _ _).symm)
      exact failure?_mapM (lines depth) children
  refine (failure?_bind_ok _ _).trans (Eq.trans ?_ (failure?_bind_ok _ _).symm)
  exact failure?_mapM chunks nodes

/-- The four styles render the same nodes or fail alike, and without its blanks the css is
the same in the nested, the expanded and the compact style. -/
theorem styles_agree (precision : Int) (nodes : List Node) :
    (∀ style style', failure? (render style precision nodes) = failure? (render style' precision nodes)) ∧
      (render .nested precision nodes).map Text.visible = (render .expanded precision nodes).map Text.visible ∧
      (render .compact precision nodes).map Text.visible = (render .expanded precision nodes).map Text.visible := by
  have visible (style : Style) (plain : style ≠ .compressed) := Render.visible_render plain precision nodes
  refine ⟨failure?_render precision nodes, ?_, ?_⟩
  · rw [visible .nested (by decide), visible .expanded (by decide)]
  · rw [visible .compact (by decide), visible .expanded (by decide)]

end Stylesheet

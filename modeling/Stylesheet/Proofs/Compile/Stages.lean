import Stylesheet.Compile
import Stylesheet.Proofs.Node.Pieces

/-! The stages of a compilation in a row. What leaves one stage has the shape that
the next one expects, so no node is skipped on the way to the css. -/
namespace Stylesheet

/-- The stages in a row, without the events. -/
theorem compile_result (source : Text) (style : Style) (precision : Int) :
    (compile source style precision).result = (do
      let ss ← (parse source).result
      let nodes ← (resolve (Scope.empty precision) ss).result
      render style precision (flatten nodes)) := by
  simp only [compile, Traced.result_bind, Traced.result_report]
  rfl

theorem compile_ok {source css : Text} {style : Style} {precision : Int} :
    (compile source style precision).result = .ok css ↔
      ∃ ss nodes, (parse source).result = .ok ss ∧ (resolve (Scope.empty precision) ss).result = .ok nodes ∧
        render style precision (flatten nodes) = .ok css := by
  rw [compile_result, bind_eq_ok]
  constructor
  · rintro ⟨ss, parsed, h⟩
    obtain ⟨nodes, resolved, rendered⟩ := bind_eq_ok.mp h
    exact ⟨ss, nodes, parsed, resolved, rendered⟩
  · rintro ⟨ss, nodes, parsed, resolved, rendered⟩
    exact ⟨ss, parsed, bind_eq_ok.mpr ⟨nodes, resolved, rendered⟩⟩

/-- Flattening what was resolved leaves flat nodes. -/
theorem flat_of_resolved {source : Text} {precision : Int} {ss : List Statement} {nodes : List Node}
    (parsed : (parse source).result = .ok ss)
    (resolved : (resolve (Scope.empty precision) ss).result = .ok nodes) :
    (∀ n ∈ nodes, n.isProperty = false) ∧ ∀ n ∈ flatten nodes, n.IsFlat := by
  obtain ⟨scope, resolves⟩ := resolve_ok resolved
  have outside := resolves.no_property rfl
  have heads := (resolves.hasHead (parse_hasHead parsed) (Scope.everyMixin_empty precision)).1
  exact ⟨outside, flatten_isFlat outside heads⟩

/-- Between the stages nothing is lost. Outside all rules resolution leaves no
property; flattening leaves comments, and rules of declarations with selectors, so
that rendering skips no node for its kind; and the properties whose lines the css is
made of are, in every style, those of the resolved nodes. -/
theorem stages_keep_properties {source : Text} {precision : Int} {ss : List Statement} {nodes : List Node}
    (parsed : (parse source).result = .ok ss)
    (resolved : (resolve (Scope.empty precision) ss).result = .ok nodes) :
    (∀ n ∈ nodes, n.isProperty = false) ∧
      (∀ n ∈ flatten nodes, n.IsFlat) ∧
      (∀ n ∈ flatten nodes, n.isProperty = false ∧ ∀ child ∈ n.children, child.isRule = false) ∧
      ∀ style places css, render style places (flatten nodes) = .ok css →
        ∃ pieces, Render.pieces style places (flatten nodes) = .ok pieces ∧ Render.spell pieces = css ∧
          Render.Labelled style places pieces ∧ (Render.written pieces).Perm (Node.properties nodes) := by
  obtain ⟨outside, flat⟩ := flat_of_resolved parsed resolved
  refine ⟨outside, flat, ?_, ?_⟩
  · intro n member
    have shape := flat n member
    cases n with
    | rule selectors children depth =>
      refine ⟨rfl, fun child inside => ?_⟩
      simpa [Node.isDeclaration] using shape.2.2 child inside
    | comment text => exact ⟨rfl, fun child inside => by cases inside⟩
    | property => exact shape.elim
  · intro style places css rendered
    rw [Render.render_eq] at rendered
    obtain ⟨pieces, made, spelled⟩ := map_eq_ok.mp rendered
    obtain ⟨written, labelled⟩ := Render.pieces_ok made
    refine ⟨pieces, made, spelled, labelled, ?_⟩
    rw [written, ← Node.properties_of_isFlat flat]
    exact flatten_properties nodes

theorem stages_keep_properties_expanded : ∃ ss nodes pieces,
    (parse "@mixin m($n) \x7b p: $n; \x7d a \x7b b \x7b @include m(2); \x7d @include m(1); q: 1 \x7d".toList).result =
        .ok ss ∧
      (resolve (Scope.empty 5) ss).result = .ok nodes ∧
      Render.pieces .compact 5 (flatten nodes) = .ok pieces ∧
      Render.spell pieces = "a \x7b p: 1; q: 1; \x7d\na b \x7b p: 2; \x7d\n".toList ∧
      (Render.written pieces).Perm (Node.properties nodes) := by
  have compiled := eq_ok_of_toOption (by decide +kernel :
    (compile "@mixin m($n) \x7b p: $n; \x7d a \x7b b \x7b @include m(2); \x7d @include m(1); q: 1 \x7d".toList
      .compact 5).result.toOption = some "a \x7b p: 1; q: 1; \x7d\na b \x7b p: 2; \x7d\n".toList)
  obtain ⟨ss, nodes, parsed, resolved, rendered⟩ := compile_ok.mp compiled
  obtain ⟨-, -, -, lossless⟩ := stages_keep_properties parsed resolved
  obtain ⟨pieces, made, spelled, -, same⟩ := lossless .compact 5 _ rendered
  exact ⟨ss, nodes, pieces, parsed, resolved, made, spelled, same⟩

end Stylesheet

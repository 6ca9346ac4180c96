import Stylesheet.Proofs.Compile.Stages
import Stylesheet.Proofs.Statement.Composition

/-! The css of a source does not depend on the lines behind it: parsing, resolution,
flattening and rendering all go from the front to the back. -/
namespace Stylesheet

namespace Render

theorem assemble_initial (chunks more : List (Text × Text)) :
    assemble chunks <+: assemble (chunks ++ more) := by
  unfold assemble
  rw [List.foldl_append]
  generalize List.foldl _ [] chunks = out
  induction more generalizing out with
  | nil => exact List.prefix_rfl
  | cons chunk more ih =>
    obtain ⟨separator, text⟩ := chunk
    rw [List.foldl_cons]
    dsimp only
    refine List.IsPrefix.trans ?_ (ih _)
    split
    · exact List.prefix_rfl
    · exact (List.prefix_append _ _).trans (List.prefix_append _ _)

end Render

theorem render_initial {style : Style} {precision : Int} {nodes more : List Node} {css all : Text}
    (rendered : render style precision nodes = .ok css)
    (both : render style precision (nodes ++ more) = .ok all) :
    css = [] ∨ ∃ body, css = body ++ ['\n'] ∧ body <+: all := by
  obtain ⟨chunks, written, rendered⟩ := bind_eq_ok.mp rendered
  obtain ⟨allChunks, writtenAll, both⟩ := bind_eq_ok.mp both
  obtain ⟨first, second, one, -, rfl⟩ := mapM_append_eq_ok.mp writtenAll
  obtain rfl := Except.ok.inj (one.symm.trans written)
  have grows := Render.assemble_initial first second
  have rendered := Except.ok.inj rendered
  have both := Except.ok.inj both
  split at rendered
  · exact .inl rendered.symm
  · next some =>
    refine .inr ⟨_, rendered.symm, ?_⟩
    split at both
    · next none =>
      rw [List.isEmpty_iff] at none
      rw [none, List.prefix_nil] at grows
      simp [grows] at some
    · rw [← both]
      exact grows.trans (List.prefix_append _ _)

/-- Later lines never change css that is already there: the css of a source without
its final newline is where the css of any longer source starts. -/
theorem compile_append_newline {source more css all : Text} {style : Style} {precision : Int}
    (compiled : (compile source style precision).result = .ok css)
    (both : (compile (source ++ '\n' :: more) style precision).result = .ok all) :
    css = [] ∨ ∃ body, css = body ++ ['\n'] ∧ body <+: all := by
  obtain ⟨ss, nodes, parsed, resolved, rendered⟩ := compile_ok.mp compiled
  obtain ⟨ss', nodes', parsed', resolved', rendered'⟩ := compile_ok.mp both
  obtain ⟨later, rfl⟩ := parse_initial parsed parsed'
  obtain ⟨scope, resolves⟩ := resolve_ok resolved
  obtain ⟨scope', resolvesAll⟩ := resolve_ok resolved'
  obtain ⟨first, scope₁, second, one, -, rfl⟩ := resolvesAll.of_append
  obtain ⟨rfl, -⟩ := one.unique resolves
  have apart : flatten (first ++ second) = flatten first ++ flatten second := List.flatMap_append
  rw [apart] at rendered'
  exact render_initial rendered rendered'

theorem compile_append_newline_reassigned :
    (compile "$x: 1px; a \x7b b: $x + 1; \x7d // end".toList .nested 5).result =
        .ok "a \x7b\n  b: 2px; \x7d\n".toList ∧
      (compile ("$x: 1px; a \x7b b: $x + 1; \x7d // end".toList ++ '\n' :: "$x: 2px; a \x7b c: $x; \x7d".toList)
        .nested 5).result = .ok "a \x7b\n  b: 2px; \x7d\n\na \x7b\n  c: 2px; \x7d\n".toList ∧
      ("a \x7b\n  b: 2px; \x7d\n".toList = [] ∨
        ∃ body, "a \x7b\n  b: 2px; \x7d\n".toList = body ++ ['\n'] ∧
          body <+: "a \x7b\n  b: 2px; \x7d\n\na \x7b\n  c: 2px; \x7d\n".toList) := by
  have compiled := eq_ok_of_toOption (by decide +kernel :
    (compile "$x: 1px; a \x7b b: $x + 1; \x7d // end".toList .nested 5).result.toOption =
      some "a \x7b\n  b: 2px; \x7d\n".toList)
  have both := eq_ok_of_toOption (by decide +kernel :
    (compile ("$x: 1px; a \x7b b: $x + 1; \x7d // end".toList ++ '\n' :: "$x: 2px; a \x7b c: $x; \x7d".toList)
      .nested 5).result.toOption = some "a \x7b\n  b: 2px; \x7d\n\na \x7b\n  c: 2px; \x7d\n".toList)
  exact ⟨compiled, both, compile_append_newline compiled both⟩

end Stylesheet

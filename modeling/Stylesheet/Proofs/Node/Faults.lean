import Stylesheet.Proofs.Node.Invariant
import Stylesheet.Proofs.Node.Pieces

/-! How resolution and rendering fail. Resolution adds to the failures of evaluation
its own compile errors and endless expansion; rendering fails exactly where the value
of a property holds a number that cannot be spelled. -/
namespace Stylesheet

def Failure.IsExpected (failure : Failure) : Prop := failure.IsOrdinary ∨ failure = .endless

theorem Failure.admits_isExpected {precision : Int} (within : precision ≤ Binary64.mostPlaces) :
    Admits IsExpected (fun _ => True) precision where
  error own here := .inl ((admits_isOrdinary within).error own here)
  nowhere := trivial
  spelled x fault failed := .inl ((admits_isOrdinary within).spelled x fault failed)
  shown x fault failed := .inl ((admits_isOrdinary within).shown x fault failed)
  converted fault := .inl ((admits_isOrdinary within).converted fault)

section

variable {P : Failure → Prop} {At : Option Int → Prop} {precision : Int} {ss : List Statement}
  (admits : Failure.Admits P At precision) (endless : P .endless)
  (placed : ∀ t ∈ Statement.nodesAll ss, t.Placed At)

include admits endless placed

theorem Resolve.ensures_expansion (limit : Nat) {scope : Scope} (inRule : Bool) {name : Text}
    {arguments : List Argument} {offset : Option Int} (called : (Statement.call name arguments offset).Placed At)
    (arises : scope.Arises ss precision) :
    Traced.Ensures P (fun result => result.2.Arises ss precision)
      (expansion limit scope inRule name arguments offset) := by
  have keeps := invariant_arises admits ss
  induction limit generalizing scope inRule name arguments offset with
  | zero =>
    refine ⟨failsAs_error endless, ?_⟩
    rintro _ ⟨⟩
  | succ limit ih =>
    refine ensures_expansion_succ keeps (fun mixin found => placed _ (arises.knows.mixin? found))
      (fun mixin found inner arises' => ?_) called arises
    have inside := Statement.body_subset (arises.knows.mixin? found)
    refine ensures_statements keeps mixin.body (fun t member => placed t (inside member)) ?_ ?_ inRule arises'
    · intro name _ scope inRule arguments offset arises called
      exact ih inRule called arises
    · intro name parameters body member
      exact inside member

/-- Resolution fails as evaluation does at the statements and their lexemes, or without
end. -/
theorem failsAs_resolve : (resolve (Scope.empty precision) ss).FailsAs P := by
  refine Traced.FailsAs.bind (failsAs_ok _) fun _ _ => ?_
  have resolved := Resolve.ensures_statements (Resolve.invariant_arises admits ss) ss placed
    (fun name _ scope inRule arguments offset arises called =>
      Resolve.ensures_expansion admits endless placed (Resolve.expansionLimit ss) inRule called arises)
    (fun _ _ _ member => member) false (Scope.arises_empty ss precision)
  exact resolved.1.bind fun _ _ => Traced.failsAs_pure _

end

abbrev Resolve.Expected (x : Traced α) : Prop := Traced.FailsAs Failure.IsExpected x

/-- Resolution fails with a compile error, at a number that is not finite, or without
end. -/
theorem expected_resolve {precision : Int} (within : precision ≤ Binary64.mostPlaces) (ss : List Statement) :
    Resolve.Expected (resolve (Scope.empty precision) ss) :=
  failsAs_resolve (Failure.admits_isExpected within) (.inr rfl) fun _ _ => Statement.placed_anywhere _

def Node.spells (precision : Int) : Node → Bool
  | .property _ _ value => value.spells precision
  | _ => true

namespace Render

variable {precision : Int}

theorem declaration_ok_iff (within : precision ≤ Binary64.mostPlaces) (style : Style) (depth : Nat) (n : Node) :
    (∃ text, declaration style precision depth n = .ok text) ↔ n.spells precision = true := by
  cases n with
  | property name offset value =>
    rw [Node.spells, ← value.css_ok_iff within (style = .compressed)]
    constructor
    · rintro ⟨text, h⟩
      obtain ⟨css, spelled, -⟩ := bind_eq_ok.mp h
      exact ⟨css, spelled⟩
    · rintro ⟨css, spelled⟩
      exact ⟨_, bind_eq_ok.mpr ⟨css, spelled, rfl⟩⟩
  | comment text => simp [declaration, Node.spells, pure, Except.pure]
  | rule => simp [declaration, Node.spells, pure, Except.pure]

theorem chunk_ok_iff (within : precision ≤ Binary64.mostPlaces) (style : Style) (n : Node) :
    (∃ c, chunk style precision n = .ok c) ↔ ∀ child ∈ n.children, child.spells precision = true := by
  cases n with
  | rule selectors children depth =>
    have lines := mapM_ok_iff (declaration style precision depth) children
    simp only [declaration_ok_iff within] at lines
    rw [Node.children, ← lines]
    constructor
    · rintro ⟨c, h⟩
      obtain ⟨texts, read, -⟩ := bind_eq_ok.mp h
      exact ⟨texts, read⟩
    · rintro ⟨texts, read⟩
      exact ⟨_, bind_eq_ok.mpr ⟨texts, read, rfl⟩⟩
  | comment text => simp [chunk, Node.children, pure, Except.pure]
  | property => simp [chunk, Node.children, pure, Except.pure]

end Render

/-- Rendering fails exactly at values that cannot be spelled. -/
theorem render_ok_iff {precision : Int} (within : precision ≤ Binary64.mostPlaces) (style : Style)
    (nodes : List Node) : (∃ css, render style precision nodes = .ok css) ↔
      ∀ n ∈ nodes, ∀ child ∈ n.children, child.spells precision = true := by
  have chunks := mapM_ok_iff (Render.chunk style precision) nodes
  simp only [Render.chunk_ok_iff within] at chunks
  rw [← chunks]
  constructor
  · rintro ⟨css, h⟩
    obtain ⟨cs, read, -⟩ := bind_eq_ok.mp h
    exact ⟨cs, read⟩
  · rintro ⟨cs, read⟩
    exact ⟨_, bind_eq_ok.mpr ⟨cs, read, rfl⟩⟩

theorem failsAs_render {P : Failure → Prop} {precision : Int} (spelled : Failure.AdmitsSpelling P precision)
    (style : Style) (nodes : List Node) : FailsAs P (render style precision nodes) := by
  have lines : ∀ depth n, FailsAs P (Render.declaration style precision depth n) := by
    intro depth n
    cases n with
    | property name offset value =>
      exact (value.failsAs_css spelled _).bind fun _ _ => failsAs_ok _
    | comment | rule => exact failsAs_ok _
  refine FailsAs.bind (failsAs_mapM fun n _ => ?_) fun _ _ => failsAs_ok _
  cases n with
  | rule selectors children depth =>
    exact (failsAs_mapM fun child _ => lines depth child).bind fun _ _ => failsAs_ok _
  | comment | property => exact failsAs_ok _

theorem unwritable_render {precision : Int} (within : precision ≤ Binary64.mostPlaces) (style : Style)
    (nodes : List Node) : FailsAs Failure.IsUnwritable (render style precision nodes) :=
  failsAs_render (Failure.admitsSpelling_isUnwritable within) style nodes

end Stylesheet

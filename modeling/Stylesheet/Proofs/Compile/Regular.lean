import Stylesheet.File
import Stylesheet.Proofs.Compile.Stages
import Stylesheet.Proofs.Node.Faults
import Stylesheet.Proofs.Statement.Errors

/-! When a compilation gives css or a compile error and nothing else. It does so
unless its mixins have no end, a number that is not finite has to be converted, or
the bytes of its file are no text; and no other failure exists. -/
namespace Stylesheet

/-- Css, or a compile error. -/
def Regular (result : Except Failure Text) : Prop :=
  FailsAs (fun failure => ∃ cause offset, failure = .error cause offset) result

theorem Failure.IsSyntax.isError {failure : Failure} (h : failure.IsSyntax) :
    ∃ cause offset, failure = .error cause offset := by
  cases failure with
  | error cause offset => exact ⟨cause, offset, rfl⟩
  | _ => exact h.elim

/-- No expansion is endless, and no number that is not finite has to be converted:
none while resolving, and none in the value of a property. -/
def Completes (precision : Int) (source : Text) : Prop :=
  ∀ ss, (parse source).result = .ok ss →
    (resolve (Scope.empty precision) ss).result ≠ .error .endless ∧
      (∀ fault, (resolve (Scope.empty precision) ss).result ≠ .error (.number fault)) ∧
      ∀ nodes, (resolve (Scope.empty precision) ss).result = .ok nodes →
        ∀ n ∈ Node.properties nodes, n.spells precision = true

section

variable {precision : Int} (within : precision ≤ Binary64.mostPlaces)

include within

/-- A compilation fails with a compile error, at a number that is not finite, or
without end. -/
theorem compile_expected (source : Text) (style : Style) :
    FailsAs Failure.IsExpected (compile source style precision).result := by
  rw [compile_result]
  refine FailsAs.bind ?_ fun ss _ => FailsAs.bind ?_ fun nodes _ => ?_
  · intro failure failed
    obtain ⟨cause, offset, rfl⟩ := (parse_error failed).isError
    exact .inl trivial
  · have empty : (Scope.empty precision).precision ≤ Binary64.mostPlaces := within
    exact expected_resolve empty ss
  · exact (unwritable_render within style _).mono fun _ unwritable => .inl unwritable.isOrdinary

/-- After resolution only a value without a spelling is left to fail. -/
theorem render_regular_iff {source : Text} {ss : List Statement} {nodes : List Node} (style : Style)
    (parsed : (parse source).result = .ok ss)
    (resolved : (resolve (Scope.empty precision) ss).result = .ok nodes) :
    Regular (render style precision (flatten nodes)) ↔
      ∀ n ∈ Node.properties nodes, n.spells precision = true := by
  have flat := (flat_of_resolved parsed resolved).2
  have spelled : (∃ css, render style precision (flatten nodes) = .ok css) ↔
      ∀ n ∈ Node.properties nodes, n.spells precision = true := by
    rw [render_ok_iff within]
    simp only [← (flatten_properties nodes).mem_iff, Node.properties_of_isFlat flat, List.mem_flatMap,
      List.mem_filter]
    constructor
    · rintro each n ⟨rule, member, child, -⟩
      exact each rule member n child
    · intro each rule member child inside
      cases child with
      | property name offset value => exact each _ ⟨rule, member, inside, rfl⟩
      | _ => rfl
  rw [← spelled]
  constructor
  · intro regular
    cases rendered : render style precision (flatten nodes) with
    | ok css => exact ⟨css, rfl⟩
    | error failure =>
      obtain ⟨cause, offset, rfl⟩ := regular failure rendered
      exact (unwritable_render within style _ _ rendered).elim
  · rintro ⟨css, rendered⟩
    rw [rendered]
    exact failsAs_ok css

/-- A compilation is regular in every style or in none. -/
theorem regular_iff_completes (source : Text) (style : Style) :
    Regular (compile source style precision).result ↔ Completes precision source := by
  rw [compile_result, Completes]
  cases parsed : (parse source).result with
  | error failure => exact ⟨fun _ => nofun, fun _ => failsAs_error (parse_error parsed).isError⟩
  | ok ss =>
    simp only [Except.ok.injEq, forall_eq']
    change Regular ((resolve (Scope.empty precision) ss).result >>= _) ↔ _
    cases resolved : (resolve (Scope.empty precision) ss).result with
    | ok nodes =>
      simp only [Except.ok.injEq, forall_eq']
      refine (render_regular_iff within style parsed resolved).trans ⟨fun h => ?_, fun h => h.2.2⟩
      exact ⟨nofun, nofun, h⟩
    | error failure =>
      constructor
      · intro regular
        obtain ⟨cause, offset, rfl⟩ := regular failure rfl
        exact ⟨nofun, nofun, nofun⟩
      · rintro ⟨ends, converts, -⟩
        refine failsAs_error ?_
        have empty : (Scope.empty precision).precision ≤ Binary64.mostPlaces := within
        rcases expected_resolve empty ss failure resolved with ordinary | rfl
        · cases failure with
          | error cause offset => exact ⟨cause, offset, rfl⟩
          | number fault => exact absurd rfl (converts fault)
          | _ => exact ordinary.elim
        · exact absurd rfl ends

end

theorem failsAs_ofName (name : Text) :
    FailsAs (fun failure => ∃ cause offset, failure = .error cause offset) (Style.ofName name) := by
  unfold Style.ofName
  split
  · exact failsAs_ok _
  · exact failsAs_error ⟨_, _, rfl⟩

/-- The source of a file is read, or there is a compile error, unless the path has a
nul in it or the bytes are no text. -/
theorem sourceOf_regular_iff (path : Text) (contents : Except PathFault ByteArray) :
    Regular (sourceOf path contents) ↔
      path.hasNul = false ∧ ∀ bytes, contents = .ok bytes → ∃ source, Text.ofBytes? bytes = some source := by
  unfold sourceOf
  split
  · next nul =>
    refine ⟨fun regular => ?_, fun h => ?_⟩
    · obtain ⟨_, _, h⟩ := regular .nul rfl
      cases h
    · exact absurd nul (by simp [h.1])
  · next clean =>
    rw [Bool.not_eq_true] at clean
    cases contents with
    | error fault => exact ⟨fun _ => ⟨clean, nofun⟩, fun _ => failsAs_error ⟨_, _, rfl⟩⟩
    | ok bytes =>
      simp only [Except.ok.injEq, forall_eq', clean, true_and]
      cases text : Text.ofBytes? bytes with
      | some source => exact ⟨fun _ => ⟨source, rfl⟩, fun _ => failsAs_ok source⟩
      | none =>
        refine ⟨fun regular => ?_, nofun⟩
        obtain ⟨_, _, h⟩ := regular .undecodable rfl
        cases h

theorem sourceOf_ok_iff {path source : Text} {contents : Except PathFault ByteArray} :
    sourceOf path contents = .ok source ↔
      path.hasNul = false ∧ ∃ bytes, contents = .ok bytes ∧ Text.ofBytes? bytes = some source := by
  unfold sourceOf
  split
  · next nul => simp [nul]
  · next clean =>
    rw [Bool.not_eq_true] at clean
    cases contents with
    | error fault => simp
    | ok bytes => cases text : Text.ofBytes? bytes <;> simp [clean, text]

/-- Compilation of a file is regular if reading it is and, where the style has a name,
the compilation of its source. -/
theorem compileFile_regular_iff (t : FileTree) (path name : Text) (precision : Int) :
    Regular (compileFile t path name precision) ↔
      Regular (sourceOf path (t.read path)) ∧
        ∀ source style, sourceOf path (t.read path) = .ok source → Style.ofName name = .ok style →
          Regular (compile source style precision).result := by
  have styles := failsAs_ofName name
  refine failsAs_bind_iff.trans (and_congr_right fun _ => ?_)
  constructor
  · intro whole source style read named
    exact (failsAs_bind_iff.mp (whole source read)).2 style named
  · intro each source read
    exact styles.bind fun style named => each source style read named

/-- A source with a number too large for any finite one, which is to be added to. -/
def overflowing : Text := "a \x7b b: ".toList ++ List.replicate 309 '9' ++ " + 1; \x7d".toList

theorem compile_overflowing : (compile overflowing .expanded 5).result = .error (.number .overflow) :=
  eq_error_of_failure? (by decide +kernel)

/-- A compilation gives css or a compile error exactly if its mixins come to an end and
no number that is not finite is converted, and it knows no other failures than these.
For a file the path must also be free of nuls, and its bytes a text. -/
theorem failures_regular_iff {precision : Int} (within : precision ≤ Binary64.mostPlaces) :
    (∀ source style, Regular (compile source style precision).result ↔ Completes precision source) ∧
      (∀ source style, FailsAs Failure.IsExpected (compile source style precision).result) ∧
      ∀ t path name, Regular (compileFile t path name precision) ↔
        path.hasNul = false ∧ ∀ bytes, t.read path = .ok bytes →
          ∃ source, Text.ofBytes? bytes = some source ∧
            ∀ style, Style.ofName name = .ok style → Completes precision source := by
  refine ⟨regular_iff_completes within, compile_expected within, fun t path name => ?_⟩
  rw [compileFile_regular_iff, sourceOf_regular_iff, and_assoc]
  refine and_congr_right fun clean => ?_
  constructor
  · rintro ⟨text, compiles⟩ bytes found
    obtain ⟨source, decoded⟩ := text bytes found
    refine ⟨source, decoded, fun style named => (regular_iff_completes within source style).mp ?_⟩
    exact compiles source style (sourceOf_ok_iff.mpr ⟨clean, bytes, found, decoded⟩) named
  · intro each
    refine ⟨fun bytes found => (each bytes found).imp fun _ h => h.1, ?_⟩
    intro source style read named
    obtain ⟨-, bytes, found, decoded⟩ := sourceOf_ok_iff.mp read
    obtain ⟨source', decoded', completes⟩ := each bytes found
    obtain rfl : source' = source := Option.some.inj (decoded'.symm.trans decoded)
    exact (regular_iff_completes within _ style).mpr (completes style named)

theorem failures_regular_five : (5 : Int) ≤ Binary64.mostPlaces ∧
    Completes 5 "a \x7b b: 1 + 1; \x7d".toList ∧ ¬Completes 5 overflowing := by
  have within : (5 : Int) ≤ Binary64.mostPlaces := by decide
  obtain ⟨regular_iff, -, -⟩ := failures_regular_iff within
  have compiled := eq_ok_of_toOption (by decide +kernel :
    (compile "a \x7b b: 1 + 1; \x7d".toList .nested 5).result.toOption = some "a \x7b\n  b: 2; \x7d\n".toList)
  refine ⟨within, (regular_iff _ .nested).mp ?_, fun completes => ?_⟩
  · rw [compiled]
    exact failsAs_ok _
  · obtain ⟨_, _, h⟩ := (regular_iff _ .expanded).mpr completes _ compile_overflowing
    cases h

/-- Not every failure is a compile error. -/
theorem failures_not_regular :
    ¬Regular (compile overflowing .expanded 5).result ∧
      ¬Regular (compileFile (.ofEntries [] [([['a']], ⟨#[0xff]⟩)]) ['a'] "expanded".toList 5) := by
  have undecodable : compileFile (.ofEntries [] [([['a']], ⟨#[0xff]⟩)]) ['a'] "expanded".toList 5 =
      .error .undecodable := eq_error_of_failure? (by decide +kernel)
  constructor
  · intro regular
    obtain ⟨_, _, h⟩ := regular _ compile_overflowing
    cases h
  · intro regular
    obtain ⟨_, _, h⟩ := regular _ undecodable
    cases h

end Stylesheet

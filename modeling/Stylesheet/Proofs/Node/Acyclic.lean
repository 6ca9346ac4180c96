import Mathlib.Data.Finset.Card
import Mathlib.Data.Finset.Dedup
import Stylesheet.Proofs.Node.Invariant
import Stylesheet.Proofs.Node.Points

/-! Mixins that do not lead back to themselves. A name leads to the names that the bodies
declared under it call. If no name leads back to itself, then along nested calls the number
of declared names still to be reached drops, whichever declaration each call finds; so calls
nest at most as deep as there are mixins, and resolution ends. -/
namespace Stylesheet

namespace Statement

/-- Under the first name the statements declare, at any place, a mixin whose body calls the
second. -/
def PointsTo (ss : List Statement) (m n : Text) : Prop :=
  ∃ parameters body, .mixin m parameters body ∈ nodesAll ss ∧ n ∈ callsAll body

def Acyclic (ss : List Statement) : Prop := ∀ m, ¬Relation.TransGen (PointsTo ss) m m

def declares? : Statement → Option Text
  | .mixin name _ _ => some name
  | _ => none

def declaredAll (ss : List Statement) : List Text := (nodesAll ss).filterMap declares?

theorem declaredAll_cons (s : Statement) (ss : List Statement) :
    declaredAll (s :: ss) = s.nodes.filterMap declares? ++ declaredAll ss := by
  rw [declaredAll, nodesAll, List.filterMap_append, declaredAll]

mutual
theorem length_declared (s : Statement) : (s.nodes.filterMap declares?).length = s.mixinCount := by
  cases s with
  | rule selectors body depth =>
    rw [nodes, mixinCount, ← length_declaredAll body]
    rfl
  | mixin name parameters body =>
    rw [nodes, mixinCount, ← length_declaredAll body]
    rfl
  | _ => rfl

theorem length_declaredAll (ss : List Statement) : (declaredAll ss).length = mixinCountAll ss := by
  cases ss with
  | nil => rfl
  | cons s ss => rw [declaredAll_cons, List.length_append, mixinCountAll, length_declared s, length_declaredAll ss]
end

variable {ss : List Statement} {m n : Text}

theorem PointsTo.declared (points : PointsTo ss m n) : m ∈ declaredAll ss := by
  obtain ⟨parameters, body, declared, -⟩ := points
  exact List.mem_filterMap.mpr ⟨_, declared, rfl⟩

/-- Without mixins nothing leads anywhere. -/
theorem acyclic_of_mixinCountAll (none : mixinCountAll ss = 0) : Acyclic ss := by
  rintro m cycle
  obtain ⟨n, points, -⟩ := Relation.TransGen.head'_iff.mp cycle
  have declared := points.declared
  rw [← length_declaredAll, List.length_eq_zero_iff] at none
  rw [none] at declared
  cases declared

open Classical in
/-- The declared names that a name leads to, itself included. -/
noncomputable def reach (ss : List Statement) (n : Text) : Finset Text :=
  (declaredAll ss).toFinset.filter (Relation.ReflTransGen (PointsTo ss) n)

theorem mem_reach {k : Text} : k ∈ reach ss n ↔ k ∈ declaredAll ss ∧ Relation.ReflTransGen (PointsTo ss) n k := by
  classical
  rw [reach, Finset.mem_filter, List.mem_toFinset]

theorem card_reach_le (ss : List Statement) (n : Text) : (reach ss n).card ≤ mixinCountAll ss := by
  classical
  calc (reach ss n).card ≤ (declaredAll ss).toFinset.card := Finset.card_filter_le _ _
    _ ≤ (declaredAll ss).length := List.toFinset_card_le _
    _ = mixinCountAll ss := length_declaredAll ss

/-- Along every call there are fewer names left to reach. -/
theorem card_reach_lt (acyclic : Acyclic ss) (points : PointsTo ss m n) : (reach ss n).card < (reach ss m).card := by
  apply Finset.card_lt_card
  constructor
  · intro k member
    obtain ⟨declared, leads⟩ := mem_reach.mp member
    exact mem_reach.mpr ⟨declared, .head points leads⟩
  -- The name that calls is no longer reached behind the call, or it would lead back to itself.
  · intro contains
    have own : m ∈ reach ss m := mem_reach.mpr ⟨points.declared, .refl⟩
    have back := (mem_reach.mp (contains own)).2
    exact acyclic m (.head' points back)

end Statement

open Statement

def Failure.IsImmediate : Failure → Prop
  | .error .. | .number _ => True
  | _ => False

theorem Failure.admits_isImmediate (precision : Int) : Admits IsImmediate (fun _ => True) precision where
  error _ _ := trivial
  nowhere := trivial
  spelled _ _ _ := trivial
  shown _ _ _ := trivial
  converted _ := trivial

namespace Resolve

variable {ss : List Statement}

/-- A call is expanded within a limit above the number of names that it leads to. -/
theorem ensures_expansion_of_acyclic (acyclic : Acyclic ss) {precision : Int} {limit : Nat} {scope : Scope}
    {inRule : Bool} {name : Text} {arguments : List Argument} {offset : Option Int}
    (deep : (reach ss name).card < limit) (arises : scope.Arises ss precision) :
    Traced.Ensures Failure.IsImmediate (fun result => result.2.Arises ss precision)
      (expansion limit scope inRule name arguments offset) := by
  have keeps := invariant_arises (Failure.admits_isImmediate precision) ss
  -- The measure is of names, since each call expands whichever declaration its scope holds.
  induction limit generalizing scope inRule name arguments offset with
  | zero => omega
  | succ limit ih =>
    refine ensures_expansion_succ keeps (fun _ _ => placed_anywhere _) (fun mixin found inner arises' => ?_)
      (placed_anywhere _) arises
    have declared := arises.knows.mixin? found
    refine ensures_statements keeps mixin.body (fun _ _ => placed_anywhere _) ?_ ?_ inRule arises'
    · intro n called scope inRule arguments offset arises _
      have points : PointsTo ss name n := ⟨mixin.parameters, mixin.body, declared, called⟩
      have fewer := card_reach_lt acyclic points
      exact ih (by omega) arises
    · intro name' parameters body member
      exact body_subset declared member

/-- Statements are resolved within a limit above the number of their mixins. -/
theorem ensures_statements_of_acyclic (acyclic : Acyclic ss) {limit : Nat} (deep : mixinCountAll ss < limit)
    (precision : Int) :
    Traced.Ensures Failure.IsImmediate (fun result => result.2.Arises ss precision)
      (statements (expansion limit) (Scope.empty precision) false ss) := by
  refine ensures_statements (invariant_arises (Failure.admits_isImmediate precision) ss) ss
    (fun _ _ => placed_anywhere _) ?_ (fun _ _ _ member => member) false (Scope.arises_empty ss precision)
  intro n _ scope inRule arguments offset arises _
  have most := card_reach_le ss n
  exact ensures_expansion_of_acyclic acyclic (by omega) arises

/-- All limits above the number of mixins come to the same. -/
theorem statements_of_acyclic (acyclic : Acyclic ss) {limit : Nat} (deep : mixinCountAll ss < limit)
    (precision : Int) :
    (statements (expansion limit) (Scope.empty precision) false ss).result =
      (statements (expansion (mixinCountAll ss + 1)) (Scope.empty precision) false ss).result := by
  have kept : (expansion (mixinCountAll ss + 1)).Kept (· ≠ .endless) (expansion limit) :=
    expansion_kept (fun other => other rfl) deep
  apply (statements_keeps kept ss (Scope.empty precision) false).eq
  intro failed
  exact (ensures_statements_of_acyclic acyclic (Nat.lt_succ_self _) precision).1 _ failed

end Resolve

theorem resolve_result (scope : Scope) (ss : List Statement) :
    (resolve scope ss).result =
      (Resolve.statements (Resolve.expansion (Resolve.expansionLimit ss)) scope false ss).result.map Prod.fst := by
  simp only [resolve, Traced.result_bind]
  cases (Resolve.statements (Resolve.expansion (Resolve.expansionLimit ss)) scope false ss).result <;> rfl

/-- Where no mixin leads back to itself, resolution is not endless. It comes to the same
with every limit above the number of mixins, and is a list of nodes or a compile error
unless a number without a form is converted. -/
theorem resolve_of_acyclic {ss : List Statement} (acyclic : Acyclic ss) (precision : Int) :
    (resolve (Scope.empty precision) ss).result ≠ .error .endless ∧
    (∀ limit, mixinCountAll ss < limit →
      (Resolve.statements (Resolve.expansion limit) (Scope.empty precision) false ss).result.map Prod.fst =
        (resolve (Scope.empty precision) ss).result) ∧
    ((∃ nodes, (resolve (Scope.empty precision) ss).result = .ok nodes) ∨
      (∃ cause offset, (resolve (Scope.empty precision) ss).result = .error (.error cause offset)) ∨
      ∃ fault, (resolve (Scope.empty precision) ss).result = .error (.number fault)) := by
  have within : mixinCountAll ss < Resolve.expansionLimit ss := by
    unfold Resolve.expansionLimit
    omega
  have immediate : FailsAs Failure.IsImmediate (resolve (Scope.empty precision) ss).result := by
    rw [resolve_result]
    intro failure failed
    apply (Resolve.ensures_statements_of_acyclic acyclic within precision).1
    cases ran : (Resolve.statements (Resolve.expansion (Resolve.expansionLimit ss)) (Scope.empty precision) false
        ss).result with
    | ok result => simp [ran, Except.map] at failed
    | error failure' => simpa [ran, Except.map] using failed
  refine ⟨fun endless => immediate _ endless, fun limit deep => ?_, ?_⟩
  · rw [resolve_result, Resolve.statements_of_acyclic acyclic deep, Resolve.statements_of_acyclic acyclic within]
  · cases ran : (resolve (Scope.empty precision) ss).result with
    | ok nodes => exact .inl ⟨nodes, rfl⟩
    | error failure =>
      have known := immediate failure ran
      cases failure with
      | error cause offset => exact .inr (.inl ⟨cause, offset, rfl⟩)
      | number fault => exact .inr (.inr ⟨fault, rfl⟩)
      | _ => exact known.elim

/-- A mixin that declares another in its body and calls it, and a rule that calls the first. -/
def nestedMixins : List Statement :=
  [.mixin "a".toList []
      [.mixin "b".toList [] [.property "c".toList none [⟨.ident "d".toList, none⟩]], .call "b".toList [] none],
    .rule ["e".toList] [.call "a".toList [] none] 0]

theorem resolve_nestedMixins :
    Acyclic nestedMixins ∧ (resolve (Scope.empty 5) nestedMixins).result ≠ .error .endless ∧
      (resolve (Scope.empty 5) nestedMixins).result.isOk = true := by
  have points (m n : Text) (h : PointsTo nestedMixins m n) : m = "a".toList ∧ n = "b".toList := by
    obtain ⟨parameters, body, declared, called⟩ := h
    simp only [nestedMixins, nodesAll, nodes, List.append_nil, List.nil_append, List.cons_append, List.mem_cons,
      List.not_mem_nil, or_false, Statement.mixin.injEq, reduceCtorEq] at declared
    rcases declared with ⟨rfl, -, rfl⟩ | ⟨rfl, -, rfl⟩
    · exact ⟨rfl, by simpa [callsAll, calls] using called⟩
    · simp [callsAll, calls] at called
  have acyclic : Acyclic nestedMixins := by
    intro m cycle
    obtain ⟨n, first, -⟩ := Relation.TransGen.head'_iff.mp cycle
    obtain ⟨k, -, last⟩ := Relation.TransGen.tail'_iff.mp cycle
    have same := (points m n first).1.symm.trans (points k m last).2
    simp at same
  exact ⟨acyclic, (resolve_of_acyclic acyclic 5).1, by decide +kernel⟩

def infiniteSource : Text := "$x: ".toList ++ List.replicate 309 '9' ++ "; a \x7b b: calc($x); \x7d".toList

/-- Without any mixins, resolution can fail at a number that is not finite. -/
theorem resolve_infinite_number :
    ∃ ss, (parse infiniteSource).result = .ok ss ∧ Acyclic ss ∧
      (resolve (Scope.empty 5) ss).result = .error (.number .overflow) := by
  have parsed : ((parse infiniteSource).result.map mixinCountAll).toOption = some 0 := by decide +kernel
  have failed : failure? ((parse infiniteSource).result >>= fun ss => (resolve (Scope.empty 5) ss).result) =
      some (.number .overflow) := by decide +kernel
  cases ran : (parse infiniteSource).result with
  | error failure => simp [ran, Except.map, Except.toOption] at parsed
  | ok ss =>
    simp only [ran, Except.map, Except.toOption, Option.some.injEq] at parsed
    rw [ran] at failed
    exact ⟨ss, rfl, acyclic_of_mixinCountAll parsed, eq_error_of_failure? failed⟩

end Stylesheet

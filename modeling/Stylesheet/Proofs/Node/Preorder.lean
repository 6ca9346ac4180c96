import Stylesheet.Proofs.Node.Plain
import Stylesheet.Proofs.Node.Shape

/-! Flattening, rule by rule. Every rule has its place: the rules around it, and its turn
when the nodes are read from the top. Flat nodes are the rules in turn, less those without
declarations of their own. Each has the declarations right inside it, the selectors of its
place, and as its depth the number of rules around it that are kept. -/
namespace Stylesheet

namespace Node

def selectors : Node → List Text
  | rule selectors _ _ => selectors
  | _ => []

def declarations (n : Node) : List Node := n.children.filter isDeclaration

/-- A rule at depth zero; any other node as it is. -/
def outermost : Node → Node
  | rule selectors children _ => .rule selectors children 0
  | n => n

def declared (ns : List Node) : List (List Node) := (ns.map declarations).filter (!·.isEmpty)

/-- The selectors of rules nested in each other, the innermost first. -/
def nestedSelectors : List Node → List Text
  | [] => []
  | own :: around => Selector.combine (nestedSelectors around) own.selectors

end Node

/-- A rule in its place, with the rules around it, the nearest first. -/
structure PlacedRule where
  around : List Node
  rule : Node

namespace PlacedRule

def selectors (p : PlacedRule) : List Text := Node.nestedSelectors (p.rule :: p.around)

def flat (p : PlacedRule) : Node :=
  .rule p.selectors p.rule.declarations (p.around.countP Node.hasDeclarations)

end PlacedRule

namespace Node

mutual
/-- A rule and the rules inside it, each before those inside it; none of any other node. -/
def placed (around : List Node) : Node → List PlacedRule
  | n@(.rule _ children _) => ⟨around, n⟩ :: placedAll (n :: around) children
  | _ => []

def placedAll (around : List Node) : List Node → List PlacedRule
  | [] => []
  | n :: rest => placed around n ++ placedAll around rest
end

theorem isEmpty_declarations (n : Node) : n.declarations.isEmpty = !n.hasDeclarations := by
  rw [declarations, hasDeclarations, Bool.eq_iff_iff]
  simp

@[simp] theorem declared_append (ns more : List Node) : declared (ns ++ more) = declared ns ++ declared more := by
  simp [declared]

/-- Only rules declare anything. -/
theorem declared_filter_isRule (ns : List Node) : declared (ns.filter isRule) = declared ns := by
  induction ns with
  | nil => rfl
  | cons n ns ih =>
    cases n with
    | rule selectors children depth =>
      rw [List.filter_cons_of_pos (by rfl), ← List.singleton_append, declared_append, ih, ← declared_append,
        List.singleton_append]
    | property | comment => exact ih

mutual
theorem placed_rules (around : List Node) (n : Node) :
    (n.placed around).map (·.rule) = n.nodes.filter isRule := by
  cases n with
  | rule selectors children depth =>
    rw [placed, nodes, List.map_cons, List.filter_cons_of_pos (by rfl), placedAll_rules]
  | property | comment => rfl

/-- All rules are in a place, in the order in which they are read. -/
theorem placedAll_rules (around ns : List Node) :
    (placedAll around ns).map (·.rule) = (nodesAll ns).filter isRule := by
  cases ns with
  | nil => rfl
  | cons n ns =>
    rw [placedAll, nodesAll, List.map_append, List.filter_append, placed_rules, placedAll_rules]
end

mutual
theorem around_of_placed {P : Node → Prop} {around : List Node} {n : Node}
    (inside : ∀ m ∈ n.nodes, m.isRule = true → P m) (outside : ∀ a ∈ around, P a) :
    ∀ p ∈ n.placed around, ∀ a ∈ p.around, P a := by
  cases n with
  | rule selectors children depth =>
    have here : P (.rule selectors children depth) := inside _ List.mem_cons_self rfl
    intro p member
    rcases List.mem_cons.mp member with rfl | member
    · exact outside
    · refine around_of_placedAll (fun m later => ?_) (List.forall_mem_cons.mpr ⟨here, outside⟩) p member
      exact inside m (List.mem_cons_of_mem _ later)
  | property | comment => simp [placed]

/-- What holds of all rules holds of those around a rule. -/
theorem around_of_placedAll {P : Node → Prop} {around ns : List Node}
    (inside : ∀ m ∈ nodesAll ns, m.isRule = true → P m) (outside : ∀ a ∈ around, P a) :
    ∀ p ∈ placedAll around ns, ∀ a ∈ p.around, P a := by
  cases ns with
  | nil => simp [placedAll]
  | cons n ns =>
    intro p member
    rw [placedAll] at member
    rcases List.mem_append.mp member with member | member
    · exact around_of_placed (fun m later => inside m (List.mem_append_left _ later)) outside p member
    · exact around_of_placedAll (fun m later => inside m (List.mem_append_right _ later)) outside p member
end

end Node

namespace Flatten

mutual
theorem rules_eq_placed (around : List Node) (n : Node) :
    rules (Node.nestedSelectors around) (around.countP Node.hasDeclarations) n =
      ((n.placed around).filter (·.rule.hasDeclarations)).map PlacedRule.flat := by
  cases n with
  | rule selectors children depth =>
    have own := Node.isEmpty_declarations (.rule selectors children depth)
    have inside := rulesAll_eq_placed (.rule selectors children depth :: around) children
    rw [rules, Node.placed]
    change (if (Node.declarations (.rule selectors children depth)).isEmpty = true then _ else _) = _
    cases declares : (Node.rule selectors children depth).hasDeclarations with
    | false =>
      rw [List.countP_cons_of_neg (by simp [declares])] at inside
      rw [own, declares, List.filter_cons_of_neg (by simp [declares])]
      exact inside
    | true =>
      rw [List.countP_cons_of_pos (by simp [declares])] at inside
      rw [own, declares, List.filter_cons_of_pos (by simp [declares])]
      exact congrArg (PlacedRule.flat ⟨around, .rule selectors children depth⟩ :: ·) inside
  | property | comment => rfl

/-- Below rules nested in each other, the plain rules of nodes are those in their places. -/
theorem rulesAll_eq_placed (around ns : List Node) :
    rulesAll (Node.nestedSelectors around) (around.countP Node.hasDeclarations) ns =
      ((Node.placedAll around ns).filter (·.rule.hasDeclarations)).map PlacedRule.flat := by
  cases ns with
  | nil => rfl
  | cons n ns =>
    rw [rulesAll, Node.placedAll, List.filter_append, List.map_append, rules_eq_placed, rulesAll_eq_placed]
end

end Flatten

namespace Selector

/-- Each child selector below each parent: the parents in turn, and the children in turn
below each. -/
theorem combine_entry {parents : List Text} (some : parents ≠ []) (children : List Text) :
    (combine parents children).length = parents.length * children.length ∧
      ∀ i j parent child, parents[i]? = .some parent → children[j]? = .some child →
        (combine parents children)[i * children.length + j]? = .some (below parent child) := by
  rw [combine, if_neg (by simpa using some)]
  constructor
  · simp
  · clear some
    induction parents with
    | nil => simp
    | cons first others ih =>
      intro i j parent child atI atJ
      have bound : j < children.length := (List.getElem?_eq_some_iff.mp atJ).1
      rw [List.flatMap_cons]
      cases i with
      | zero =>
        obtain rfl : first = parent := by simpa using atI
        rw [List.getElem?_append_left (by simpa using bound)]
        simp [atJ]
      | succ i =>
        have later : children.length ≤ (i + 1) * children.length + j := by
          rw [Nat.succ_mul]
          omega
        rw [List.getElem?_append_right (by simpa using later), List.length_map,
          show (i + 1) * children.length + j - children.length = i * children.length + j by rw [Nat.succ_mul]; omega]
        exact ih i j parent child (by simpa using atI) atJ

end Selector

/-- The nodes with every rule replaced by the rules in it that declare something, each in
its turn. -/
theorem flatten_eq_flatMap (nodes : List Node) :
    flatten nodes = nodes.flatMap fun n =>
      if n.isRule then ((n.placed []).filter (·.rule.hasDeclarations)).map PlacedRule.flat else [n] := by
  have rule := Flatten.rules_eq_placed []
  rw [flatten]
  apply List.flatMap_congr
  intro n _
  split
  · exact rule n
  · rfl

/-- Flat nodes are flattened to themselves, at depth zero. -/
theorem flatten_flatten (nodes : List Node) : flatten (flatten nodes) = (flatten nodes).map Node.outermost := by
  have flat : ∀ m ∈ flatten nodes, flatten [m] = [m.outermost] := by
    intro m member
    rw [flatten_eq_flatMap, List.mem_flatMap] at member
    obtain ⟨n, -, member⟩ := member
    split at member
    · obtain ⟨p, kept, rfl⟩ := List.mem_map.mp member
      have some := p.rule.isEmpty_declarations
      rw [(List.mem_filter.mp kept).2] at some
      exact Node.flatten_rule _ (List.isEmpty_eq_false_iff.mp some) (fun d own => (List.mem_filter.mp own).2) _
    · next other =>
      obtain rfl := List.mem_singleton.mp member
      cases m with
      | rule => exact absurd rfl other
      | property | comment => rfl
  rw [List.map_eq_flatMap]
  change List.flatMap _ (flatten nodes) = _
  apply List.flatMap_congr
  intro m member
  exact (List.flatMap_singleton ..).symm.trans (flat m member)

/-- Of rules in their places, those are kept that declare something. -/
theorem declared_map_flat (ps : List PlacedRule) :
    Node.declared ((ps.filter (·.rule.hasDeclarations)).map PlacedRule.flat) = Node.declared (ps.map (·.rule)) := by
  have own (p : PlacedRule) : p.flat.declarations = p.rule.declarations := by
    simp [PlacedRule.flat, Node.declarations, Node.children]
  simp only [Node.declared, List.map_map, List.filter_map, List.filter_filter, Function.comp_def, own,
    Node.isEmpty_declarations, Bool.not_not, Bool.and_self]

/-- Rule by rule, what is declared is what is right inside the rules. -/
theorem declared_flatten (nodes : List Node) : Node.declared (flatten nodes) = Node.declared (Node.nodesAll nodes) := by
  rw [flatten_eq_flatMap]
  induction nodes with
  | nil => rfl
  | cons n nodes ih =>
    rw [List.flatMap_cons, Node.nodesAll, Node.declared_append, Node.declared_append, ih]
    congr 1
    split
    · rw [declared_map_flat, Node.placed_rules, Node.declared_filter_isRule]
    · next other =>
      cases n with
      | rule => exact absurd rfl other
      | property | comment => rfl

/-- Where every rule has a selector, flattening leaves what is no rule in its place, and
puts in the place of a rule all rules of it that have declarations, each in its turn. Such
a rule has the selectors that its own make with those of the rule right around it, its own
declarations, and as depth the number of rules around it that have declarations. What is
declared is the same, rule by rule. Flattened once more, only depths change. -/
theorem flatten_placed {nodes : List Node} (heads : ∀ n ∈ Node.nodesAll nodes, n.HasHead) :
    flatten nodes = nodes.flatMap (fun n =>
      if n.isRule then ((n.placed []).filter (·.rule.hasDeclarations)).map fun p =>
        .rule p.selectors p.rule.declarations (p.around.countP Node.hasDeclarations)
      else [n]) ∧
    (∀ p ∈ Node.placedAll [] nodes,
      (p.around = [] → p.selectors = p.rule.selectors) ∧
      ∀ parent around, p.around = parent :: around →
        p.selectors.length = (PlacedRule.mk around parent).selectors.length * p.rule.selectors.length ∧
        ∀ i j outer own, (PlacedRule.mk around parent).selectors[i]? = some outer → p.rule.selectors[j]? = some own →
          p.selectors[i * p.rule.selectors.length + j]? =
            some (if '&' ∈ own then own.flatMap fun c => if c = '&' then outer else [c] else outer ++ ' ' :: own)) ∧
    Node.declared (flatten nodes) = Node.declared (Node.nodesAll nodes) ∧
    flatten (flatten nodes) = (flatten nodes).map Node.outermost := by
  refine ⟨flatten_eq_flatMap nodes, ?_, declared_flatten nodes, flatten_flatten nodes⟩
  have headed : ∀ n ∈ Node.nodesAll nodes, n.isRule = true → n.selectors ≠ [] := by
    intro n member isRule
    cases n with
    | rule => exact heads _ member
    | property | comment => cases isRule
  rintro ⟨around, rule⟩ member
  constructor
  · rintro rfl
    rfl
  · rintro parent around rfl
    have some := Node.around_of_placedAll headed (by simp) _ member parent List.mem_cons_self
    obtain ⟨length, entry⟩ := Selector.combine_entry (Selector.combine_ne_nil (Node.nestedSelectors around) some)
      rule.selectors
    refine ⟨length, fun i j outer own atI atJ => ?_⟩
    have found : (PlacedRule.mk (parent :: around) rule).selectors[i * rule.selectors.length + j]? =
        .some (Selector.below outer own) := entry i j outer own atI atJ
    simpa [Selector.below] using found

def listedSheet : List Node :=
  [.comment "/* x */".toList,
    .rule ["a".toList, "b".toList]
      [.rule ["&:c".toList, "d".toList]
        [.rule ["e".toList] [.comment "/* y */".toList] 2, .property "f".toList none (.text "g".toList)] 1] 0]

theorem flatten_listedSheet : (∀ n ∈ Node.nodesAll listedSheet, n.HasHead) ∧
    flatten (flatten listedSheet) = (flatten listedSheet).map Node.outermost ∧
    (flatten listedSheet).map Node.selectors =
      [[], ["a:c".toList, "a d".toList, "b:c".toList, "b d".toList],
        ["a:c e".toList, "a d e".toList, "b:c e".toList, "b d e".toList]] := by
  have heads : ∀ n ∈ Node.nodesAll listedSheet, n.HasHead := by
    simp [listedSheet, Node.nodesAll, Node.nodes, Node.HasHead]
  refine ⟨heads, (flatten_placed heads).2.2.2, ?_⟩
  rw [(flatten_placed heads).1]
  decide +kernel

end Stylesheet

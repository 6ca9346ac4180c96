import Stylesheet.Node.Flatten
import Stylesheet.Proofs.Node.Resolution
import Stylesheet.Proofs.Scope
import Stylesheet.Proofs.Statement.Items

/-! The shape of nodes from stage to stage. Resolution puts no property outside all
rules and gives every rule a selector; flattening leaves comments and plain rules,
and moves every property without losing or copying one. -/
namespace Stylesheet

namespace Scope

def EveryMixin (P : Mixin → Prop) (s : Scope) : Prop :=
  (∀ entry ∈ s.root.mixins, P entry.2) ∧ ∀ own ∈ s.own, ∀ entry ∈ own.mixins, P entry.2

variable {P : Mixin → Prop} {s s' inner : Scope}

theorem EveryMixin.each (every : s.EveryMixin P) : s.Each fun b => ∀ entry ∈ b.mixins, P entry.2 := every

theorem everyMixin_empty (precision : Int) : (empty precision).EveryMixin P := by
  simp [EveryMixin, empty]

theorem EveryMixin.mixin? {name : Text} {mixin : Mixin} (every : s.EveryMixin P)
    (found : s.mixin? name = some mixin) : P mixin := by
  rcases Option.or_eq_some_iff.mp found with here | ⟨-, root⟩
  · exact every.each.current _ (Table.mem_of_get? here)
  · exact every.1 _ (Table.mem_of_get? root)

theorem EveryMixin.child (every : s.EveryMixin P) : s.child.EveryMixin P := every.each.child

theorem EveryMixin.leave (every : s.EveryMixin P) (inside : inner.EveryMixin P) : (s.leave inner).EveryMixin P :=
  every.each.leave inside

theorem EveryMixin.declare {mixin : Mixin} (every : s.EveryMixin P) (new : P mixin) :
    (s.declare mixin).EveryMixin P :=
  every.each.update fun _ before => Table.forall_mem_insert before new

theorem EveryMixin.assign {name : Text} {value : Value} {isDefault isGlobal : Bool} (every : s.EveryMixin P)
    (assigned : (s.assign name value isDefault isGlobal).result = .ok s') : s'.EveryMixin P :=
  every.each.assign (fun _ before => before) assigned

theorem EveryMixin.bindArguments {mixin : Mixin} {arguments : List Argument} {offset : Option Int}
    (every : s.EveryMixin P) (bound : (Resolve.bindArguments mixin arguments offset s).result = .ok s') :
    s'.EveryMixin P :=
  Resolve.bindArguments_invariant (fun _ _ _ _ every assigned => every.assign assigned) every.child bound

end Scope

namespace Node

def isProperty : Node → Bool
  | property .. => true
  | _ => false

def HasHead : Node → Prop
  | .rule selectors _ _ => selectors ≠ []
  | _ => True

mutual
def nodes : Node → List Node
  | n@(.rule _ children _) => n :: nodesAll children
  | n => [n]

def nodesAll : List Node → List Node
  | [] => []
  | n :: rest => nodes n ++ nodesAll rest
end

@[simp] theorem nodesAll_append (ns more : List Node) : nodesAll (ns ++ more) = nodesAll ns ++ nodesAll more := by
  induction ns with
  | nil => rfl
  | cons n ns ih => rw [List.cons_append, nodesAll, nodesAll, ih, List.append_assoc]

def properties (ns : List Node) : List Node := (nodesAll ns).filter isProperty

end Node

namespace Resolves

variable {scope scope' : Scope} {inRule : Bool} {ss : List Statement} {nodes : List Node}

/-- Outside all rules no property is left. -/
theorem no_property (resolves : Resolves scope inRule ss nodes scope') (outside : inRule = false) :
    ∀ n ∈ nodes, n.isProperty = false := by
  induction resolves with
  | nil => simp
  | property => cases outside
  | assignment _ _ _ ih => exact ih outside
  | mixin _ ih => exact ih outside
  | call _ _ _ _ ih ih' =>
    intro n member
    rcases List.mem_append.mp member with member | member
    · exact ih outside n member
    · exact ih' outside n member
  | rule _ _ _ ih =>
    intro n member
    rcases List.mem_cons.mp member with rfl | member
    · rfl
    · exact ih outside n member
  | comment _ ih =>
    intro n member
    rcases List.mem_cons.mp member with rfl | member
    · rfl
    · exact ih outside n member

def HeadedMixin (mixin : Mixin) : Prop := ∀ s ∈ Statement.nodesAll mixin.body, s.HasHead

/-- Rules keep their selectors, those from the bodies of mixins too. -/
theorem hasHead (resolves : Resolves scope inRule ss nodes scope')
    (headed : ∀ s ∈ Statement.nodesAll ss, s.HasHead) (mixins : scope.EveryMixin HeadedMixin) :
    (∀ n ∈ Node.nodesAll nodes, n.HasHead) ∧ scope'.EveryMixin HeadedMixin := by
  induction resolves with
  | nil => exact ⟨by simp [Node.nodesAll], mixins⟩
  | assignment _ assigned _ ih =>
    exact ih (fun s member => headed s (List.mem_append_right _ member)) (mixins.assign assigned)
  | property _ _ ih =>
    obtain ⟨rest, mixins⟩ := ih (fun s member => headed s (List.mem_append_right _ member)) mixins
    refine ⟨?_, mixins⟩
    intro n member
    rcases List.mem_cons.mp member with rfl | member
    · trivial
    · exact rest n member
  | mixin _ ih =>
    have inside := fun s member => headed s (List.mem_append_left _ (List.mem_cons_of_mem _ member))
    exact ih (fun s member => headed s (List.mem_append_right _ member)) (mixins.declare inside)
  | call found bound _ _ ih ih' =>
    obtain ⟨expanded, inner⟩ := ih (mixins.mixin? found) (mixins.bindArguments bound)
    obtain ⟨rest, mixins⟩ := ih' (fun s member => headed s (List.mem_append_right _ member)) (mixins.leave inner)
    refine ⟨?_, mixins⟩
    rw [Node.nodesAll_append]
    intro n member
    rcases List.mem_append.mp member with member | member
    · exact expanded n member
    · exact rest n member
  | rule _ _ ih ih' =>
    obtain ⟨nested, inner⟩ := ih
      (fun s member => headed s (List.mem_append_left _ (List.mem_cons_of_mem _ member))) mixins.child
    obtain ⟨rest, mixins⟩ := ih' (fun s member => headed s (List.mem_append_right _ member)) (mixins.leave inner)
    refine ⟨?_, mixins⟩
    intro n member
    rcases List.mem_append.mp member with member | member
    · rcases List.mem_cons.mp member with rfl | member
      · exact headed _ (List.mem_append_left _ List.mem_cons_self)
      · exact nested n member
    · exact rest n member
  | comment _ ih =>
    obtain ⟨rest, mixins⟩ := ih (fun s member => headed s (List.mem_append_right _ member)) mixins
    refine ⟨?_, mixins⟩
    intro n member
    rcases List.mem_cons.mp member with rfl | member
    · trivial
    · exact rest n member

end Resolves

namespace Node

/-- A comment, or a rule of declarations only, with at least one of them and at least
one selector. -/
def IsFlat : Node → Prop
  | .rule selectors children _ => selectors ≠ [] ∧ children ≠ [] ∧ ∀ n ∈ children, n.isDeclaration = true
  | .comment _ => True
  | .property .. => False

theorem nodesAll_of_declarations {ns : List Node} (declarations : ∀ n ∈ ns, n.isDeclaration = true) :
    nodesAll ns = ns := by
  induction ns with
  | nil => rfl
  | cons n ns ih =>
    have first := declarations n List.mem_cons_self
    rw [nodesAll, ih fun n member => declarations n (List.mem_cons_of_mem _ member)]
    cases n with
    | rule => cases first
    | _ => rfl

theorem properties_append (ns more : List Node) : properties (ns ++ more) = properties ns ++ properties more := by
  rw [properties, nodesAll_append, List.filter_append]
  rfl

theorem properties_cons (n : Node) (ns : List Node) : properties (n :: ns) = properties [n] ++ properties ns :=
  properties_append [n] ns

theorem properties_rule (selectors : List Text) (children : List Node) (depth : Nat) :
    properties [.rule selectors children depth] = properties children := by
  simp [properties, nodesAll, nodes, isProperty]

end Node

theorem Selector.combine_ne_nil (parents : List Text) {selectors : List Text} (some : selectors ≠ []) :
    combine parents selectors ≠ [] := by
  obtain ⟨selector, others, rfl⟩ := List.exists_cons_of_ne_nil some
  unfold combine
  cases parents <;> simp

namespace Flatten

mutual
theorem rules_isFlat (parents : List Text) (depth : Nat) (n : Node) (heads : ∀ m ∈ n.nodes, m.HasHead) :
    ∀ m ∈ rules parents depth n, m.IsFlat := by
  cases n with
  | property | comment => simp [rules]
  | rule selectors children depth' =>
    have head : selectors ≠ [] := heads _ List.mem_cons_self
    have inside : ∀ m ∈ Node.nodesAll children, m.HasHead := fun m member =>
      heads m (List.mem_cons_of_mem _ member)
    rw [rules]
    split
    · exact rulesAll_isFlat _ _ children inside
    · next some =>
      intro m member
      rcases List.mem_cons.mp member with rfl | member
      · refine ⟨Selector.combine_ne_nil parents head, by simpa using some, ?_⟩
        intro child member
        exact (List.mem_filter.mp member).2
      · exact rulesAll_isFlat _ _ children inside m member

theorem rulesAll_isFlat (parents : List Text) (depth : Nat) (ns : List Node)
    (heads : ∀ m ∈ Node.nodesAll ns, m.HasHead) : ∀ m ∈ rulesAll parents depth ns, m.IsFlat := by
  cases ns with
  | nil => simp [rulesAll]
  | cons n ns =>
    intro m member
    rw [rulesAll] at member
    rcases List.mem_append.mp member with member | member
    · exact rules_isFlat parents depth n (fun m inside => heads m (List.mem_append_left _ inside)) m member
    · exact rulesAll_isFlat parents depth ns (fun m inside => heads m (List.mem_append_right _ inside)) m member
end

mutual
/-- The plain rules of a node hold all properties inside it, those right in it apart. -/
theorem rules_properties (parents : List Text) (depth : Nat) (n : Node) :
    (Node.properties (rules parents depth n) ++ [n].filter Node.isProperty).Perm (Node.properties [n]) := by
  cases n with
  | property name offset value => exact List.Perm.refl _
  | comment text => exact List.Perm.refl _
  | rule selectors children depth' =>
    have split : children.filter Node.isProperty =
        (children.filter Node.isDeclaration).filter Node.isProperty := by
      rw [List.filter_filter]
      congr 1
      funext m
      cases m <;> rfl
    rw [rules, Node.properties_rule]
    split
    · next none =>
      have inside := rulesAll_properties (Selector.combine parents selectors) depth children
      rw [split, List.isEmpty_iff.mp none] at inside
      simpa [Node.isProperty] using inside
    · have inside := rulesAll_properties (Selector.combine parents selectors) (depth + 1) children
      have own : Node.properties (children.filter Node.isDeclaration) = children.filter Node.isProperty := by
        rw [Node.properties, split, Node.nodesAll_of_declarations]
        exact fun m member => (List.mem_filter.mp member).2
      rw [Node.properties_cons, Node.properties_rule, own]
      simpa [Node.isProperty] using (List.perm_append_comm).trans inside

theorem rulesAll_properties (parents : List Text) (depth : Nat) (ns : List Node) :
    (Node.properties (rulesAll parents depth ns) ++ ns.filter Node.isProperty).Perm (Node.properties ns) := by
  cases ns with
  | nil => exact List.Perm.refl _
  | cons n ns =>
    have first := rules_properties parents depth n
    have others := rulesAll_properties parents depth ns
    rw [rulesAll, Node.properties_append, Node.properties_cons n ns, List.append_assoc,
      ← List.singleton_append, List.filter_append]
    refine List.Perm.trans ?_ (first.append others)
    rw [List.append_assoc]
    exact List.perm_append_comm_assoc _ _ _ |>.append_left _
end

end Flatten

/-- Flattened nodes are flat, if every rule has a selector and no property stands
outside all rules. -/
theorem flatten_isFlat {ns : List Node} (outside : ∀ n ∈ ns, n.isProperty = false)
    (heads : ∀ n ∈ Node.nodesAll ns, n.HasHead) : ∀ n ∈ flatten ns, n.IsFlat := by
  induction ns with
  | nil => simp [flatten]
  | cons n ns ih =>
    intro m member
    rw [flatten, List.flatMap_cons] at member
    rcases List.mem_append.mp member with member | member
    · have here := outside n List.mem_cons_self
      cases n with
      | rule selectors children depth =>
        exact Flatten.rules_isFlat [] 0 _ (fun m inside => heads m (List.mem_append_left _ inside)) m member
      | property => cases here
      | comment text =>
        obtain rfl := List.mem_singleton.mp member
        trivial
    · exact ih (fun n later => outside n (List.mem_cons_of_mem _ later))
        (fun m inside => heads m (List.mem_append_right _ inside)) m member

/-- Flattening moves properties, but it neither loses nor copies one. -/
theorem flatten_properties (ns : List Node) : (Node.properties (flatten ns)).Perm (Node.properties ns) := by
  induction ns with
  | nil => exact List.Perm.refl _
  | cons n ns ih =>
    rw [flatten, List.flatMap_cons, Node.properties_append, Node.properties_cons]
    refine List.Perm.append ?_ ih
    cases n with
    | rule selectors children depth =>
      simpa [Node.isProperty, Node.isRule] using Flatten.rules_properties [] 0 (.rule selectors children depth)
    | property => exact List.Perm.refl _
    | comment => exact List.Perm.refl _

theorem Node.properties_of_isFlat {ns : List Node} (flat : ∀ n ∈ ns, n.IsFlat) :
    properties ns = ns.flatMap fun n => n.children.filter isProperty := by
  induction ns with
  | nil => rfl
  | cons n ns ih =>
    rw [properties_cons, List.flatMap_cons, ih fun n member => flat n (List.mem_cons_of_mem _ member)]
    congr 1
    have here := flat n List.mem_cons_self
    cases n with
    | rule selectors children depth => rw [properties_rule, properties, nodesAll_of_declarations here.2.2]; rfl
    | property => exact here.elim
    | comment => rfl

end Stylesheet

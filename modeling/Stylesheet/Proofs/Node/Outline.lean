import Stylesheet.Node.Flatten
import Stylesheet.Proofs.Node.Resolution
import Stylesheet.Proofs.Scope

/-! Values do not decide what a stylesheet is made of. The outline of statements, scopes
or nodes is what is left of them without expressions, values and offsets. Every operation
on scopes acts on outlines, and an assignment leaves the outline as it is; so two
resolutions that start with the same outlines end with the same outlines. Flattening acts
on outlines too. -/
namespace Stylesheet

def Parameter.outline (p : Parameter) : Parameter := { p with default := p.default.map fun _ => [] }

def Argument.outline (a : Argument) : Argument := { a with value := [] }

namespace Statement

mutual
/-- A statement without its expressions and offsets. -/
def outline : Statement → Statement
  | .rule selectors body depth => .rule selectors (outlineAll body) depth
  | .property name _ _ => .property name none []
  | .assignment name _ _ isDefault isGlobal => .assignment name none [] isDefault isGlobal
  | .comment text => .comment text
  | .mixin name parameters body => .mixin name (parameters.map Parameter.outline) (outlineAll body)
  | .call name arguments _ => .call name (arguments.map Argument.outline) none

def outlineAll : List Statement → List Statement
  | [] => []
  | s :: rest => outline s :: outlineAll rest
end

end Statement

def Mixin.outline (m : Mixin) : Mixin :=
  ⟨m.name, m.parameters.map Parameter.outline, Statement.outlineAll m.body⟩

namespace Table

theorem get?_map (f : α → β) (t : Table α) (name : Text) :
    get? name (t.map fun entry => (entry.1, f entry.2)) = (t.get? name).map f := by
  induction t with
  | nil => rfl
  | cons entry rest ih =>
    rw [List.map_cons, get?, get?, ih]
    split <;> rfl

theorem insert_map (f : α → β) (t : Table α) (name : Text) (a : α) :
    (t.insert name a).map (fun entry => (entry.1, f entry.2)) =
      insert name (f a) (t.map fun entry => (entry.1, f entry.2)) := by
  induction t with
  | nil => rfl
  | cons entry rest ih =>
    rw [List.map_cons, insert, insert, ← ih]
    split <;> rfl

end Table

def Bindings.outline (b : Bindings) : Bindings := ⟨[], b.mixins.map fun entry => (entry.1, entry.2.outline)⟩

namespace Scope

def outline (s : Scope) : Scope := ⟨s.root.outline, s.own.map Bindings.outline, 0⟩

variable {s s' inner : Scope}

theorem outline_current (s : Scope) : s.outline.current = s.current.outline := by
  cases has : s.own <;> simp [current, outline, has]

theorem outline_child (s : Scope) : s.child.outline = s.outline.child := by
  simp only [child, outline_current]
  rfl

theorem outline_leave (s inner : Scope) : (s.leave inner).outline = s.outline.leave inner.outline := rfl

theorem outline_mixin? (s : Scope) (name : Text) : s.outline.mixin? name = (s.mixin? name).map Mixin.outline := by
  rw [mixin?, mixin?, Option.map_or, outline_current]
  exact congr (congrArg Option.or (Table.get?_map _ _ _)) (Table.get?_map _ _ _)

/-- Scopes with the same outline find mixins with the same outline. -/
theorem outline_eq_of_mixin? {name : Text} {mixin mixin' : Mixin} (same : s.outline = s'.outline)
    (found : s.mixin? name = some mixin) (found' : s'.mixin? name = some mixin') :
    mixin.outline = mixin'.outline := by
  have outlines := s.outline_mixin? name
  rw [same, outline_mixin?, found, found'] at outlines
  exact (Option.some.inj outlines).symm

theorem outline_declare (s : Scope) (m : Mixin) : (s.declare m).outline = s.outline.declare m.outline := by
  have inserted (b : Bindings) : Bindings.outline { b with mixins := b.mixins.insert m.name m } =
      { b.outline with mixins := b.outline.mixins.insert m.name m.outline } :=
    congrArg (Bindings.mk []) (Table.insert_map Mixin.outline b.mixins m.name m)
  cases has : s.own with
  | none =>
    have outermost : s.outline.own = none := by rw [outline, has, Option.map_none]
    rw [declare_of_root has, declare_of_root outermost]
    simp only [outline, inserted]
    rfl
  | some own =>
    have inside : s.outline.own = some own.outline := by rw [outline, has, Option.map_some]
    rw [declare_of_own has, declare_of_own inside]
    simp only [outline, inserted, Option.map_some]
    rfl

theorem outline_assign {name : Text} {value : Value} {isDefault isGlobal : Bool}
    (assigned : (s.assign name value isDefault isGlobal).result = .ok s') : s'.outline = s.outline := by
  obtain ⟨-, -, rfl⟩ | ⟨-, rfl⟩ := assign_ok assigned
  · rfl
  · cases has : s.own with
    | none =>
      rw [setVariable_of_root has]
      rfl
    | some own =>
      rw [setVariable_of_own has]
      cases isGlobal <;> simp [outline, has, Bindings.outline]

/-- The scope of a mixin's body has the outline of any scope inside the caller's. -/
theorem outline_bindArguments {mixin : Mixin} {arguments : List Argument} {offset : Option Int}
    (bound : (Resolve.bindArguments mixin arguments offset s).result = .ok inner) :
    inner.outline = s.outline.child := by
  rw [← outline_child]
  exact Resolve.bindArguments_invariant (I := fun t => t.outline = s.child.outline)
    (fun _ _ _ _ before assigned => (outline_assign assigned).trans before) rfl bound

end Scope

namespace Node

mutual
def outline : Node → Node
  | rule selectors children depth => .rule selectors (outlineAll children) depth
  | property name _ _ => .property name none (.text [])
  | comment text => .comment text

def outlineAll : List Node → List Node
  | [] => []
  | n :: rest => outline n :: outlineAll rest
end

theorem outlineAll_eq_map (ns : List Node) : outlineAll ns = ns.map outline := by
  induction ns with
  | nil => rfl
  | cons n ns ih => rw [outlineAll, ih, List.map_cons]

@[simp] theorem outlineAll_append (ns more : List Node) :
    outlineAll (ns ++ more) = outlineAll ns ++ outlineAll more := by
  simp only [outlineAll_eq_map, List.map_append]

@[simp] theorem isRule_outline (n : Node) : n.outline.isRule = n.isRule := by
  cases n <;> rfl

theorem outlineAll_declarations (ns : List Node) :
    (outlineAll ns).filter isDeclaration = outlineAll (ns.filter isDeclaration) := by
  have same : isDeclaration ∘ outline = isDeclaration := funext fun n => by simp [isDeclaration]
  rw [outlineAll_eq_map, outlineAll_eq_map, List.filter_map, same]

end Node

/-- Two resolutions from the same outlines come to the same outlines. -/
theorem Resolves.outline_unique {scope scope₁ other other₁ : Scope} {inRule : Bool} {ss others : List Statement}
    {nodes nodes' : List Node} (one : Resolves scope inRule ss nodes scope₁)
    (two : Resolves other inRule others nodes' other₁) (scopes : scope.outline = other.outline)
    (statements : Statement.outlineAll ss = Statement.outlineAll others) :
    Node.outlineAll nodes = Node.outlineAll nodes' ∧ scope₁.outline = other₁.outline := by
  -- The other resolution takes the same rule each time: outlines tell the kinds of
  -- statements apart.
  induction one generalizing other others nodes' other₁ with
  | nil =>
    cases two with
    | nil => exact ⟨rfl, scopes⟩
    | _ => simp [Statement.outlineAll] at statements
  | assignment _ assigned _ ih =>
    cases two with
    | assignment _ assigned' rest' =>
      simp only [Statement.outlineAll, List.cons.injEq] at statements
      refine ih rest' ?_ statements.2
      rw [Scope.outline_assign assigned, Scope.outline_assign assigned', scopes]
    | _ => simp [Statement.outlineAll, Statement.outline] at statements
  | property _ _ ih =>
    cases two with
    | property _ rest' =>
      simp only [Statement.outlineAll, Statement.outline, List.cons.injEq, Statement.property.injEq] at statements
      obtain ⟨⟨rfl, -⟩, statements⟩ := statements
      obtain ⟨nodes, behind⟩ := ih rest' scopes statements
      exact ⟨by simp only [Node.outlineAll, Node.outline, nodes], behind⟩
    | _ => simp [Statement.outlineAll, Statement.outline] at statements
  | mixin _ ih =>
    cases two with
    | mixin rest' =>
      simp only [Statement.outlineAll, Statement.outline, List.cons.injEq, Statement.mixin.injEq] at statements
      obtain ⟨⟨rfl, parameters, body⟩, statements⟩ := statements
      refine ih rest' ?_ statements
      rw [Scope.outline_declare, Scope.outline_declare, scopes, Mixin.outline, Mixin.outline, parameters, body]
    | _ => simp [Statement.outlineAll, Statement.outline] at statements
  | call found bound _ _ ih ih' =>
    cases two with
    | call found' bound' expanded' rest' =>
      simp only [Statement.outlineAll, Statement.outline, List.cons.injEq, Statement.call.injEq] at statements
      obtain ⟨⟨rfl, -, -⟩, statements⟩ := statements
      have body := (Mixin.mk.inj (Scope.outline_eq_of_mixin? scopes found found')).2.2
      have inner := (Scope.outline_bindArguments bound).trans
        (scopes ▸ (Scope.outline_bindArguments bound').symm)
      obtain ⟨nodes, inside⟩ := ih expanded' inner body
      obtain ⟨more, behind⟩ := ih' rest' (by rw [Scope.outline_leave, Scope.outline_leave, scopes, inside]) statements
      exact ⟨by rw [Node.outlineAll_append, Node.outlineAll_append, nodes, more], behind⟩
    | _ => simp [Statement.outlineAll, Statement.outline] at statements
  | rule _ _ ih ih' =>
    cases two with
    | rule nested' rest' =>
      simp only [Statement.outlineAll, Statement.outline, List.cons.injEq, Statement.rule.injEq] at statements
      obtain ⟨⟨rfl, body, rfl⟩, statements⟩ := statements
      obtain ⟨children, inside⟩ := ih nested' (by rw [Scope.outline_child, Scope.outline_child, scopes]) body
      obtain ⟨more, behind⟩ := ih' rest' (by rw [Scope.outline_leave, Scope.outline_leave, scopes, inside]) statements
      exact ⟨by simp only [Node.outlineAll, Node.outline, children, more], behind⟩
    | _ => simp [Statement.outlineAll, Statement.outline] at statements
  | comment _ ih =>
    cases two with
    | comment rest' =>
      simp only [Statement.outlineAll, Statement.outline, List.cons.injEq, Statement.comment.injEq] at statements
      obtain ⟨rfl, statements⟩ := statements
      obtain ⟨nodes, behind⟩ := ih rest' scopes statements
      exact ⟨by simp only [Node.outlineAll, nodes], behind⟩
    | _ => simp [Statement.outlineAll, Statement.outline] at statements

namespace Flatten

mutual
theorem outline_rules (parents : List Text) (depth : Nat) (n : Node) :
    Node.outlineAll (rules parents depth n) = rules parents depth n.outline := by
  cases n with
  | rule selectors children _ =>
    simp only [Node.outline, rules, Node.outlineAll_declarations]
    have empty : (Node.outlineAll (children.filter Node.isDeclaration)).isEmpty =
        (children.filter Node.isDeclaration).isEmpty := by
      rw [Node.outlineAll_eq_map, List.isEmpty_map]
    rw [empty]
    split
    · exact outline_rulesAll _ _ children
    · rw [Node.outlineAll, Node.outline, outline_rulesAll _ _ children]
  | property | comment => rfl

theorem outline_rulesAll (parents : List Text) (depth : Nat) (ns : List Node) :
    Node.outlineAll (rulesAll parents depth ns) = rulesAll parents depth (Node.outlineAll ns) := by
  cases ns with
  | nil => rfl
  | cons n ns =>
    rw [rulesAll, Node.outlineAll_append, Node.outlineAll, rulesAll, outline_rules parents depth n,
      outline_rulesAll parents depth ns]
end

end Flatten

/-- The outline of flattened nodes is the flattened outline. -/
theorem outline_flatten (ns : List Node) : Node.outlineAll (flatten ns) = flatten (Node.outlineAll ns) := by
  induction ns with
  | nil => rfl
  | cons n ns ih =>
    have first : Node.outlineAll (if n.isRule then Flatten.rules [] 0 n else [n]) =
        if n.outline.isRule then Flatten.rules [] 0 n.outline else [n.outline] := by
      rw [Node.isRule_outline]
      split
      · exact Flatten.outline_rules [] 0 n
      · rfl
    simp only [flatten, Node.outlineAll, List.flatMap_cons, Node.outlineAll_append] at ih ⊢
    rw [first, ih]

/-- Statements that differ in expressions and offsets only, resolved at any precisions,
have nodes that differ in values and offsets only, before and after flattening. -/
theorem outline_determines_nodes {precision precision' : Int} {ss ss' : List Statement} {nodes nodes' : List Node}
    (same : Statement.outlineAll ss = Statement.outlineAll ss')
    (resolved : (resolve (Scope.empty precision) ss).result = .ok nodes)
    (resolved' : (resolve (Scope.empty precision') ss').result = .ok nodes') :
    Node.outlineAll nodes = Node.outlineAll nodes' ∧
      Node.outlineAll (flatten nodes) = Node.outlineAll (flatten nodes') := by
  obtain ⟨_, one⟩ := resolve_ok resolved
  obtain ⟨_, two⟩ := resolve_ok resolved'
  have outlines := (one.outline_unique two rfl same).1
  exact ⟨outlines, by rw [outline_flatten, outline_flatten, outlines]⟩

/-- A rule that declares a mixin and calls it, once with the default of the parameter. -/
def boxedSheet (preset value : Expression) : List Statement :=
  [.rule ["a".toList] [
    .mixin "m".toList [⟨"$n".toList, some preset⟩] [
      .property "p".toList none [⟨.ident "$n".toList, none⟩],
      .rule ["b".toList] [.property "q".toList none value] 1],
    .call "m".toList [] none,
    .call "m".toList [⟨some "$n".toList, value⟩] none] 0]

theorem outline_boxedSheet (preset value preset' value' : Expression) :
    Statement.outlineAll (boxedSheet preset value) = Statement.outlineAll (boxedSheet preset' value') := rfl

theorem outline_determines_boxedSheet : ∃ nodes nodes',
    (resolve (Scope.empty 5) (boxedSheet [⟨.ident "x".toList, some 9⟩] [⟨.string "y".toList, none⟩])).result =
        .ok nodes ∧
      (resolve (Scope.empty 2) (boxedSheet [⟨.number ⟨.zero, none, false, "0".toList⟩, none⟩]
        [⟨.ident "x".toList, none⟩, ⟨.operator .comma, none⟩, ⟨.ident "$n".toList, none⟩])).result = .ok nodes' ∧
      Node.outlineAll nodes = Node.outlineAll nodes' ∧
      Node.outlineAll (flatten nodes) = Node.outlineAll (flatten nodes') := by
  have ran : (resolve (Scope.empty 5)
      (boxedSheet [⟨.ident "x".toList, some 9⟩] [⟨.string "y".toList, none⟩])).result.toOption.isSome = true := by
    decide +kernel
  have ran' : (resolve (Scope.empty 2) (boxedSheet [⟨.number ⟨.zero, none, false, "0".toList⟩, none⟩]
      [⟨.ident "x".toList, none⟩, ⟨.operator .comma, none⟩, ⟨.ident "$n".toList, none⟩])).result.toOption.isSome =
        true := by
    decide +kernel
  obtain ⟨nodes, found⟩ := Option.isSome_iff_exists.mp ran
  obtain ⟨nodes', found'⟩ := Option.isSome_iff_exists.mp ran'
  have resolved := eq_ok_of_toOption found
  have resolved' := eq_ok_of_toOption found'
  obtain ⟨same, flattened⟩ := outline_determines_nodes (outline_boxedSheet _ _ _ _) resolved resolved'
  exact ⟨nodes, nodes', resolved, resolved', same, flattened⟩

end Stylesheet

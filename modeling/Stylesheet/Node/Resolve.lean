import Stylesheet.Node.Basic
import Stylesheet.Value.Evaluate

/-! Resolution: from statements to nodes. Assignments change the scope, rules open
one, and a mixin call resolves the mixin's body in a scope inside the caller's with
the parameters bound. Every function gives the scope behind what it resolves. -/
namespace Stylesheet

namespace Resolve

/-- The values of the arguments of a call: the named ones and the others in order. -/
def collect (scope : Scope) (mixin : Mixin) :
    List Argument → Table Value → List Value → Traced (Table Value × List Value)
  | [], named, positional => pure (named, positional)
  | argument :: rest, named, positional =>
    match argument.name with
    | none => do
      let value ← evaluate scope argument.value
      collect scope mixin rest named (positional ++ [value])
    | some name =>
      if mixin.parameters.any (·.name == name) then do
        let value ← evaluate scope argument.value
        collect scope mixin rest (named.insert name value) positional
      else .fail (.unknownArgument mixin.name name) (Expression.offset argument.value)

/-- Binds the parameters in turn: to the argument of that name, or the next one
without a name, or the default, evaluated with the parameters before it bound. -/
def bindParameters (mixin : Text) (offset : Option Int) (named : Table Value) :
    List Parameter → List Value → Scope → Traced Scope
  | [], _, scope => pure scope
  | parameter :: rest, positional, scope =>
    match named.get? parameter.name, positional, parameter.default with
    | some value, positional, _ => do
      bindParameters mixin offset named rest positional (← scope.assign parameter.name value false false)
    | none, value :: positional, _ => do
      bindParameters mixin offset named rest positional (← scope.assign parameter.name value false false)
    | none, [], some default => do
      let value ← evaluate scope default
      bindParameters mixin offset named rest [] (← scope.assign parameter.name value false false)
    | none, [], none => .fail (.missingArgument parameter.name mixin) offset

/-- The scope of a mixin's body: inside the caller's, with every parameter bound. -/
def bindArguments (mixin : Mixin) (arguments : List Argument) (offset : Option Int) (scope : Scope) :
    Traced Scope := do
  let (named, positional) ← collect scope mixin arguments [] []
  bindParameters mixin.name offset named mixin.parameters positional scope.child

/-- How calls are resolved: from the scope, whether a rule is open, and the call. -/
abbrev Expansion := Scope → Bool → Text → List Argument → Option Int → Traced (List Node × Scope)

mutual
/-- The nodes of a statement and the scope behind it. -/
def statement (expand : Expansion) (scope : Scope) (inRule : Bool) : Statement → Traced (List Node × Scope)
  | .assignment name _ value isDefault isGlobal => do
    let value ← evaluate scope value
    return ([], ← scope.assign name value isDefault isGlobal)
  | .property name offset value =>
    if inRule then do return ([.property name offset (← evaluate scope value)], scope)
    else .fail (.expandedProperty name) offset
  | .mixin name parameters body => return ([], scope.declare ⟨name, parameters, body⟩)
  | .call name arguments offset => expand scope inRule name arguments offset
  | .rule selectors body depth => do
    let (children, inner) ← statements expand scope.child true body
    return ([.rule selectors children depth], scope.leave inner)
  | .comment text => return ([.comment text], scope)

/-- The nodes of statements in a row and the scope behind them. -/
def statements (expand : Expansion) (scope : Scope) (inRule : Bool) :
    List Statement → Traced (List Node × Scope)
  | [] => return ([], scope)
  | s :: rest => do
    let (nodes, scope) ← statement expand scope inRule s
    let (more, scope) ← statements expand scope inRule rest
    return (nodes ++ more, scope)
end

/-- Expands a call, with calls inside it nested at most `limit` deep. -/
def expansion : Nat → Expansion
  | 0, _, _, _, _, _ => .silent (.error .endless)
  | limit + 1, scope, inRule, name, arguments, offset =>
    match scope.mixin? name with
    | none => .fail (.unknownMixin name) offset
    | some mixin => do
      .report (.expanding name)
      let inner ← bindArguments mixin arguments offset scope
      let (nodes, inner) ← statements (expansion limit) inner inRule mixin.body
      return (nodes, scope.leave inner)

/-- How deep calls may nest. Calls that do not lead back to a mixin in expansion
nest at most as deep as there are mixins; the reserve is for bodies that declare
the names they call anew. -/
def expansionLimit (ss : List Statement) : Nat := Statement.mixinCountAll ss + 500

end Resolve

/-- The nodes of statements, resolved in a scope. -/
def resolve (scope : Scope) (ss : List Statement) : Traced (List Node) := do
  .report (.resolvingNodes ss.length)
  let (nodes, _) ← Resolve.statements (Resolve.expansion (Resolve.expansionLimit ss)) scope false ss
  return nodes

end Stylesheet

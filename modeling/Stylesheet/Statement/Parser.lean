import Stylesheet.Lexeme.Cursor
import Stylesheet.Selector
import Stylesheet.Trace

/-! The parser of statements. An item is a rule if the first brace or semicolon
ahead of it, outside parentheses, opens a body, and else a declaration. Open bodies
are kept on a stack, so one round handles one item, and every round that does not
end the body leaves less to read. The parser's state outlives its errors. -/
namespace Stylesheet

/-- The state of a parser: what is left to read, what it is reading, how many rules
are open, and the events so far, newest first. -/
structure Parser where
  cursor : Cursor
  mode : Mode
  depth : Nat
  events : List Event

/-- A step of parsing, which leaves a state behind in any case. -/
abbrev Parse := EStateM Failure Parser

namespace Parser

def ofSource (source : Text) : Parser := ⟨Cursor.ofSource source, .selectors, 0, []⟩

/-- The event of drawing an outcome. -/
def drawEvent? (o : Outcome) : Option Event :=
  match o.result with
  | .ok token => some (.lexed token o.start)
  | .error _ => none

/-- A step of the cursor; the tokens it draws are reported. -/
def reading (f : Cursor.Step α) : Parse α := fun p =>
  let (result, cursor) := f p.cursor
  let drawn := p.cursor.pending.take (p.cursor.pending.length - cursor.pending.length)
  let p := { p with cursor, events := (drawn.filterMap drawEvent?).reverse ++ p.events }
  match result with
  | .ok a => .ok a p
  | .error failure => .error failure p

def report (event : Event) : Parse Unit := modify fun p => { p with events := event :: p.events }

def fail (cause : Cause) (offset : Option Int) : Parse α := throw (.error cause offset)

/-- Fails at the end of the source. -/
def failAtEnd (cause : Cause) : Parse α := do fail cause (some (← get).cursor.length)

def take : Parse (Option Lexeme) := reading Cursor.next

def peek : Parse (Option Lexeme) := reading (Cursor.peek 1)

/-- Turns to another mode. -/
def switch (mode : Mode) : Parse Unit := do
  let p ← get
  if p.mode ≠ mode then
    report (.switched p.mode mode)
    modify fun p => { p with mode }

/-- Takes the operator that has to come next. -/
def expect (op : Operator) (place : Place) : Parse Unit := do
  match ← take with
  | none => failAtEnd (.endBefore op place)
  | some l => if l.isOp op then pure () else fail (.otherThan op place l.raw) l.offset

/-- Takes the lexemes looked ahead at up to the first opening brace, and the brace. -/
def takeSelector : Parse (List Lexeme) := do
  let p ← get
  let ahead := p.cursor.ahead
  let isHead (l : Lexeme) : Bool := !l.isOp .leftBrace
  set { p with cursor := { p.cursor with ahead := (ahead.dropWhile isHead).tail } }
  return ahead.takeWhile isHead

/-- The selectors of a rule, whose opening brace has been looked ahead at. -/
def ruleHead : Parse (List Text) := do
  switch .selectors
  let start := (← get).cursor.ahead.head?.bind (·.offset)
  let lexemes ← takeSelector
  (Expression.split .comma (Expression.withoutComments lexemes)).mapM fun group => do
    let selector := Selector.normalize (Expression.join group)
    if selector.isEmpty then fail .emptySelector start else return selector

/-- The lexemes of a value, and those left behind it: a semicolon ends the value and
is dropped, a closing brace ends it and stays. -/
def cutValue : Nat → List Lexeme → Option (List Lexeme × List Lexeme)
  | _, [] => none
  | depth, l :: rest =>
    if depth = 0 ∧ l.isOp .rightBrace then some ([], l :: rest)
    else if depth = 0 ∧ l.isOp .semicolon then some ([], rest)
    else (cutValue (l.depthAfter depth) rest).map fun (value, after) => (l :: value, after)

/-- Takes the lexemes of a value, whose end has been looked ahead at if there is
one. -/
def takeValue : Parse Expression := do
  let p ← get
  match cutValue 0 p.cursor.ahead with
  | some (value, ahead) =>
    set { p with cursor := { p.cursor with ahead } }
    return Expression.withoutComments value
  | none =>
    set { p with cursor := { p.cursor with ahead := [] } }
    failAtEnd (.endBefore .semicolon .endOfValue)

def defaultFlag : Text := "!default".toList

def globalFlag : Text := "!global".toList

/-- The flag a lexeme stands for. -/
def flag? (l : Lexeme) : Option Text := l.ident?.filter fun raw => raw == defaultFlag || raw == globalFlag

/-- A declaration: a property, or an assignment, which may end with flags. -/
def declaration (topLevel : Bool) : Parse Statement := do
  switch .properties
  match ← take with
  | none => failAtEnd (.endBefore .semicolon .endOfValue)
  | some l =>
    match l.ident? with
    | none => fail (.noPropertyName l.raw) l.offset
    | some name =>
      expect .colon (.afterName name)
      let value ← takeValue
      if isVariableName name then
        let flags := (value.reverse.takeWhile fun l => (flag? l).isSome).filterMap flag?
        let value := (value.reverse.dropWhile fun l => (flag? l).isSome).reverse
        if value.isEmpty then fail (.emptyValue name) l.offset
        else return .assignment name l.offset value (flags.contains defaultFlag) (flags.contains globalFlag)
      else if value.isEmpty then fail (.emptyValue name) l.offset
      else if topLevel then fail (.looseProperty name) l.offset
      else return .property name l.offset value

/-- Takes a group in parentheses and splits it at commas. An empty group has no
parts. -/
def parenthesized : Parse (List Expression) := do
  let _ ← take
  match ← reading (Cursor.group 0) with
  | none => failAtEnd (.endBefore .rightParen .endOfGroup)
  | some inner =>
    match Expression.withoutComments inner with
    | [] => return []
    | inner => return Expression.split .comma inner

/-- The groups in parentheses that may follow a name. -/
def groups : Parse (List Expression) := do
  match ← peek with
  | some l => if l.isOp .leftParen then parenthesized else return []
  | none => return []

/-- The name that a group gives to the expression behind it. -/
def named (group : Expression) : Option Text × Expression :=
  match group with
  | first :: second :: rest =>
    match first.reference? with
    | some name => if second.isOp .colon then (some name, rest) else (none, group)
    | none => (none, group)
  | _ => (none, group)

def parameter (group : Expression) : Parse Parameter :=
  match named group with
  | (some name, default) => return ⟨name, if default.isEmpty then none else some default⟩
  | (none, _) =>
    match group with
    | [l] =>
      match l.reference? with
      | some name => return ⟨name, none⟩
      | none => fail (.noParameter (Expression.join group)) l.offset
    | _ => fail (.noParameter (Expression.join group)) (Expression.offset group)

def argument (group : Expression) : Parse Argument :=
  match named group with
  | (name, value) =>
    if value.isEmpty then fail .emptyArgument (Expression.offset group) else return ⟨name, value⟩

/-- Takes the semicolon behind a call, unless a closing brace ends it. -/
def endCall (keyword name : Text) : Parse Unit := do
  match ← peek with
  | none => failAtEnd (.endBefore .semicolon (.endOfCall keyword name))
  | some l =>
    if l.isOp .semicolon then
      let _ ← take
    else if l.isOp .rightBrace then pure ()
    else fail (.otherThan .semicolon (.endOfCall keyword name) l.raw) l.offset

/-- What opens a body. -/
inductive Opening where
  | rule (selectors : List Text) (depth : Nat)
  | mixin (name : Text) (parameters : List Parameter)

/-- A mixin up to the brace that opens its body. -/
def mixinHead (name : Text) : Parse Opening := do
  let parameters ← (← groups).mapM parameter
  expect .leftBrace (.mixinBody name)
  report (.declared name (parameters.map (·.name)))
  return .mixin name parameters

/-- A call behind its name. -/
def callTail (keyword name : Text) (offset : Option Int) : Parse Statement := do
  let groups ← groups
  endCall keyword name
  return .call name (← groups.mapM argument) offset

/-- An at-rule behind its keyword: a call, or the opening of a mixin. The name is
read before the keyword is looked at. -/
def atRuleTail (keyword : Text) (offset : Option Int) : Parse (Statement ⊕ Opening) := do
  match ← take with
  | none => failAtEnd (.endBeforeName keyword)
  | some l =>
    let isMixin := keyword == "@mixin".toList
    let isCall := keyword == "@include".toList || keyword == "@extend".toList
    if !isMixin && !isCall then fail (.unsupportedAtRule keyword) offset
    else match l.ident? with
      | none => fail (.noName keyword l.raw) l.offset
      | some name =>
        if isMixin then return .inr (← mixinHead name)
        else return .inl (← callTail keyword name offset)

/-- A body left open while a body inside it is read, with its statements so far. -/
structure Block where
  opening : Opening
  before : List Statement

/-- Enters the body of a rule, and gives the depth outside it. -/
def enterRule : Parse Nat := modifyGet fun p => (p.depth, { p with depth := p.depth + 1 })

/-- Leaves the body of a rule. -/
def leaveRule : Parse Unit := modify fun p => { p with depth := p.depth - 1 }

/-- Closes a body: its statements become one of the body around it. -/
def close (block : Block) (body : List Statement) : Parse (List Statement) :=
  match block.opening with
  | .rule selectors depth => do
    leaveRule
    switch .selectors
    return block.before ++ [.rule selectors body depth]
  | .mixin name parameters => return block.before ++ [.mixin name parameters body]

/-- The result of a round: the bodies that are open now, innermost first, with the
statements of the innermost; or the whole body. -/
inductive Progress where
  | reading (blocks : List Block) (body : List Statement)
  | finished (body : List Statement)

/-- Whether a token starts an at-rule. -/
def isAtKeyword : Token → Bool
  | .ident raw => raw.head? == some '@'
  | _ => false

/-- Reads one item, of which `l` is the first lexeme. -/
def item (topLevel : Bool) (blocks : List Block) (body : List Statement) (l : Lexeme) : Parse Progress := do
  if l.isOp .semicolon then
    let _ ← take
    return .reading blocks body
  else if l.isOp .rightBrace then
    match blocks with
    | block :: blocks => do
      let _ ← take
      return .reading blocks (← close block body)
    | [] =>
      if topLevel then fail .strayBrace l.offset
      else do
        let _ ← take
        return .finished body
  else if l.isComment then
    switch .comment
    let _ ← take
    return .reading blocks (body ++ [.comment l.raw])
  else if isAtKeyword l.token then
    let _ ← take
    match ← atRuleTail l.raw l.offset with
    | .inl call => return .reading blocks (body ++ [call])
    | .inr opening => return .reading (⟨opening, body⟩ :: blocks) []
  else
    match ← reading Cursor.boundary with
    | some .leftBrace => do
      let selectors ← ruleHead
      let depth ← enterRule
      return .reading (⟨.rule selectors depth, body⟩ :: blocks) []
    | _ => return .reading blocks (body ++ [← declaration (topLevel && blocks.isEmpty)])

/-- One round: an item, or the end of the source. -/
def round (topLevel : Bool) (blocks : List Block) (body : List Statement) : Parse Progress := do
  match ← peek with
  | some l => item topLevel blocks body l
  | none =>
    if topLevel && blocks.isEmpty then return .finished body
    else failAtEnd (.endBefore .rightBrace .endOfRule)

end Parser

end Stylesheet

import Stylesheet.Statement.Basic
import Stylesheet.Style
import Stylesheet.Value.Basic

/-! A compilation can be traced: it reports events as they happen, and those
reported before a failure stay. `Traced` is the monad of computations that report
events and may fail; `result` forgets the events, and is a morphism to the plain
computations that may fail. -/
namespace Stylesheet

/-- What happens during a compilation. -/
inductive Event where
  | parsing (characters : Nat)
  | parsingStylesheet
  | lexed (token : Token) (offset : Nat)
  | switched (before after : Mode)
  | declared (mixin : Text) (parameters : List Text)
  | resolving
  | resolvingNodes (count : Nat)
  | bound (name : Text) (value : Value)
  | expanding (mixin : Text)
  | applied (left : Value) (op : Operator) (right result : Value)
  | flattening
  | flattened (count : Nat)
  | rendering (style : Style)

namespace Event

private def shown (text : Text) : String := String.ofList text

private def listed (names : List Text) : String := shown (List.intercalate ", ".toList names)

/-- The line an event is reported by. Values without a decimal form are not
reported. -/
def line? : Event → Option String
  | parsing characters => s!"flatcss: parsing {characters} characters"
  | parsingStylesheet => "flatcss.scss.parser: parsing stylesheet"
  | lexed token offset => s!"flatcss.scss.lexer: lexed {shown token.inspect} at {offset}"
  | switched before after => s!"flatcss.scss.parser: parser mode {before.name} -> {after.name}"
  | declared mixin parameters =>
    s!"flatcss.scss.parser: mixin {shown mixin}({listed parameters})"
  | resolving => "flatcss: resolving scopes"
  | resolvingNodes count => s!"flatcss.scss.resolver: resolving {count} top level nodes"
  | bound name value =>
    value.spelled.toOption.map fun text => s!"flatcss.scss.context: bound {shown name} = {shown text}"
  | expanding mixin => s!"flatcss.scss.resolver: expanding mixin {shown mixin}"
  | applied left op right result => do
    let l ← left.spelled.toOption
    let r ← right.spelled.toOption
    s!"flatcss.scss.evaluator: {shown l} {op.char} {shown r} => {shown result.inspect}"
  | flattening => "flatcss: flattening rules"
  | flattened count => s!"flatcss.scss.optimizer: flattened into {count} top level nodes"
  | rendering style => s!"flatcss: rendering as {style.name}"

end Event

/-- A computation that reports events and may fail. -/
structure Traced (α : Type) where
  events : List Event
  result : Except Failure α

namespace Traced

def bind (x : Traced α) (f : α → Traced β) : Traced β :=
  match x.result with
  | .ok a =>
    let y := f a
    ⟨x.events ++ y.events, y.result⟩
  | .error failure => ⟨x.events, .error failure⟩

instance : Monad Traced where
  pure a := ⟨[], .ok a⟩
  bind := bind

/-- Reports one event. -/
def report (event : Event) : Traced Unit := ⟨[event], .ok ()⟩

/-- A computation that reports nothing. -/
def silent (result : Except Failure α) : Traced α := ⟨[], result⟩

instance : MonadLift (Except Failure) Traced := ⟨silent⟩

def fail (cause : Cause) (offset : Option Int) : Traced α := ⟨[], .error (.error cause offset)⟩

@[simp] theorem result_pure (a : α) : (pure a : Traced α).result = .ok a := rfl

@[simp] theorem result_silent (x : Except Failure α) : (silent x).result = x := rfl

@[simp] theorem result_report (event : Event) : (report event).result = .ok () := rfl

/-- Forgetting the events of a sequence is the sequence of what is left. -/
@[simp] theorem result_bind (x : Traced α) (f : α → Traced β) :
    (x >>= f).result = x.result >>= fun a => (f a).result := by
  show (bind x f).result = _
  unfold bind
  cases x.result <;> rfl

@[ext] theorem ext {x y : Traced α} (events : x.events = y.events) (result : x.result = y.result) :
    x = y := by
  cases x
  cases y
  simp_all

instance : LawfulMonad Traced := LawfulMonad.mk' Traced
  (fun x => by
    show bind x (fun a => ⟨[], .ok a⟩) = x
    unfold bind
    split <;> ext <;> simp_all)
  (fun a f => by
    show bind ⟨[], .ok a⟩ f = f a
    simp [bind])
  (fun x f g => by
    show bind (bind x f) g = bind x fun a => bind (f a) g
    unfold bind
    cases hx : x.result with
    | error failure => rfl
    | ok a => cases hy : (f a).result <;> simp [hy])

end Traced

end Stylesheet

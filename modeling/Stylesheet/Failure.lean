import Stylesheet.Binary64.Decimal
import Stylesheet.Operator
import Stylesheet.Text.Position
import Stylesheet.Text.Quoted

/-! What can go wrong. A compile error has a cause, from which its kind, its
stage and its message follow, and the offset it applies to. Apart from compile
errors there are faults of number conversion, endless mixin expansion, bytes and
paths that cannot be read as such, and operations that find nothing to work on. -/
namespace Stylesheet

/-- The machine readable kind of a compile error. -/
inductive Kind where
  | ioError
  | invalidOutputStyle
  | invalidPrecision
  | tokenizerError
  | unexpectedEof
  | parseError
  | unexpectedTopLevelElement
  | expectedValue
  | expectedOperator
  | invalidOperator
  | invalidApplyListArgs
  | invalidApplyMathArgs
  | invalidSquareUnits
  | incompatibleUnits
  | unknownFunction
  | invalidColor
  | unexpectedValuePartType
  | expectedMixin
  | expectedMixinArgument
  | argumentNotFound
deriving DecidableEq, Repr

namespace Kind

def all : List Kind :=
  [ioError, invalidOutputStyle, invalidPrecision, tokenizerError, unexpectedEof, parseError,
    unexpectedTopLevelElement, expectedValue, expectedOperator, invalidOperator, invalidApplyListArgs,
    invalidApplyMathArgs, invalidSquareUnits, incompatibleUnits, unknownFunction, invalidColor,
    unexpectedValuePartType, expectedMixin, expectedMixinArgument, argumentNotFound]

def name : Kind → String
  | ioError => "IoError"
  | invalidOutputStyle => "InvalidOutputStyle"
  | invalidPrecision => "InvalidPrecision"
  | tokenizerError => "TokenizerError"
  | unexpectedEof => "UnexpectedEof"
  | parseError => "ParseError"
  | unexpectedTopLevelElement => "UnexpectedTopLevelElement"
  | expectedValue => "ExpectedValue"
  | expectedOperator => "ExpectedOperator"
  | invalidOperator => "InvalidOperator"
  | invalidApplyListArgs => "InvalidApplyListArgs"
  | invalidApplyMathArgs => "InvalidApplyMathArgs"
  | invalidSquareUnits => "InvalidSquareUnits"
  | incompatibleUnits => "IncompatibleUnits"
  | unknownFunction => "UnknownFunction"
  | invalidColor => "InvalidColor"
  | unexpectedValuePartType => "UnexpectedValuePartType"
  | expectedMixin => "ExpectedMixin"
  | expectedMixinArgument => "ExpectedMixinArgument"
  | argumentNotFound => "ArgumentNotFound"

/-- The name in lower case words joined by hyphens. -/
def label : Kind → String
  | ioError => "io-error"
  | invalidOutputStyle => "invalid-output-style"
  | invalidPrecision => "invalid-precision"
  | tokenizerError => "tokenizer-error"
  | unexpectedEof => "unexpected-eof"
  | parseError => "parse-error"
  | unexpectedTopLevelElement => "unexpected-top-level-element"
  | expectedValue => "expected-value"
  | expectedOperator => "expected-operator"
  | invalidOperator => "invalid-operator"
  | invalidApplyListArgs => "invalid-apply-list-args"
  | invalidApplyMathArgs => "invalid-apply-math-args"
  | invalidSquareUnits => "invalid-square-units"
  | incompatibleUnits => "incompatible-units"
  | unknownFunction => "unknown-function"
  | invalidColor => "invalid-color"
  | unexpectedValuePartType => "unexpected-value-part-type"
  | expectedMixin => "expected-mixin"
  | expectedMixinArgument => "expected-mixin-argument"
  | argumentNotFound => "argument-not-found"

end Kind

/-- The stage of a compilation that reports an error. -/
inductive Stage where
  | setup
  | lexing
  | parsing
  | evaluation
  | resolution
deriving DecidableEq, Repr

namespace Stage

def all : List Stage := [setup, lexing, parsing, evaluation, resolution]

def name : Stage → String
  | setup => "CompileError"
  | lexing => "TokenizeError"
  | parsing => "ParseError"
  | evaluation => "EvaluationError"
  | resolution => "ResolveError"

end Stage

/-- Why a path cannot be read or written. -/
inductive PathFault where
  | notFound
  | isDirectory
  | notDirectory
  | nameTooLong
  | other (reason : String)
deriving DecidableEq, Repr

def PathFault.reason : PathFault → String
  | notFound => "No such file or directory"
  | isDirectory => "Is a directory"
  | notDirectory => "Not a directory"
  | nameTooLong => "File name too long"
  | other reason => reason

/-- Where the grammar asks for one particular operator. -/
inductive Place where
  | afterName (name : Text)
  | mixinBody (name : Text)
  | endOfRule
  | endOfValue
  | endOfCall (keyword name : Text)
  | endOfGroup
deriving DecidableEq, Repr

/-- The cause of a compile error, stage by stage. -/
inductive Cause where
  | unreadable (path : Text) (fault : PathFault)
  | unwritable (path : Text) (fault : PathFault)
  | unknownStyle (name : Text)
  | badPrecision (text : Text)
  | unclosedComment
  | unclosedString (quote : Char)
  | unclosedUrl
  | malformedNumber (digits : Text)
  | endBefore (op : Operator) (place : Place)
  | otherThan (op : Operator) (place : Place) (found : Text)
  | strayBrace
  | emptySelector
  | noPropertyName (found : Text)
  | emptyValue (name : Text)
  | looseProperty (name : Text)
  | endBeforeName (keyword : Text)
  | unsupportedAtRule (keyword : Text)
  | noName (keyword found : Text)
  | noParameter (found : Text)
  | emptyArgument
  | nothing
  | loneSeparator (op : Operator)
  | unclosedParen
  | unclosedCall
  | unmatchedParen
  | notAValue (found : Text)
  | noLeftOperand (op : Operator)
  | missingOperand (op : Operator)
  | unsupportedFunction (name : Text)
  | badColor (text : Text)
  | notArithmetic (op : Operator)
  | notForLists (op : Operator) (left right : Text)
  | notForValues (op : Operator) (left right : Text)
  | unitMismatch (left right : Text)
  | squareUnit (left right : Text)
  | divisionByZero (left : Text)
  | unknownMixin (name : Text)
  | missingArgument (parameter mixin : Text)
  | unknownArgument (mixin name : Text)
  | expandedProperty (name : Text)
deriving DecidableEq, Repr

namespace Cause

def kind : Cause → Kind
  | unreadable .. | unwritable .. => .ioError
  | unknownStyle _ => .invalidOutputStyle
  | badPrecision _ => .invalidPrecision
  | malformedNumber _ => .tokenizerError
  | unclosedComment | unclosedString _ | unclosedUrl | endBefore .. | endBeforeName _ => .unexpectedEof
  | otherThan .. | strayBrace | emptySelector | noPropertyName _ | emptyValue _ | unsupportedAtRule _
  | noName .. | noParameter _ | emptyArgument => .parseError
  | looseProperty _ | expandedProperty _ => .unexpectedTopLevelElement
  | nothing | loneSeparator _ | noLeftOperand _ | missingOperand _ => .expectedValue
  | unclosedParen | unclosedCall => .expectedOperator
  | unmatchedParen | notArithmetic _ => .invalidOperator
  | notAValue _ => .unexpectedValuePartType
  | unsupportedFunction _ => .unknownFunction
  | badColor _ => .invalidColor
  | notForLists .. => .invalidApplyListArgs
  | notForValues .. | divisionByZero _ => .invalidApplyMathArgs
  | unitMismatch .. => .incompatibleUnits
  | squareUnit .. => .invalidSquareUnits
  | unknownMixin _ => .expectedMixin
  | missingArgument .. => .expectedMixinArgument
  | unknownArgument .. => .argumentNotFound

def stage : Cause → Stage
  | unreadable .. | unwritable .. | unknownStyle _ | badPrecision _ => .setup
  | unclosedComment | unclosedString _ | unclosedUrl | malformedNumber _ => .lexing
  | endBefore .. | otherThan .. | strayBrace | emptySelector | noPropertyName _ | emptyValue _
  | looseProperty _ | endBeforeName _ | unsupportedAtRule _ | noName .. | noParameter _
  | emptyArgument => .parsing
  | nothing | loneSeparator _ | unclosedParen | unclosedCall | unmatchedParen | notAValue _
  | noLeftOperand _ | missingOperand _ | unsupportedFunction _ | badColor _ | notArithmetic _
  | notForLists .. | notForValues .. | unitMismatch .. | squareUnit .. | divisionByZero _ => .evaluation
  | unknownMixin _ | missingArgument .. | unknownArgument .. | expandedProperty _ => .resolution

private def plain (text : Text) : String := String.ofList text

private def sign (op : Operator) : String := String.ofList [op.char]

/-- How a place continues the words "Expected ...". -/
private def whereabouts : Place → String
  | .afterName name => s!" after `{plain name}`"
  | .mixinBody name => s!" to open the body of mixin `{plain name}`"
  | .endOfRule => " to close the rule"
  | .endOfValue => " after the value"
  | .endOfCall keyword name => s!" after `{plain keyword} {plain name}`"
  | .endOfGroup => ""

def message : Cause → String
  | unreadable path fault => s!"Could not read '{plain path}': {fault.reason}"
  | unwritable path fault => s!"Could not write '{plain path}': {fault.reason}"
  | unknownStyle name =>
    s!"Unknown output style '{plain name}', expected one of nested, expanded, compact, compressed"
  | badPrecision text => s!"FLATCSS_PRECISION must be an integer, got '{plain text}'"
  | unclosedComment => "Expected comment to be closed with `*/`, reached end of input instead."
  | unclosedString quote =>
    s!"Expected string to be closed with `{plain [quote]}`, reached end of input instead."
  | unclosedUrl => "Expected `)` to close `url(`, reached end of input instead."
  | malformedNumber digits => s!"Could not read `{plain digits}` as a number."
  | endBefore op place => s!"Expected `{sign op}`{whereabouts place}, reached end of input instead"
  | otherThan op place found => s!"Expected `{sign op}`{whereabouts place}, found `{plain found}`"
  | strayBrace => "Unexpected `\x7d` with no rule to close"
  | emptySelector => "Expected a selector"
  | noPropertyName found => s!"Expected a property name, found `{plain found}`"
  | emptyValue name => s!"Expected a value for `{plain name}`"
  | looseProperty name | expandedProperty name => s!"Property `{plain name}` must be inside a rule"
  | endBeforeName keyword =>
    s!"Expected a name after `{plain keyword}`, reached end of input instead"
  | unsupportedAtRule keyword => s!"Unsupported at-rule `{plain keyword}`"
  | noName keyword found => s!"Expected a name after `{plain keyword}`, found `{plain found}`"
  | noParameter found => s!"Expected a `$parameter`, found `{plain found}`"
  | emptyArgument => "Expected an argument value"
  | nothing => "Expected a value, found nothing"
  | loneSeparator op => s!"Expected a value, found `{sign op}`"
  | unclosedParen => "Expected `)` to close `(`"
  | unclosedCall => "Expected `)` to close the function call"
  | unmatchedParen => "Unmatched `)`"
  | notAValue found => s!"Unexpected `{plain found}` in a value"
  | noLeftOperand op => s!"Expected a value before `{sign op}`"
  | missingOperand op => s!"Expected a value on both sides of `{sign op}`"
  | unsupportedFunction name => s!"Function `{plain name}()` is not supported"
  | badColor text => s!"Invalid hex color: {plain text}"
  | notArithmetic op => s!"Cannot apply operator `{sign op}` as math"
  | notForLists op left right | notForValues op left right =>
    s!"Cannot apply `{sign op}` to {plain left} and {plain right}"
  | unitMismatch left right => s!"Incompatible units: {plain left} and {plain right}"
  | squareUnit left right => s!"Multiplying {plain left} by {plain right} would give square units"
  | divisionByZero left => s!"Cannot divide {plain left} by zero"
  | unknownMixin name => s!"Cannot find mixin named `{plain name}`"
  | missingArgument parameter mixin =>
    s!"Missing argument for parameter `{plain parameter}` of mixin `{plain mixin}`"
  | unknownArgument mixin name => s!"Mixin `{plain mixin}` has no parameter named `{plain name}`"

end Cause

/-- How a computation fails. -/
inductive Failure where
  /-- A compile error; without an offset it applies to the start of the source. -/
  | error (cause : Cause) (offset : Option Int)
  /-- A number without the integer or decimal form that is needed. -/
  | number (fault : Binary64.Fault)
  /-- A colour channel that is no numeral. -/
  | channel
  /-- Mixins that include each other without end. -/
  | endless
  /-- Bytes that are no text. -/
  | undecodable
  /-- A NUL where the system takes none, as in a path. -/
  | nul
  /-- A list operation on two values that are no lists. -/
  | noList
  /-- The newest lexeme of an empty lookahead. -/
  | emptyLookahead
deriving DecidableEq, Repr

/-- An error as it is reported: stage, kind, message and offset. -/
structure Diagnostic where
  stage : Stage
  kind : Kind
  message : String
  offset : Int
deriving DecidableEq, Repr

namespace Diagnostic

def summary (d : Diagnostic) : String := s!"{d.kind.name} at {d.offset}: {d.message}"

/-- The error with its message quoted. -/
def inspect (d : Diagnostic) : String :=
  let quoted := String.ofList (Text.quoted d.message.toList)
  s!"{d.stage.name}({d.kind.name}, {quoted}, offset={d.offset})"

/-- The message with its line and column. Errors of files, and errors met before
there is a source, have no position. -/
def located (d : Diagnostic) (source : Option Text) : String :=
  match source with
  | some text =>
    if d.kind = .ioError then d.message
    else
      let position := Position.ofOffset text d.offset
      s!"{d.message} (line {position.line}, column {position.column})"
  | none => d.message

/-- The message for a terminal, its first word coloured red. -/
def coloured (d : Diagnostic) (source : Option Text) : String :=
  "\x1b[38;2;255;0;0merror: " ++ d.located source

end Diagnostic

namespace Failure

/-- The report of a compile error. -/
def diagnostic? : Failure → Option Diagnostic
  | error cause offset => some ⟨cause.stage, cause.kind, cause.message, offset.getD 0⟩
  | _ => none

end Failure

end Stylesheet

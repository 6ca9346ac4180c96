import Stylesheet.Failure
import Stylesheet.Text.Numeral
import Stylesheet.Text.Resemblance

/-! The arguments of the command line. They are read into settings and inputs; a
request for help or the version comes before every check, then the settings are
checked in the order they were given, and then the input. -/
namespace Stylesheet.CommandLine

/-- What an option sets. -/
inductive Setting where
  | style (name : Text)
  | precision (numeral : Text)
  | output (path : Text)
  | verbose
  | version
  | help
deriving DecidableEq, Repr

/-- Why arguments are refused. -/
inductive UsageError where
  | unknownOption (name : Text) (similar : List Text)
  | missingValue (name : Text)
  | unwantedValue (name : Text)
  | notAnInteger (numeral : Text)
  | outputIsDirectory (path : Text)
  | missingInput
  | extraArguments (arguments : List Text)
deriving DecidableEq, Repr

namespace UsageError

private def inQuotes (text : Text) : String := String.ofList (Text.quoted text)

private def spaced (arguments : List Text) : String :=
  String.ofList (List.intercalate [' '] arguments)

private def listInQuotes (names : List Text) : String :=
  String.ofList (List.intercalate [',', ' '] (names.map Text.quoted))

def message : UsageError → String
  | unknownOption name [] => s!"No such option {inQuotes name}."
  | unknownOption name [similar] =>
    s!"No such option {inQuotes name}. Did you mean {inQuotes similar}?"
  | unknownOption name similar =>
    s!"No such option {inQuotes name}. (Did you mean one of: {listInQuotes similar}?)"
  | missingValue name => s!"Option {inQuotes name} requires an argument."
  | unwantedValue name => s!"Option {inQuotes name} does not take a value."
  | notAnInteger numeral =>
    s!"Invalid value for '--precision': {inQuotes numeral} is not a valid integer."
  | outputIsDirectory path =>
    s!"Invalid value for '-o' / '--output': File {inQuotes path} is a directory."
  | missingInput => "Missing argument 'INPUT'."
  | extraArguments [argument] => s!"Got unexpected extra argument ({spaced [argument]})"
  | extraArguments arguments => s!"Got unexpected extra arguments ({spaced arguments})"

/-- Whether the usage is shown with the message. -/
def showsUsage : UsageError → Bool
  | missingValue _ | unwantedValue _ => false
  | _ => true

def report (error : UsageError) : String :=
  (if error.showsUsage then "Usage: main [OPTIONS] INPUT\nTry 'main --help' for help.\n\n" else "") ++
    s!"Error: {error.message}\n"

end UsageError

def helpText : String :=
  "Usage: main [OPTIONS] INPUT\n\n" ++
  "  Compile a nested stylesheet INPUT into flat css. Use `-` to read stdin.\n\n" ++
  "Options:\n" ++
  "  -t, --style TEXT     Output style: nested, expanded, compact, compressed\n" ++
  "                       [default: nested]\n" ++
  "  --precision INTEGER  Decimals kept in computed numbers [default: 5]\n" ++
  "  -o, --output FILE    Write css to this file instead of stdout\n" ++
  "  --verbose            Log each compile stage\n" ++
  "  --version            Show the version and exit.\n" ++
  "  --help               Show this message and exit.\n"

def versionText : String := "flatcss, version 0.1.0\n"

/-- How an option sets something: by itself or with a value. -/
inductive Switch where
  | flag (setting : Setting)
  | valued (setting : Text → Setting)

/-- The options with a long name, in the order of the alphabet. -/
def longOptions : List (Text × Switch) :=
  [("--help".toList, .flag .help), ("--output".toList, .valued .output),
    ("--precision".toList, .valued .precision), ("--style".toList, .valued .style),
    ("--verbose".toList, .flag .verbose), ("--version".toList, .flag .version)]

/-- The option of a long name. -/
def long? (name : Text) : Option Switch := longOptions.lookup name

/-- The long names that a mistyped one may stand for, at most three. -/
def similarTo (name : Text) : List Text := Text.closest 3 name (longOptions.map (·.1))

/-- The option of one letter; each takes a value. -/
def short? : Char → Option (Text → Setting)
  | 't' => some .style
  | 'o' => some .output
  | _ => none

/-- An option as far as its own argument tells: complete, or in want of a value. -/
inductive Reading where
  | complete (setting : Setting)
  | wants (name : Text) (setting : Text → Setting)

/-- Reads an argument that is an option. A long name has its value behind `=`, a
letter right behind it. -/
def readOption (argument : Text) : Except UsageError Reading :=
  let name := argument.takeWhile (· != '=')
  let value := (argument.dropWhile (· != '=')).tail?
  match long? name, value with
  | some (.flag setting), none => .ok (.complete setting)
  | some (.flag _), some _ => .error (.unwantedValue name)
  | some (.valued setting), none => .ok (.wants name setting)
  | some (.valued setting), some value => .ok (.complete (setting value))
  | none, _ =>
    match argument with
    | '-' :: '-' :: _ => .error (.unknownOption name (similarTo name))
    | dash :: letter :: value =>
      match short? letter with
      | none => .error (.unknownOption [dash, letter] [])
      | some setting =>
        if value.isEmpty then .ok (.wants [dash, letter] setting)
        else .ok (.complete (setting value))
    | _ => .error (.unknownOption name [])

/-- A dash alone is no option. -/
def isOption (argument : Text) : Bool := argument.head? == some '-' && argument.length != 1

/-- The settings and the inputs, each in order. An option in want of a value takes
the next argument, whatever it is; `--` ends the options. -/
def readArguments : List Text → Except UsageError (List Setting × List Text)
  | [] => .ok ([], [])
  | argument :: rest =>
    if argument = ['-', '-'] then .ok ([], rest)
    else if isOption argument then
      match readOption argument, rest with
      | .error error, _ => .error error
      | .ok (.complete setting), rest => do
        let (settings, inputs) ← readArguments rest
        return (setting :: settings, inputs)
      | .ok (.wants name _), [] => .error (.missingValue name)
      | .ok (.wants _ setting), value :: rest => do
        let (settings, inputs) ← readArguments rest
        return (setting value :: settings, inputs)
    else do
      let (settings, inputs) ← readArguments rest
      return (settings, argument :: inputs)

namespace Setting

def style? : Setting → Option Text
  | style name => some name
  | _ => none

def precision? : Setting → Option Text
  | precision numeral => some numeral
  | _ => none

def output? : Setting → Option Text
  | output path => some path
  | _ => none

/-- What a setting shows in place of a compilation. -/
def notice? : Setting → Option String
  | version => some versionText
  | help => some helpText
  | _ => none

end Setting

/-- What is set last. -/
def last? (get? : Setting → Option Text) (settings : List Setting) : Option Text :=
  settings.reverse.findSome? get?

/-- A compilation to run. -/
structure Job where
  input : Text
  style : Option Text
  precision : Option Int
  output : Option Text
  verbose : Bool
deriving DecidableEq, Repr

/-- What the command line asks for. -/
inductive Request where
  | notice (text : String)
  | compile (job : Job)
deriving DecidableEq, Repr

/-- Why settings are refused: as a usage error, or because the system does not take
them. -/
inductive Refusal where
  | usage (error : UsageError)
  | failure (failure : Failure)
deriving DecidableEq, Repr

def checkPrecision (settings : List Setting) : Except Refusal (Option Int) :=
  match last? Setting.precision? settings with
  | none => .ok none
  | some numeral =>
    match Text.decimal? numeral with
    | some n => .ok (some n)
    | none => .error (.usage (.notAnInteger numeral))

def checkOutput (isDirectory : Bool) (settings : List Setting) : Except Refusal (Option Text) :=
  match last? Setting.output? settings with
  | none => .ok none
  | some path =>
    if path.hasNul then .error (.failure .nul)
    else if isDirectory then .error (.usage (.outputIsDirectory path))
    else .ok (some path)

/-- Whether an output is set before any precision. -/
def outputFirst (settings : List Setting) : Bool :=
  (settings.takeWhile (·.precision?.isNone)).any (·.output?.isSome)

/-- Precision and output, checked in the order they are first set. -/
def checkSettings (isDirectory : Bool) (settings : List Setting) :
    Except Refusal (Option Int × Option Text) :=
  if outputFirst settings then do
    let output ← checkOutput isDirectory settings
    return (← checkPrecision settings, output)
  else do
    let precision ← checkPrecision settings
    return (precision, ← checkOutput isDirectory settings)

/-- The request of settings and inputs; `isDirectory` tells of the output that is
set last. -/
def request (isDirectory : Bool) (settings : List Setting) (inputs : List Text) :
    Except Refusal Request :=
  match settings.findSome? Setting.notice? with
  | some text => .ok (.notice text)
  | none => do
    let (precision, output) ← checkSettings isDirectory settings
    match inputs with
    | [] => .error (.usage .missingInput)
    | [input] =>
      return .compile ⟨input, last? Setting.style? settings, precision, output,
        settings.contains .verbose⟩
    | _ :: extra => .error (.usage (.extraArguments extra))

end Stylesheet.CommandLine

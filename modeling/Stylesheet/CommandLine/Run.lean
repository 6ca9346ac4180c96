import Stylesheet.CommandLine.Arguments
import Stylesheet.File
import Stylesheet.Options
import Stylesheet.Text.Escapes

/-! A run of the command line: the source is read and compiled, the css goes to a
file or to standard output, and a compile error to standard error. A run reaches
files, environment and standard input through a `Host`, so that it is the same run
in a tree of files and on a real system. -/
namespace Stylesheet.CommandLine

/-- What a run can reach around it. -/
structure Host (m : Type → Type) where
  environment : String → m (Option Text)
  isDirectory : Text → m Bool
  read : Text → m (Except PathFault ByteArray)
  write : Text → ByteArray → m (Except PathFault Unit)
  stdin : m ByteArray

/-- Exit code, standard output and standard error of a run. -/
structure Report where
  exit : Nat
  stdout : Text
  stderr : Text
deriving DecidableEq, Repr

/-- A report of what was written, in which a line feed alone ends a line. -/
def Report.of (exit : Nat) (stdout stderr : Text) : Report :=
  ⟨exit, Text.dropReturns stdout, Text.dropReturns stderr⟩

/-- The lines of a trace. -/
def traceText (events : List Event) : Text :=
  (events.filterMap Event.line?).flatMap fun line => line.toList ++ ['\n']

/-- The report of a compile error behind a trace. Any other failure is left as it
is. -/
def failed (trace : Text) (source : Option Text) (failure : Failure) : Except Failure Report :=
  match failure.diagnostic? with
  | some d =>
    .ok (.of 1 [] (trace ++ Text.withoutEscapes (d.coloured source).toList ++ ['\n']))
  | none => .error failure

/-- The css of a source. What a job does not set, the options do. -/
def compileJob (options : Options) (job : Job) (source : Text) : Traced Text := do
  let style ← match job.style with
    | some name => Style.ofName name
    | none => pure options.style
  compile source style (job.precision.getD options.precision)

section
variable {m : Type → Type} [Monad m]

/-- The source of an input: standard input for a dash, else a file. -/
def readSource (host : Host m) (input : Text) : m (Except Failure Text) := do
  if input = ['-'] then return sourceOf input (.ok (← host.stdin))
  else return sourceOf input (← host.read input)

/-- Puts css where a job wants it. -/
def deliver (host : Host m) (trace css : Text) : Option Text → m (Except Failure Report)
  | none => return .ok (.of 0 (Text.withoutEscapes css) trace)
  | some path => do
    match ← host.write path (Text.toBytes css) with
    | .ok () => return .ok (.of 0 [] trace)
    | .error fault => return failed trace none (.error (.unwritable path fault) none)

/-- Runs a job. The options are read before the source. -/
def runJob (host : Host m) (job : Job) : m (Except Failure Report) := do
  let style ← host.environment "FLATCSS_STYLE"
  match Options.ofEnvironment style (← host.environment "FLATCSS_PRECISION") with
  | .error failure => return failed [] none failure
  | .ok options =>
    match ← readSource host job.input with
    | .error failure => return failed [] none failure
    | .ok source =>
      let run := compileJob options job source
      let trace := if job.verbose then traceText run.events else []
      match run.result with
      | .error failure => return failed trace (some source) failure
      | .ok css => deliver host trace css job.output

/-- The report of refused arguments. -/
def refused (error : UsageError) : Report := .of 2 [] (Text.withoutEscapes error.report.toList)

/-- Runs the command line on arguments. -/
def run (host : Host m) (arguments : List Text) : m (Except Failure Report) := do
  match readArguments arguments with
  | .error error => return .ok (refused error)
  | .ok (settings, inputs) =>
    let isDirectory ← match last? Setting.output? settings with
      | some path => host.isDirectory path
      | none => pure false
    match request isDirectory settings inputs with
    | .error (.usage error) => return .ok (refused error)
    | .error (.failure failure) => return .error failure
    | .ok (.notice text) => return .ok (.of 0 text.toList [])
    | .ok (.compile job) => runJob host job

end

end Stylesheet.CommandLine

namespace Stylesheet.FileTree

open CommandLine

/-- A tree of files as a host, which the run changes. -/
def host (environment : String → Option Text) (stdin : ByteArray) : Host (StateM FileTree) where
  environment name := pure (environment name)
  isDirectory path := return (← get).isDirectory path
  read path := return (← get).read path
  write path bytes := do
    match (← get).write path bytes with
    | .ok after => set after; return .ok ()
    | .error fault => return .error fault
  stdin := pure stdin

end Stylesheet.FileTree

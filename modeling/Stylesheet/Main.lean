import Stylesheet.CommandLine.Run

/-! The program: the command line on the system it runs on. -/
namespace Stylesheet.CommandLine

/-- The fault in an error of the system. -/
def faultOf : IO.Error → PathFault
  | .noFileOrDirectory _ _ _ => .notFound
  | .inappropriateType _ _ details => if details = "Is a directory" then .isDirectory else .notDirectory
  | .permissionDenied _ _ details => .other details
  | error => .other error.toString

/-- An operation on a file, with its error as a fault. -/
def attempt (operation : IO α) : IO (Except PathFault α) := do
  match ← operation.toBaseIO with
  | .ok a => return .ok a
  | .error error => return .error (faultOf error)

/-- Reads a stream to its end. -/
partial def readAll (stream : IO.FS.Stream) (read : ByteArray) : IO ByteArray := do
  let bytes ← stream.read 65536
  if bytes.isEmpty then return read else readAll stream (read ++ bytes)

/-- The system as a host. -/
def systemHost : Host IO where
  environment name := return (← IO.getEnv name).map String.toList
  isDirectory path := do
    match ← attempt (IO.FS.realPath (String.ofList path)) with
    | .ok place => place.isDir
    | .error _ => return false
  read path := attempt (IO.FS.readBinFile (String.ofList path))
  write path bytes := attempt (IO.FS.writeBinFile (String.ofList path) bytes)
  stdin := do readAll (← IO.getStdin) ByteArray.empty

/-- How a failure that is no compile error ends the program. -/
def crash : Failure → String
  | .number .overflow => "a number is too large"
  | .number .undefined => "a number is undefined"
  | .number .places => "too many places are asked for"
  | .channel => "a colour channel is no numeral"
  | .endless => "mixins include each other without end"
  | .undecodable => "the input is not UTF-8"
  | .nul => "a path has a NUL"
  | .noList => "neither side is a list"
  | .emptyLookahead => "the lookahead is empty"
  | .error cause _ => cause.message

end Stylesheet.CommandLine

open Stylesheet.CommandLine in
def main (arguments : List String) : IO UInt32 := do
  match ← run systemHost (arguments.map String.toList) with
  | .ok report =>
    (← IO.getStdout).putStr (String.ofList report.stdout)
    (← IO.getStderr).putStr (String.ofList report.stderr)
    return report.exit.toUInt32
  | .error failure =>
    (← IO.getStderr).putStr (crash failure ++ "\n")
    return 1

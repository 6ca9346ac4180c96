import Stylesheet.Failure

/-! Files and directories around a working directory. A path is walked name by
name; a missing name, a file in the middle of a path and a directory in place of a
file are told apart. Of what lies outside the working directory little is known. -/
namespace Stylesheet

/-- Directories and files by the names that lead to them. -/
structure FileTree where
  directories : List (List Text)
  files : List (List Text × ByteArray)

namespace FileTree

/-- What a path leads to. -/
inductive Entry where
  | directory (names : List Text)
  | file (bytes : ByteArray)

/-- The name of the directory above. -/
def up : Text := ['.', '.']

/-- The topmost directory; no name has a slash in it. -/
def top : List Text := [['/']]

/-- A working directory with given directories and files. Outside of it there is
what every system has: a directory for devices, with an empty one among them, and
one for temporary files. -/
def ofEntries (directories : List (List Text)) (files : List (List Text × ByteArray)) : FileTree :=
  { directories := directories ++ [top ++ ["tmp".toList]]
    files := files ++ [(top ++ ["dev".toList, "null".toList], ByteArray.empty)] }

/-- The names in a path, which slashes separate. -/
def names : Text → List Text
  | [] => [[]]
  | c :: rest =>
    if c = '/' then [] :: names rest
    else match names rest with
      | [] => [[c]]
      | name :: more => (c :: name) :: more

/-- Whether names lead to a directory: one that is listed, or one around another
entry. -/
def isDirectoryAt (t : FileTree) (names : List Text) : Bool :=
  (t.directories ++ t.files.map (·.1.dropLast)).any fun entry => names.isPrefixOf entry

def file? (t : FileTree) (names : List Text) : Option ByteArray :=
  (t.files.find? (·.1 == names)).map (·.2)

/-- The bytes of a name or a path, of which a name has at most 255 and a path at
most 4095. -/
def byteCount (text : Text) : Nat := (String.ofList text).utf8ByteSize

def isLongName (name : Text) : Bool := 255 < byteCount name

def isLongPath (path : Text) : Bool := 4095 < byteCount path

/-- The directory above a directory; the topmost is above itself. -/
def above (names : List Text) : List Text :=
  match names.getLast? with
  | none => [up]
  | some last =>
    if last = up then names ++ [up] else if names = top then top else names.dropLast

/-- Walks on by names. An empty name and a dot stay in a directory. -/
def walk (t : FileTree) : Entry → List Text → Except PathFault Entry
  | entry, [] => .ok entry
  | .file _, _ :: _ => .error .notDirectory
  | .directory here, name :: rest =>
    if name = [] ∨ name = ['.'] then walk t (.directory here) rest
    else if name = up then walk t (.directory (above here)) rest
    else if isLongName name then .error .nameTooLong
    else if t.isDirectoryAt (here ++ [name]) then walk t (.directory (here ++ [name])) rest
    else match t.file? (here ++ [name]) with
      | some bytes => walk t (.file bytes) rest
      | none => .error .notFound

/-- Where a path starts. -/
def start (path : Text) : Entry := .directory (if path.head? = some '/' then top else [])

/-- What a path leads to. The empty path leads nowhere. -/
def locate (t : FileTree) (path : Text) : Except PathFault Entry :=
  if path.isEmpty then .error .notFound
  else if isLongPath path then .error .nameTooLong
  else t.walk (start path) (names path)

def isDirectory (t : FileTree) (path : Text) : Bool :=
  match t.locate path with
  | .ok (.directory _) => true
  | _ => false

/-- The bytes of the file at a path. -/
def read (t : FileTree) (path : Text) : Except PathFault ByteArray :=
  match t.locate path with
  | .ok (.file bytes) => .ok bytes
  | .ok (.directory _) => .error .isDirectory
  | .error fault => .error fault

/-- The tree with bytes in the file that names lead to. -/
def put (t : FileTree) (names : List Text) (bytes : ByteArray) : FileTree :=
  { t with files := t.files.filter (·.1 != names) ++ [(names, bytes)] }

/-- The tree with bytes in the file at a path. The directory around the file has to
exist, and a path that ends in a slash is one of a directory. -/
def write (t : FileTree) (path : Text) (bytes : ByteArray) : Except PathFault FileTree :=
  if isLongPath path then .error .nameTooLong
  else match (names path).reverse.dropWhile (·.isEmpty) with
    | [] => .error (if path.isEmpty then .notFound else .isDirectory)
    | name :: parents =>
      match t.walk (start path) parents.reverse with
      | .error fault => .error fault
      | .ok (.file _) => .error .notDirectory
      | .ok (.directory here) =>
        if name = ['.'] ∨ name = up ∨ path.getLast? = some '/' then .error .isDirectory
        else if isLongName name then .error .nameTooLong
        else if t.isDirectoryAt (here ++ [name]) then .error .isDirectory
        else .ok (t.put (here ++ [name]) bytes)

/-- The files of the working directory itself that are new or changed since
`before`. -/
def changes (before after : FileTree) : List (Text × ByteArray) :=
  after.files.filterMap fun (names, bytes) =>
    match names with
    | [name] => if before.file? names == some bytes then none else some (name, bytes)
    | _ => none

end FileTree

end Stylesheet

/-!
# Files

What a program can do with files, whatever holds them, and why it can fail. Paths have names
between slashes; the name `.` stands for the directory itself and `..` for the one around it.
-/

namespace MetadataFilter

/-- Why a file cannot be used. -/
inductive FileError where
  | notFound
  | alreadyExists
  | notADirectory
  | isADirectory
  | nameTooLong
  /-- A NUL in a name. -/
  | nulInName
  /-- The bytes of the file are no text. -/
  | notText
  | other (text : String)
deriving DecidableEq

/-- The message for a file that cannot be used, with the number of the error where it has one. -/
def FileError.message : FileError → String
  | notFound => "No such file or directory (os error 2)"
  | alreadyExists => "File exists (os error 17)"
  | notADirectory => "Not a directory (os error 20)"
  | isADirectory => "Is a directory (os error 21)"
  | nameTooLong => "File name too long (os error 36)"
  | nulInName => "file name contained an unexpected NUL byte"
  | notText => "stream did not contain valid UTF-8"
  | other text => text

/-- What a file or stream holds: a text, or bytes that are none. -/
inductive Content where
  | text (s : String)
  | binary
deriving DecidableEq

/-- The text of a content. -/
def Content.read : Content → Except FileError String
  | text s => .ok s
  | binary => .error .notText

/-- What a program can do with files. -/
class FileStore (m : Type → Type) where
  /-- Whether there is a file or directory. -/
  isThere : String → m Bool
  /-- Whether there is a directory. -/
  isDirectory : String → m Bool
  /-- The text of a file. -/
  read : String → m (Except FileError String)
  /-- Makes a directory inside one that is there. -/
  makeDirectory : String → m (Except FileError Unit)
  /-- Gives a file a text, and makes it if it is not there. -/
  write : String → String → m (Except FileError Unit)

namespace Path

/-- The names of a path, with an empty one at the front for a path from the root. -/
def names (path : String) : List String :=
  let names := ((path.toList.splitOn '/').map String.ofList).filter (· != "")
  if path.startsWith "/" then "/" :: names else names

/-- A path from its names. -/
def ofNames : List String → String
  | "/" :: names => "/" ++ "/".intercalate names
  | names => "/".intercalate names

/-- The path around a path. Names that stand for the directory itself do not count, unless they
come first. -/
def parent? (path : String) : Option String :=
  let names := match names path with
    | [] => []
    | first :: rest => first :: rest.filter (· != ".")
  match names with
  | [] | ["/"] => none
  | names => some (ofNames names.dropLast)

/-- A path with one more name. -/
def join (path name : String) : String :=
  if path.endsWith "/" then path ++ name else path ++ "/" ++ name

end Path

namespace FileStore

variable {m : Type → Type} [Monad m] [FileStore m]

/-- The outcome of making a directory: one that could not be made will do if it is there. -/
def settle (path : String) : Except FileError Unit → m (Except FileError Unit)
  | .ok () => return .ok ()
  | .error e => return if ← isDirectory path then .ok () else .error e

/-- Makes a directory after those around it, as many as `fuel`. What has been made stays if a later
step fails. -/
def makeAll : Nat → String → m (Except FileError Unit)
  | 0, _ => return .error .notFound
  | fuel + 1, path => do
    if path.isEmpty then return .ok ()
    match ← makeDirectory path with
    | .error .notFound =>
      match Path.parent? path with
      | none => return .error (.other "failed to create whole tree")
      | some parent =>
        match ← makeAll fuel parent with
        | .error e => return .error e
        | .ok () => settle path (← makeDirectory path)
    | outcome => settle path outcome

/-- Makes a directory and those around it, unless they are there. -/
def makeDirectories (path : String) : m (Except FileError Unit) := makeAll (path.length + 1) path

end FileStore

end MetadataFilter

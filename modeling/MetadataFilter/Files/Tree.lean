import MetadataFilter.Files.Basic

/-!
# Files in memory

A tree of files and directories, in which a program can be run without touching any other files. A
place is given by the names on the way from the root. Paths start at the working directory unless
they begin with a slash, and may lead out of it.

Main statements:

* `find?_put_self`, `find?_put_of_ne`  what has been put in a place is found there, and nowhere else
-/

namespace MetadataFilter

namespace FileTree

/-- What stands in a place. -/
inductive Entry where
  | directory
  | file (content : Content)
  /-- It takes every content and holds none. -/
  | sink
deriving DecidableEq

/-- The names on the way from the root to a place. -/
abbrev Location := List String

end FileTree

/-- Files and directories by their places; of two entries for one place the first counts. -/
structure FileTree where
  entries : List (FileTree.Location × FileTree.Entry)

namespace FileTree

/-- The place where paths start. Its own name is empty, so that no path spells it. -/
def workingDirectory : Location := ["tmp", ""]

/-- The directories that every system has under its root. -/
def systemDirectories : List String :=
  ["bin", "dev", "etc", "home", "lib", "proc", "root", "sys", "tmp", "usr", "var"]

/-- The tree in which a program starts: nothing is in the working directory. -/
def initial : FileTree :=
  ⟨(workingDirectory, .directory) :: (["dev", "null"], .sink) ::
    systemDirectories.map fun name => ([name], .directory)⟩

/-- What stands in a place. -/
def find? (t : FileTree) (location : Location) : Option Entry :=
  if location = [] then some .directory else t.entries.lookup location

/-- Puts something in a place. -/
def put (t : FileTree) (location : Location) (entry : Entry) : FileTree :=
  ⟨(location, entry) :: t.entries⟩

/-- What has been put in a place is found there. -/
theorem find?_put_self (t : FileTree) {location : Location} (entry : Entry)
    (h : location ≠ []) : (t.put location entry).find? location = some entry := by
  simp [find?, put, h]

/-- Putting something in a place changes no other place. -/
theorem find?_put_of_ne (t : FileTree) {location other : Location} (entry : Entry)
    (h : other ≠ location) : (t.put location entry).find? other = t.find? other := by
  have : (other == location) = false := by simpa using h
  simp [find?, put, List.lookup_cons, this]

/-- The longest name that a file may have, in bytes. -/
def maxName : Nat := 255

/-- The longest path that is looked up, in bytes. -/
def maxPath : Nat := 4095

/-- Goes from a directory to what a name stands for there, which need not exist. -/
def step (location : Location) (name : String) : Except FileError Location :=
  if name = "/" then .ok []
  else if name = "." then .ok location
  else if name = ".." then .ok location.dropLast
  else if maxName < name.utf8ByteSize then .error .nameTooLong
  else .ok (location ++ [name])

/-- Goes from a directory into another one. -/
def enter (t : FileTree) (location : Location) (name : String) : Except FileError Location := do
  let next ← step location name
  match t.find? next with
  | none => throw .notFound
  | some .directory => return next
  | some _ => throw .notADirectory

/-- Where a path leads: to a name in a directory that is there. -/
structure Target where
  around : Location
  name : String
  /-- Whether the path says that it leads to a directory. -/
  directory : Bool

/-- The place that a path leads to. -/
def Target.location (target : Target) : Except FileError Location := step target.around target.name

/-- Goes along a path up to its last name. -/
def resolve (t : FileTree) (path : String) : Except FileError Target := do
  if path.toList.contains '\x00' then throw .nulInName
  if path.isEmpty then throw .notFound
  if maxPath < path.utf8ByteSize then throw .nameTooLong
  let names := Path.names path
  let around ← names.dropLast.foldlM t.enter workingDirectory
  let name := names.getLast?.getD "."
  return ⟨around, name, name == "/" || name == "." || name == ".." || path.endsWith "/"⟩

/-- What stands at the end of a path. -/
def lookup (t : FileTree) (path : String) : Except FileError Entry := do
  let target ← t.resolve path
  match t.find? (← target.location) with
  | none => throw .notFound
  | some .directory => return .directory
  | some entry => if target.directory then throw .notADirectory else return entry

/-- Whether there is something at the end of a path. -/
def isThere (t : FileTree) (path : String) : Bool :=
  match t.lookup path with
  | .ok _ => true
  | .error _ => false

/-- Whether there is a directory at the end of a path. -/
def isDirectory (t : FileTree) (path : String) : Bool :=
  match t.lookup path with
  | .ok .directory => true
  | _ => false

/-- The content of a file. -/
def content (t : FileTree) (path : String) : Except FileError Content := do
  match ← t.lookup path with
  | .file content => return content
  | .sink => return .text ""
  | .directory => throw .isADirectory

/-- Gives a file a content. A path that says that it leads to a directory is refused before its last
name is looked at. -/
def write (t : FileTree) (path : String) (content : Content) : Except FileError FileTree := do
  let target ← t.resolve path
  if target.directory then throw .isADirectory
  let location ← target.location
  match t.find? location with
  | some .directory => throw .isADirectory
  | some .sink => return t
  | _ => return t.put location (.file content)

/-- Makes one directory in a place where there is nothing. -/
def makeDirectory (t : FileTree) (path : String) : Except FileError FileTree := do
  let location ← (← t.resolve path).location
  match t.find? location with
  | some _ => throw .alreadyExists
  | none => return t.put location .directory

/-- Keeps a changed tree, or says why there is none. -/
def keep : Except FileError FileTree → StateM FileTree (Except FileError Unit)
  | .ok t => do
    set t
    return .ok ()
  | .error e => return .error e

instance : FileStore (StateM FileTree) where
  isThere path := return (← get).isThere path
  isDirectory path := return (← get).isDirectory path
  read path := return (← get).content path >>= Content.read
  makeDirectory path := do keep ((← get).makeDirectory path)
  write path s := do keep ((← get).write path (.text s))

end FileTree

end MetadataFilter

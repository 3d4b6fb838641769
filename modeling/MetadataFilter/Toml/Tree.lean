/-!
# The tree of a TOML document

A document is a table of members, which hold scalars, arrays and further tables. How a table came to
be decides what may still be added to it: `assign` adds a member under a dotted key, and `open?` and
`openArray?` add what a header names.
-/

namespace MetadataFilter.Toml

/-- How a table came to be. -/
inductive Origin where
  /-- By a header of its own. -/
  | header
  /-- By the header of a table inside it. -/
  | implied
  /-- By a dotted key. -/
  | dotted
  /-- In braces, as a whole. -/
  | inline
deriving DecidableEq

/-- A piece of a document. Of a float only that it is one is kept, and of a date its text. -/
inductive Node where
  | text (s : String)
  | integer (n : Int)
  | float
  | boolean (b : Bool)
  | date (text : String)
  | array (elements : List Node)
  | table (origin : Origin) (members : List (String × Node))
  /-- Tables that headers with two brackets add one after the other, the last one first. -/
  | tables (last : List (String × Node)) (earlier : List (List (String × Node)))

/-- The members of a table. -/
abbrev Members := List (String × Node)

namespace Members

/-- The member of a name. -/
def get? (ms : Members) (name : String) : Option Node := ms.lookup name

/-- The members with another value for a name that they hold. -/
def replace (ms : Members) (name : String) (value : Node) : Members :=
  ms.map fun m => if m.1 = name then (name, value) else m

/-- Changes the table under a name: a new one if there is none, else one that `allowed` admits, or
the last of several. -/
def change (ms : Members) (name : String) (fresh : Origin) (allowed : Origin → Bool)
    (f : Members → Option Members) : Option Members :=
  match ms.get? name with
  | none => do return (name, .table fresh (← f [])) :: ms
  | some (.table origin sub) =>
    if allowed origin then do return ms.replace name (.table origin (← f sub)) else none
  | some (.tables last earlier) => do return ms.replace name (.tables (← f last) earlier)
  | some _ => none

/-- Adds a member under a dotted key. The tables on the way may not have a header of their own nor
be in braces, and the last of them has to stem from a dotted key. -/
def assign (value : Node) (name : String) : List String → Members → Option Members
  | [], ms => if (ms.get? name).isSome then none else some ((name, value) :: ms)
  | [parent], ms =>
    match ms.get? parent with
    | some (.tables _ _) => none
    | _ => ms.change parent .dotted (· == .dotted) (assign value name [])
  | parent :: path, ms =>
    ms.change parent .dotted (fun o => o == .dotted || o == .implied) (assign value name path)

/-- Changes what stands under the last name of a header's path. The tables on the way may not be in
braces; those that are missing are implied. -/
def alongHeader (f : String → Members → Option Members) : List String → Members → Option Members
  | [], _ => none
  | [name], ms => f name ms
  | parent :: path, ms => ms.change parent .implied (· != .inline) (alongHeader f path)

/-- Adds the table that a header names. It may be there if it is only implied so far. -/
def open? (path : List String) (ms : Members) : Option Members :=
  alongHeader (fun name ms =>
    match ms.get? name with
    | none => some ((name, .table .header []) :: ms)
    | some (.table .implied sub) => some (ms.replace name (.table .header sub))
    | some _ => none) path ms

/-- Adds one more table under the name of a header with two brackets. -/
def openArray? (path : List String) (ms : Members) : Option Members :=
  alongHeader (fun name ms =>
    match ms.get? name with
    | none => some ((name, .tables [] []) :: ms)
    | some (.tables last earlier) => some (ms.replace name (.tables [] (last :: earlier)))
    | some _ => none) path ms

/-- Changes the table that the last header added, the whole document before the first one. -/
def inside (f : Members → Option Members) (path : List String) (ms : Members) : Option Members :=
  match path with
  | [] => f ms
  | parent :: path => ms.change parent .implied (· != .inline) (inside f path)

end Members

end MetadataFilter.Toml

import MetadataFilter.Toml.Number

/-!
# Reading TOML documents

A document is read line by line: members of the table that the last header opened, headers, and
comments. Arrays may stretch over lines, tables in braces may not.
-/

namespace MetadataFilter.Toml

open Text.Reader

/-- Skips blanks, comments and line breaks. Inside a comment everything counts that is printable. -/
def skipLines (comment : Bool) : List Char → Option (List Char)
  | '\r' :: '\n' :: cs => skipLines false cs
  | '\n' :: cs => skipLines false cs
  | c :: cs =>
    if comment then if isPrintable c then skipLines true cs else none
    else if isSpace c then skipLines false cs
    else if c == '#' then skipLines true cs
    else some (c :: cs)
  | [] => some []

/-- Skips blanks, comments and line breaks. -/
def lines : Text.Reader Unit := fun cs => (skipLines false cs).map ((), ·)

/-- Takes a word that has to come next. -/
def word (w : List Char) : Text.Reader Unit := w.forM expect

/-- The table in braces with the given members, each under its dotted key. -/
def inlineTable? (members : List (List String × Node)) : Option Node :=
  (members.foldlM add []).map (.table .inline)
where
  /-- Adds a member under its dotted key. -/
  add (ms : Members) (m : List String × Node) : Option Members := do
    ms.assign m.2 (← m.1.getLast?) m.1.dropLast

mutual

/-- A value inside `depth` brackets. Every level and every item uses up one unit of fuel and at
least one character. -/
def value (fuel depth : Nat) : Text.Reader Node :=
  match fuel with
  | 0 => failure
  | fuel + 1 => do
    match ← peek? with
    | some '\x22' | some '\'' => return .text (← string)
    | some 't' => word ['t', 'r', 'u', 'e'] *> pure (.boolean true)
    | some 'f' => word ['f', 'a', 'l', 's', 'e'] *> pure (.boolean false)
    | some '[' =>
      if maxNesting ≤ depth then failure
      skip
      lines
      if ← take? ']' then return .array []
      else return .array (← elements fuel (depth + 1))
    | some '\x7b' =>
      if maxNesting ≤ depth then failure
      skip
      space
      let members ← if ← take? '\x7d' then pure [] else members fuel (depth + 1)
      match inlineTable? members with
      | some table => return table
      | none => failure
    | _ => date <|> number

/-- The elements of an array and its closing bracket. -/
def elements (fuel depth : Nat) : Text.Reader (List Node) :=
  match fuel with
  | 0 => failure
  | fuel + 1 => do
    let v ← value fuel depth
    lines
    if ← take? ',' then
      lines
      if ← take? ']' then return [v]
      else return v :: (← elements fuel depth)
    else
      expect ']'
      return [v]

/-- The members of a table in braces and the closing brace. -/
def members (fuel depth : Nat) : Text.Reader (List (List String × Node)) :=
  match fuel with
  | 0 => failure
  | fuel + 1 => do
    let k ← key
    space
    expect '='
    space
    let v ← value fuel depth
    space
    if ← take? ',' then return (k, v) :: (← members fuel depth)
    else
      expect '\x7d'
      return [(k, v)]

end

/-- The end of a line, with blanks and a comment before it. -/
def lineEnd : Text.Reader Unit := do
  space
  if (← peek?) = some '#' then skipWhile isPrintable
  let cs ← get
  match afterNewline? cs with
  | some rest => set rest
  | none => if cs.isEmpty then return else failure

/-- A document as far as it has been read: its members, and the path of the last header. -/
structure Draft where
  root : Members
  path : List String

/-- Adds a member to the table of the last header. -/
def Draft.assign? (d : Draft) (key : List String) (value : Node) : Option Draft := do
  let name ← key.getLast?
  return { d with root := ← d.root.inside (Members.assign value name key.dropLast) d.path }

/-- Opens the table that a header names. -/
def Draft.open? (d : Draft) (path : List String) : Option Draft :=
  (d.root.open? path).map (⟨·, path⟩)

/-- Opens one more table under the name of a header with two brackets. -/
def Draft.openArray? (d : Draft) (path : List String) : Option Draft :=
  (d.root.openArray? path).map (⟨·, path⟩)

/-- A step that fails with its result. -/
def orFail (d : Option Draft) : Text.Reader Draft :=
  match d with
  | some d => return d
  | none => failure

/-- A header and the rest of its line. -/
def header (d : Draft) : Text.Reader Draft := do
  expect '['
  if ← take? '[' then
    let path ← key
    word [']', ']']
    lineEnd
    orFail (d.openArray? path)
  else
    let path ← key
    expect ']'
    lineEnd
    orFail (d.open? path)

/-- A member and the rest of its line. -/
def member (d : Draft) : Text.Reader Draft := do
  let k ← key
  expect '='
  space
  let cs ← get
  let v ← value (cs.length + 1) 0
  lineEnd
  orFail (d.assign? k v)

/-- The lines of a document. Every line uses up one unit of fuel and at least one character. -/
def document (fuel : Nat) (d : Draft) : Text.Reader Members :=
  match fuel with
  | 0 => failure
  | fuel + 1 => do
    space
    match ← peek? with
    | none => return d.root
    | some '#' | some '\n' | some '\r' =>
      lineEnd
      document fuel d
    | some '[' => document fuel (← header d)
    | some _ => document fuel (← member d)

/-- The document that a text spells, which may start with a mark of its byte order. -/
def ofString? (text : String) : Option Members :=
  let cs := match text.toList with
    | '\ufeff' :: cs => cs
    | cs => cs
  (document (cs.length + 1) ⟨[], []⟩ cs).map (·.1)

end MetadataFilter.Toml

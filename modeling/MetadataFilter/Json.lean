import MetadataFilter.Double.Text

/-!
# JSON documents

Documents are trees; the members of an object keep their order. They are written without spaces or
with two spaces for each level.
-/

namespace MetadataFilter

/-- A JSON document. -/
inductive Json where
  | null
  | boolean (b : Bool)
  | integer (n : Int)
  | decimal (x : Double)
  | text (s : String)
  | array (elements : List Json)
  | object (members : List (String × Json))

namespace Json

/-- A character in a JSON string: only quotes, backslashes and control characters have an escape,
in the shortest form there is. -/
def escapeChar (c : Char) : List Char :=
  match c with
  | '\x22' => ['\\', '\x22']
  | '\\' => ['\\', '\\']
  | '\x08' => ['\\', 'b']
  | '\x0c' => ['\\', 'f']
  | '\n' => ['\\', 'n']
  | '\r' => ['\\', 'r']
  | '\t' => ['\\', 't']
  | c =>
    if c.toNat < 0x20 then
      ['\\', 'u', '0', '0', Nat.digitChar (c.toNat / 16), Nat.digitChar (c.toNat % 16)]
    else [c]

/-- A text as a JSON string. -/
def quote (s : String) : String :=
  String.ofList ('\x22' :: s.toList.flatMap escapeChar ++ ['\x22'])

/-- A decimal; what is not finite has no spelling of its own. -/
def decimalText (x : Double) : String := x.compact?.getD "null"

mutual

/-- A document without spaces. -/
def compact : Json → String
  | null => "null"
  | boolean b => if b then "true" else "false"
  | integer n => Text.integerText n
  | decimal x => decimalText x
  | text s => quote s
  | array elements => "[" ++ ",".intercalate (compactElements elements) ++ "]"
  | object members => "\x7b" ++ ",".intercalate (compactMembers members) ++ "\x7d"

/-- The elements of an array without spaces. -/
def compactElements : List Json → List String
  | [] => []
  | j :: js => j.compact :: compactElements js

/-- The members of an object without spaces. -/
def compactMembers : List (String × Json) → List String
  | [] => []
  | (name, j) :: ms => (quote name ++ ":" ++ j.compact) :: compactMembers ms

end

/-- A line break before `depth` levels of two spaces. -/
def newline (depth : Nat) : String :=
  String.ofList ('\n' :: List.replicate (2 * depth) ' ')

/-- Items between brackets, each on a line of its own, one level deeper than the brackets. -/
def block (opening closing : String) (depth : Nat) (items : List String) : String :=
  if items.isEmpty then opening ++ closing
  else
    opening ++ newline (depth + 1) ++ ("," ++ newline (depth + 1)).intercalate items ++
      newline depth ++ closing

mutual

/-- A document over several lines that starts `depth` levels deep. -/
def prettyAt (depth : Nat) : Json → String
  | array elements => block "[" "]" depth (prettyElements (depth + 1) elements)
  | object members => block "\x7b" "\x7d" depth (prettyMembers (depth + 1) members)
  | j => j.compact

/-- The elements of an array, each over several lines. -/
def prettyElements (depth : Nat) : List Json → List String
  | [] => []
  | j :: js => j.prettyAt depth :: prettyElements depth js

/-- The members of an object, each over several lines. -/
def prettyMembers (depth : Nat) : List (String × Json) → List String
  | [] => []
  | (name, j) :: ms => (quote name ++ ": " ++ j.prettyAt depth) :: prettyMembers depth ms

end

/-- Members in the order of their names with one more. -/
def insertMember (name : String) (value : Json) : List (String × Json) → List (String × Json)
  | [] => [(name, value)]
  | m :: ms =>
    if m.1 < name then m :: insertMember name value ms else (name, value) :: m :: ms

mutual

/-- A document with the members of all its objects in the order of their names. -/
def sorted : Json → Json
  | array elements => array (sortedElements elements)
  | object members => object (sortedMembers members)
  | j => j

/-- The elements of an array, each with its members in order. -/
def sortedElements : List Json → List Json
  | [] => []
  | j :: js => j.sorted :: sortedElements js

/-- The members of an object in order. -/
def sortedMembers : List (String × Json) → List (String × Json)
  | [] => []
  | (name, j) :: ms => insertMember name j.sorted (sortedMembers ms)

end

/-- A document over several lines. -/
def pretty (j : Json) : String := j.prettyAt 0

end Json

end MetadataFilter

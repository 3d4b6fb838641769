import MetadataFilter.Render.Config
import MetadataFilter.Render.Dialect
import MetadataFilter.Text.Quoted
import MetadataFilter.Text.WordTable
import MetadataFilter.Token.Lexer

/-!
# Conditions on graph nodes

A filter becomes a condition on the properties of a node. The whole path of a field, with the
column's name in front, is the name of one property.
-/

namespace MetadataFilter.Cypher

/-- A name between back-ticks. -/
def quotedName (name : String) : String := Text.quoteDoubled '\x60' name

/-- The words that cannot stand as a variable's name, in any case. -/
def reservedWords : List String :=
  ["ADD", "ALL", "AND", "AS", "ASC", "ASCENDING", "BY", "CALL", "CASE", "CONSTRAINT",
   "CONTAINS", "CREATE", "DELETE", "DESC", "DESCENDING", "DETACH", "DISTINCT", "DO", "DROP",
   "ELSE", "END", "ENDS", "EXISTS", "FALSE", "FOR", "IN", "IS", "LIMIT", "MANDATORY",
   "MATCH", "MERGE", "NOT", "NULL", "OF", "ON", "OPTIONAL", "OR", "ORDER", "REMOVE",
   "REQUIRE", "RETURN", "SCALAR", "SET", "SKIP", "STARTS", "THEN", "TRUE", "UNION",
   "UNIQUE", "UNWIND", "USE", "WHEN", "WHERE", "WITH", "XOR", "YIELD"]

/-- The reserved words, to look them up. -/
def reservedTable : Text.WordTable where
  words := reservedWords.toArray

/-- Looking a word up finds exactly the reserved ones. -/
theorem contains_reservedTable (word : String) :
    reservedTable.contains word = decide (word ∈ reservedWords) := by
  rw [Text.WordTable.contains_eq_mem]
  simp [reservedTable]

/-- A variable's name, quoted unless it is a word that is not reserved. -/
def variableName (name : String) : String :=
  if Token.isWord name && !reservedTable.contains (name.map Char.toUpper) then name
  else quotedName name

/-- A character of a string literal. -/
def escapeChar : Char → List Char
  | '\\' => ['\\', '\\']
  | '\'' => ['\\', '\'']
  | '\n' => ['\\', 'n']
  | '\r' => ['\\', 'r']
  | '\t' => ['\\', 't']
  | c => [c]

/-- A text as a string literal. -/
def string (s : String) : String :=
  String.ofList ('\'' :: s.toList.flatMap escapeChar ++ ['\''])

/-- The property that holds a field. -/
def property (config : RenderConfig) (key : Key) : String :=
  let path := (config.path key).dotted
  let name := if config.metadataColumn.isEmpty then path
    else config.metadataColumn ++ "." ++ path
  variableName config.nodeAlias ++ "." ++ quotedName name

/-- A value: a number, a truth value, or a string literal. -/
def value (v : Value) : Rendered String := v.render fun s => .ok (string s)

/-- The spelling of a comparison operator. -/
def operator : CompareOp → String
  | .equal => "="
  | .notEqual => "<>"
  | .greater => ">"
  | .greaterEqual => ">="
  | .less => "<"
  | .lessEqual => "<="

/-- Conditions on nodes as a dialect. -/
def dialect (config : RenderConfig) : Dialect where
  comparison k op v := return s!"{property config k} {operator op} {← value v}"
  membership k negated vs := do
    let values ← vs.toList.mapM value
    let test := s!"{property config k} IN [" ++ ", ".intercalate values ++ "]"
    return if negated then "NOT " ++ test else test
  word
    | .and => "AND"
    | .or => "OR"

/-- A filter as a condition on a node. -/
def render (config : RenderConfig) (e : Expr) : Rendered String := (dialect config).render e

end MetadataFilter.Cypher

import MetadataFilter.Render.Config
import MetadataFilter.Render.Dialect
import MetadataFilter.Text.Quoted
import MetadataFilter.Text.WordTable
import MetadataFilter.Token.Lexer

/-!
# Conditions in SQL

A filter becomes a condition on a column that holds JSON. Fields are taken out of the column as
text and cast to the type of the values they are compared with. Strings and the names of fields are
string literals; the name of the column is an identifier, quoted unless it is safe without.
-/

namespace MetadataFilter.Sql

/-- The types that a field can be cast to. -/
inductive Cast where
  | text | numeric | boolean
deriving DecidableEq

/-- The type of field that a value is compared with. -/
def Cast.ofValue : Value → Cast
  | .text _ => text
  | .integer _ | .decimal _ => numeric
  | .boolean _ => boolean

/-- A text as a string literal, which cannot hold a NUL. -/
def string (s : String) : Rendered String :=
  if '\x00' ∈ s.toList then .error .nulCharacter else .ok (Text.quoteDoubled '\'' s)

/-- The words that cannot stand as a column's name. -/
def reservedWords : List String :=
  ["all", "analyse", "analyze", "and", "any", "array", "as", "asc", "asymmetric",
   "authorization", "between", "bigint", "binary", "bit", "boolean", "both", "case", "cast",
   "char", "character", "check", "coalesce", "collate", "collation", "column", "concurrently",
   "constraint", "create", "cross", "current_catalog", "current_date", "current_role",
   "current_schema", "current_time", "current_timestamp", "current_user", "dec", "decimal",
   "default", "deferrable", "desc", "distinct", "do", "else", "end", "except", "exists",
   "extract", "false", "fetch", "float", "for", "foreign", "freeze", "from", "full",
   "grant", "greatest", "group", "grouping", "having", "ilike", "in", "initially", "inner",
   "inout", "int", "integer", "intersect", "interval", "into", "is", "isnull", "join",
   "lateral", "leading", "least", "left", "like", "limit", "localtime", "localtimestamp",
   "national", "natural", "nchar", "none", "normalize", "not", "notnull", "null", "nullif",
   "numeric", "offset", "on", "only", "or", "order", "out", "outer", "overlaps", "overlay",
   "placing", "position", "precision", "primary", "real", "references", "returning",
   "right", "row", "select", "session_user", "setof", "similar", "smallint", "some",
   "substring", "symmetric", "system_user", "table", "tablesample", "then", "time",
   "timestamp", "to", "trailing", "treat", "trim", "true", "union", "unique", "user",
   "using", "values", "varchar", "variadic", "verbose", "when", "where", "window", "with"]

/-- The reserved words, to look them up. -/
def reservedTable : Text.WordTable where
  words := reservedWords.toArray

/-- Looking a word up finds exactly the reserved ones. -/
theorem contains_reservedTable (word : String) :
    reservedTable.contains word = decide (word ∈ reservedWords) := by
  rw [Text.WordTable.contains_eq_mem]
  simp [reservedTable]

/-- A letter in lower case or an underscore. -/
def isNameStart (c : Char) : Bool := c.isLower || c == '_'

/-- Whether a name reads as itself without quotes. -/
def isPlainName (name : String) : Bool :=
  match name.toList with
  | [] => false
  | c :: cs => isNameStart c && cs.all (fun c => isNameStart c || c.isDigit) &&
      !reservedTable.contains name

/-- A name as an identifier. -/
def identifier (name : String) : String :=
  if isPlainName name then name else Text.quoteDoubled '\x22' name

/-- A field taken out of the column and cast. -/
def field (config : RenderConfig) (key : Key) (cast : Cast) : Rendered String := do
  let column := identifier config.metadataColumn
  let access ← match config.path key with
    | .flat name => pure (column ++ "->>" ++ (← string name))
    | .nested parent child =>
      pure (column ++ "->" ++ (← string parent) ++ "->>" ++ (← string child))
  return match cast with
    | .text => access
    | .numeric => "(" ++ access ++ ")::numeric"
    | .boolean => "(" ++ access ++ ")::boolean"

/-- A value: a number, a truth value, or a string literal. -/
def value (v : Value) : Rendered String := v.render string

/-- The one cast that all values of a list need. -/
def listCast (vs : ValueList) : Rendered Cast :=
  match vs.toList.find? fun v => Cast.ofValue v != Cast.ofValue vs.first with
  | some other => .error (.mixedList vs.first other)
  | none => .ok (Cast.ofValue vs.first)

/-- The spelling of a comparison operator. -/
def operator : CompareOp → String
  | .equal => "="
  | .notEqual => "<>"
  | .greater => ">"
  | .greaterEqual => ">="
  | .less => "<"
  | .lessEqual => "<="

/-- Conditions as a dialect. -/
def dialect (config : RenderConfig) : Dialect where
  comparison k op v := do
    let field ← field config k (Cast.ofValue v)
    return s!"{field} {operator op} {← value v}"
  membership k negated vs := do
    let cast ← listCast vs
    let values ← vs.toList.mapM value
    let field ← field config k cast
    let word := if negated then "NOT IN" else "IN"
    return s!"{field} {word} (" ++ ", ".intercalate values ++ ")"
  word
    | .and => "AND"
    | .or => "OR"

/-- A filter as a condition. -/
def render (config : RenderConfig) (e : Expr) : Rendered String := (dialect config).render e

end MetadataFilter.Sql

import MetadataFilter.Render.Config
import MetadataFilter.Render.Dialect
import MetadataFilter.Text.Quoted
import MetadataFilter.Token.Lexer

/-!
# Filters in their own language

The canonical spelling of a filter: words in upper case, strings in single quotes, quoted keys in
double quotes, and only those parentheses that its tree needs.
-/

namespace MetadataFilter.FilterText

/-- A text between delimiters. A line break cannot stand there. -/
def quoted (delimiter : Char) (s : String) : Rendered String :=
  if s.toList.any Token.isLineBreak then .error .lineBreak
  else .ok (String.ofList (Text.quote delimiter s.toList))

/-- A key in double quotes, which may not be empty. -/
def quotedName (name : String) : Rendered String :=
  if name.isEmpty then .error .emptyKey else quoted '\x22' name

/-- A key of one name, in double quotes unless it is an identifier. -/
def name (name : String) : Rendered String :=
  if Token.isIdentifier name then .ok name else quotedName name

/-- A key under its mapped name, or as it is. -/
def key (config : RenderConfig) (key : Key) : Rendered String :=
  match config.mapped? key, key with
  | some mapped, _ => name mapped
  | none, .field n => name n
  | none, .quoted n => quotedName n
  | none, .nested parent child =>
    if Token.isIdentifier parent && Token.isIdentifier child then .ok (parent ++ "." ++ child)
    else .error (.nestedKey parent child)

/-- A value: a number, a truth value, or a string in single quotes. -/
def value (v : Value) : Rendered String := v.render (quoted '\'')

/-- The language of filters as a dialect. -/
def dialect (config : RenderConfig) : Dialect where
  comparison k op v := return s!"{← key config k} {op.symbol} {← value v}"
  membership k negated vs := do
    let k ← key config k
    let vs ← vs.toList.mapM value
    let word := if negated then "NOT IN" else "IN"
    return s!"{k} {word} [" ++ ", ".intercalate vs ++ "]"
  word
    | .and => "AND"
    | .or => "OR"

/-- The canonical spelling of a filter. -/
def render (config : RenderConfig) (e : Expr) : Rendered String := (dialect config).render e

end MetadataFilter.FilterText

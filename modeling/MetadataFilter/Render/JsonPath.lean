import MetadataFilter.Json
import MetadataFilter.Render.Sql

/-!
# Path predicates

A filter becomes a predicate over paths into a JSON document. There is no membership test, so a
list becomes a disjunction of equalities, negated as a whole for a negated test. `predicate` wraps
the path as a literal of SQL that is matched with the metadata column.
-/

namespace MetadataFilter.JsonPath

/-- A text as a string of a path, which cannot hold a NUL. -/
def string (s : String) : Rendered String :=
  if '\x00' ∈ s.toList then .error .nulCharacter else .ok (Json.quote s)

/-- A step into a document, quoted unless it is a word. -/
def step (name : String) : Rendered String :=
  if Token.isWord name then .ok name else string name

/-- The path of a key. -/
def path (config : RenderConfig) (key : Key) : Rendered String := do
  let steps ← (config.path key).segments.mapM step
  return ".".intercalate ("$" :: steps)

/-- A value: a number, a truth value, or a string. -/
def value (v : Value) : Rendered String := v.render string

/-- The dialect of path predicates. -/
def dialect (config : RenderConfig) : Dialect where
  comparison k op v := do
    let path ← path config k
    return s!"{path} {op.symbol} {← value v}"
  membership k negated vs := do
    let path ← path config k
    let values ← vs.toList.mapM value
    let disjunction := " || ".intercalate (values.map fun v => s!"{path} == {v}")
    if negated then return "!(" ++ disjunction ++ ")"
    else return Dialect.wrap (1 < vs.size) disjunction
  word
    | .and => "&&"
    | .or => "||"

/-- A filter as a path predicate. -/
def render (config : RenderConfig) (e : Expr) : Rendered String := (dialect config).render e

/-- A filter as a condition of SQL that matches the metadata column with the path predicate. -/
def predicate (config : RenderConfig) (e : Expr) : Rendered String := do
  let path ← render config e
  return Sql.identifier config.metadataColumn ++ "::jsonb @@ " ++ Text.quoteDoubled '\'' path ++
    "::jsonpath"

end MetadataFilter.JsonPath

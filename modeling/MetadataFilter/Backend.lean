import MetadataFilter.Text.EditDistance

/-!
# Backends

The filter languages that a filter can be rendered in, and their names.

Main statements:

* `ofName?_name`  every backend is found by its name
-/

namespace MetadataFilter

/-- A language of filters. -/
inductive Backend where
  /-- The language that filters are written in. -/
  | text
  /-- A condition on a column with JSON, for relational stores. -/
  | sql
  /-- A path predicate on a column with JSON, for vector stores inside relational ones. -/
  | pgvector
  /-- A condition on the properties of a node, for graph stores. -/
  | neo4j
  /-- A JSON document with dotted paths, for document stores. -/
  | mongo
  /-- A JSON document without membership tests, for embedding stores. -/
  | chroma
deriving DecidableEq

/-- A name that no backend has. -/
structure UnknownBackend where
  name : String
  suggestion : Option Backend
deriving DecidableEq

namespace Backend

/-- All backends in the order in which they are shown. -/
def all : List Backend := [text, sql, pgvector, neo4j, mongo, chroma]

/-- The name of a backend. -/
def name : Backend → String
  | text => "text"
  | sql => "sql"
  | pgvector => "pgvector"
  | neo4j => "neo4j"
  | mongo => "mongo"
  | chroma => "chroma"

/-- The backend of a name in lower case. -/
def ofName? (s : String) : Option Backend := all.find? (·.name == s)

/-- The first backend whose name is one edit away from `s`, or else two. -/
def similar? (s : String) : Option Backend :=
  let away (n : Nat) := all.find? fun b => Text.editDistance s b.name == n
  away 1 <|> away 2

/-- The backend of a name in any case. -/
def parse (s : String) : Except UnknownBackend Backend :=
  let lower := s.map Char.toLower
  match ofName? lower with
  | some b => .ok b
  | none => .error ⟨s, similar? lower⟩

/-- Every backend is found by its name, so no two of them share one. -/
theorem ofName?_name (b : Backend) : ofName? b.name = some b := by cases b <;> decide

end Backend

/-- The message for an unknown name, with a suggestion if there is one. -/
def UnknownBackend.message (e : UnknownBackend) : String :=
  match e.suggestion with
  | some b => s!"unknown backend '{e.name}' (did you mean '{b.name}'?)"
  | none => s!"unknown backend '{e.name}'"

end MetadataFilter

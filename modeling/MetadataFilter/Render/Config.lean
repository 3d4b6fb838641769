import MetadataFilter.Expr
import MetadataFilter.FieldMap

/-!
# Settings of rendering

Where a backend keeps a document's metadata, and the names that its fields have there.
-/

namespace MetadataFilter

/-- The settings of rendering: the names of fields, the column that holds metadata, and the name
of the node in graph stores. -/
structure RenderConfig where
  fieldMap : FieldMap
  metadataColumn : String
  nodeAlias : String
deriving DecidableEq

/-- A field as a backend knows it: by one name, or as a field inside another one. -/
inductive FieldPath where
  | flat (name : String)
  | nested (parent child : String)
deriving DecidableEq

namespace FieldPath

/-- The names on the path, outermost first. -/
def segments : FieldPath → List String
  | flat name => [name]
  | nested parent child => [parent, child]

/-- The path with dots between its names. -/
def dotted : FieldPath → String
  | flat name => name
  | nested parent child => parent ++ "." ++ child

/-- The path of a key that no map changes. -/
def ofKey : Key → FieldPath
  | .field name => flat name
  | .nested parent child => nested parent child
  | .quoted name => flat name

end FieldPath

namespace RenderConfig

/-- The settings that hold if none are given. -/
def standard : RenderConfig := ⟨.empty, "metadata", "node"⟩

/-- The name that a key is mapped to. -/
def mapped? (config : RenderConfig) (key : Key) : Option String :=
  config.fieldMap.get? key.logicalName

/-- The path of a key: a mapped key is one name. -/
def path (config : RenderConfig) (key : Key) : FieldPath :=
  match config.mapped? key with
  | some name => .flat name
  | none => .ofKey key

end RenderConfig

end MetadataFilter

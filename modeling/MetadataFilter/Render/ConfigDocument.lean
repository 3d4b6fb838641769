import MetadataFilter.Backend
import MetadataFilter.Json.Reader
import MetadataFilter.Render.Config

/-!
# Settings of rendering as JSON documents

Settings are written as an object, in which an empty field map is left out. They are read from an
object, of which any part may be missing, or from an array of their parts in order. Backends are
read from their names.
-/

namespace MetadataFilter

open Json.Reader Text.Reader

namespace Json.Reader

/-- Reads the items after an opening bracket up to the closing one, with commas between them. Every
item uses up one unit of fuel and at least one character. -/
def items {α : Type} (closing : Char) (item : α → Text.Reader α) : Nat → α → Text.Reader α
  | 0, _ => failure
  | fuel + 1, acc => do
    let acc ← item acc
    space
    if ← take? ',' then items closing item fuel acc
    else
      expect closing
      return acc

/-- Reads what stands between two brackets, item by item. -/
def bracketed {α : Type} (opening closing : Char) (item : α → Text.Reader α)
    (initial : α) : Text.Reader α := do
  space
  expect opening
  space
  if ← take? closing then return initial
  else
    let rest ← get
    items closing item (rest.length + 1) initial

/-- Reads the name of a member and the colon after it. -/
def memberName : Text.Reader String := do
  let name ← string
  space
  expect ':'
  return name

end Json.Reader

/-- A field map as a document. -/
def FieldMap.document (m : FieldMap) : Json :=
  .object (m.entries.map fun e => (e.1, .text e.2))

/-- Reads a field map; of two entries for one name the later counts. -/
def FieldMap.reader : Text.Reader FieldMap :=
  bracketed '\x7b' '\x7d' (fun m => do
    let name ← memberName
    return m.insert name (← string)) .empty

namespace RenderConfig

/-- Settings as a document. -/
def document (config : RenderConfig) : Json :=
  .object <|
    (if config.fieldMap.isEmpty then [] else [("field_map", config.fieldMap.document)]) ++
    [("metadata_column", .text config.metadataColumn), ("node_alias", .text config.nodeAlias)]

/-- Settings of which each part may be missing. -/
structure Parts where
  fieldMap : Option FieldMap := none
  metadataColumn : Option String := none
  nodeAlias : Option String := none

/-- The settings with the usual ones for the missing parts. -/
def Parts.complete (p : Parts) : RenderConfig :=
  ⟨p.fieldMap.getD standard.fieldMap, p.metadataColumn.getD standard.metadataColumn,
   p.nodeAlias.getD standard.nodeAlias⟩

/-- Reads the field map, which may not have been read yet. -/
def Parts.readFieldMap (p : Parts) : Text.Reader Parts := do
  if p.fieldMap.isSome then failure
  return { p with fieldMap := ← FieldMap.reader }

/-- Reads the column, which may not have been read yet. -/
def Parts.readColumn (p : Parts) : Text.Reader Parts := do
  if p.metadataColumn.isSome then failure
  return { p with metadataColumn := ← string }

/-- Reads the node's name, which may not have been read yet. -/
def Parts.readAlias (p : Parts) : Text.Reader Parts := do
  if p.nodeAlias.isSome then failure
  return { p with nodeAlias := ← string }

/-- Reads a member of the object; members of other names do not count. -/
def readMember (p : Parts) : Text.Reader Parts := do
  match ← memberName with
  | "field_map" => p.readFieldMap
  | "metadata_column" => p.readColumn
  | "node_alias" => p.readAlias
  | _ =>
    Json.Reader.value
    return p

/-- Reads the next part in an array. -/
def readElement (p : Parts) : Text.Reader Parts :=
  if p.fieldMap.isNone then p.readFieldMap
  else if p.metadataColumn.isNone then p.readColumn
  else p.readAlias

/-- Reads settings. -/
def reader : Text.Reader RenderConfig := do
  space
  let p ← match ← peek? with
    | some '[' => bracketed '[' ']' readElement {}
    | _ => bracketed '\x7b' '\x7d' readMember {}
  return p.complete

/-- The settings that a JSON text holds. -/
def ofJson? (text : String) : Option RenderConfig := Json.Reader.run reader text

end RenderConfig

/-- Reads a backend: its name, or an object with its name as the only member. -/
def Backend.reader : Text.Reader Backend := do
  space
  let name ← match ← peek? with
    | some '\x7b' => do
      expect '\x7b'
      let name ← memberName
      space
      expect 'n'
      expect 'u'
      expect 'l'
      expect 'l'
      space
      expect '\x7d'
      pure name
    | _ => string
  match Backend.ofName? name with
  | some b => return b
  | none => failure

/-- The backend that a JSON text names. -/
def Backend.ofJson? (text : String) : Option Backend := Json.Reader.run Backend.reader text

end MetadataFilter

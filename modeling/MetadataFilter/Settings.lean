import MetadataFilter.Backend
import MetadataFilter.Render.Config
import MetadataFilter.Text.Blank
import MetadataFilter.Toml.Reader
import MetadataFilter.Toml.Writer

/-!
# Stored settings

The settings that a user keeps in a file: a backend, the settings of rendering that differ from the
usual ones, and names of fields. `Settings.ofText?` reads such a file, `Settings.text` writes it,
and `Settings.change` sets one of them.
-/

namespace MetadataFilter

/-- Settings as a user keeps them. The backend is kept as it was spelt. -/
structure Settings where
  backend : Option String
  metadataColumn : Option String
  nodeAlias : Option String
  fieldMap : FieldMap
deriving DecidableEq

/-- Why a setting cannot be changed. -/
inductive SettingError where
  | unknownBackend (e : UnknownBackend)
  | blank (key : String)
  | unknownKey (key : String)
deriving DecidableEq

/-- The message for a setting that cannot be changed. -/
def SettingError.message : SettingError → String
  | unknownBackend e => e.message
  | blank key => s!"{key} cannot be empty"
  | unknownKey key =>
    s!"Unknown config key '{key}'. Valid keys: backend, render.metadata_column, " ++
      "render.node_alias, field_map.<name>"

namespace Settings

/-- Settings that say nothing. -/
def standard : Settings := ⟨none, none, none, .empty⟩

/-- The backend that renders if nothing else is said. -/
def standardBackend : Backend := .pgvector

/-- The version of the layout of files with settings. -/
def version : Nat := 1

/-- The backend, if the settings name one. -/
def backend? (s : Settings) : Except UnknownBackend (Option Backend) :=
  match s.backend with
  | none => .ok none
  | some name => (Backend.parse name).map some

/-- The settings of rendering, the usual ones where nothing else is said. -/
def renderConfig (s : Settings) : RenderConfig :=
  ⟨s.fieldMap, s.metadataColumn.getD RenderConfig.standard.metadataColumn,
   s.nodeAlias.getD RenderConfig.standard.nodeAlias⟩

/-! ### Reading -/

/-- A member that is a text if it is there. -/
def optionalText (ms : Toml.Members) (name : String) : Option (Option String) :=
  match ms.get? name with
  | none => some none
  | some (.text s) => some (some s)
  | some _ => none

/-- The greatest version that a file may state, a whole number of 32 bits. -/
def maxVersion : Int := 0xffffffff

/-- Whether the version is one that a file may state. -/
def versionFits (ms : Toml.Members) : Bool :=
  match ms.get? "version" with
  | none => true
  | some (.integer n) => 0 ≤ n && n ≤ maxVersion
  | some _ => false

/-- The column and the node's name, from a table or in order from an array. A date is like a table
that says nothing about them. -/
def readRender? (ms : Toml.Members) : Option (Option String × Option String) :=
  match ms.get? "render" with
  | none | some (.date _) => some (none, none)
  | some (.table _ sub) => do
    return (← optionalText sub "metadata_column", ← optionalText sub "node_alias")
  | some (.array (.text column :: .text node :: _)) => some (some column, some node)
  | some _ => none

/-- The member under which a date holds its text. -/
def dateMember : String := "$__toml_private_datetime"

/-- The names of fields, from a table of texts. A date is a table of its text. -/
def readFieldMap? (ms : Toml.Members) : Option FieldMap :=
  match ms.get? "field_map" with
  | none => some .empty
  | some (.date text) => some (.ofList [(dateMember, text)])
  | some (.table _ sub) => do
    let entries ← sub.mapM fun
      | (name, .text target) => some (name, target)
      | _ => none
    return .ofList entries
  | some _ => none

/-- The settings that a document holds; members of other names do not count. -/
def ofMembers? (ms : Toml.Members) : Option Settings := do
  guard (versionFits ms)
  let backend ← optionalText ms "backend"
  let (column, node) ← readRender? ms
  return ⟨backend, column, node, ← readFieldMap? ms⟩

/-- The settings that a text holds. -/
def ofText? (text : String) : Option Settings := (Toml.ofString? text).bind ofMembers?

/-! ### Writing -/

/-- A line with a member. -/
def line (name value : String) : String := Toml.writeName name ++ " = " ++ value ++ "\n"

/-- A line with a member that is a text, if there is one. -/
def optionalLine (name : String) (value : Option String) : String :=
  match value with
  | some value => line name (Toml.writeString value)
  | none => ""

/-- The settings as the text of a file. -/
def text (s : Settings) : String :=
  line "version" "1" ++ optionalLine "backend" s.backend ++ "\n[render]\n" ++
    optionalLine "metadata_column" s.metadataColumn ++ optionalLine "node_alias" s.nodeAlias ++
    if s.fieldMap.isEmpty then ""
    else "\n[field_map]\n" ++
      "".intercalate (s.fieldMap.entries.map fun e => line e.1 (Toml.writeString e.2))

/-- The text of a file with explanations and without settings. -/
def template : String :=
"# vf - filter expression compiler configuration

# Config schema version (do not modify)
version = 1

# Default backend for \x60vf render\x60:
# \"text\", \"sql\", \"pgvector\", \"neo4j\", \"mongo\" or \"chroma\"
# backend = \"pgvector\"

[render]
# metadata_column = \"metadata\"  # JSONB column (sql, pgvector) / property prefix (neo4j)
# node_alias = \"node\"           # Cypher node variable (neo4j)

# Translate filter field names to backend field names
[field_map]
# country = \"country_code\"
"

/-! ### Changing -/

/-- A text that is not blank. -/
def notBlank (key value : String) : Except SettingError String :=
  if value.toList.all Text.isBlank then .error (.blank key) else .ok value

/-- What stands before and after the first `separator` in a text. -/
def splitOnce (separator : Char) (s : String) : Option (String × String) :=
  match s.toList.dropWhile (· != separator) with
  | [] => none
  | _ :: rest => some (String.ofList (s.toList.takeWhile (· != separator)), String.ofList rest)

/-- Sets what a key names. Mapping a name to nothing removes its mapping. -/
def change (s : Settings) (key value : String) : Except SettingError Settings :=
  match splitOnce '.' key with
  | none =>
    if key = "backend" then
      match Backend.parse value with
      | .ok backend => .ok { s with backend := some backend.name }
      | .error e => .error (.unknownBackend e)
    else .error (.unknownKey key)
  | some ("render", "metadata_column") =>
    (notBlank key value).map fun value => { s with metadataColumn := some value }
  | some ("render", "node_alias") =>
    (notBlank key value).map fun value => { s with nodeAlias := some value }
  | some ("field_map", name) =>
    if name.isEmpty then .error (.unknownKey key)
    else if value.isEmpty then .ok { s with fieldMap := s.fieldMap.erase name }
    else .ok { s with fieldMap := s.fieldMap.insert name value }
  | some _ => .error (.unknownKey key)

end Settings

end MetadataFilter

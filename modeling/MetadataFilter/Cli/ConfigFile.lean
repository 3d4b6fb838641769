import MetadataFilter.Cli.Action
import MetadataFilter.Render.ConfigDocument

/-!
# Commands on stored settings

The commands that show the file with settings or its path, make one, or change a setting in it. A
change reads the file, makes the change and writes the whole file again, so that a change that
fails leaves the file as it was.
-/

namespace MetadataFilter.Cli

variable {m : Type → Type} [Monad m] [FileStore m]

/-- The path of the file with settings: the one that is given, or else a fixed one in the user's
directory of settings. -/
def configPath (s : Surroundings) (i : Invocation) : Except Failure String :=
  let inside (directory : String) := Path.join (Path.join directory "vf") "config.toml"
  match i.configFile, s.configHome.filter (!·.isEmpty), s.home with
  | some path, _, _ => .ok path
  | none, some directory, _ => .ok (inside directory)
  | none, none, some home => .ok (inside (Path.join home ".config"))
  | none, none, none => .error (.config .noDirectory)

/-- The settings in a file, or those that say nothing if there is none. -/
def loadSettings (path : String) : Action m Settings := do
  if ← FileStore.isThere path then
    match ← FileStore.read path with
    | .error e => throw (.config (.unreadable e))
    | .ok text =>
      match Settings.ofText? text with
      | some settings => return settings
      | none => throw (.config .malformed)
  else return .standard

/-- Makes the directory of a file. -/
def makeParent (path : String) : Action m Unit := do
  match (Path.parent? path).filter (!·.isEmpty) with
  | none => return
  | some parent =>
    match ← FileStore.makeDirectories parent with
    | .ok _ => return
    | .error e => throw (.config (.noParent e))

/-- Writes a file in a directory that is made if need be. -/
def writeFile (path text : String) (failure : FileError → ConfigError) : Action m Unit := do
  makeParent path
  match ← FileStore.write path text with
  | .ok _ => return
  | .error e => throw (.config (failure e))

/-- The backend that settings name. -/
def settingsBackend (settings : Settings) : Except Failure (Option Backend) :=
  settings.backend?.mapError fun e => .config (.unknownBackend e)

/-- Settings as a document. -/
def settingsDocument (settings : Settings) : Json :=
  let optional (name : String) (value : Option String) : List (String × Json) :=
    (value.map fun v => (name, .text v)).toList
  .object <|
    [("version", .integer Settings.version)] ++ optional "backend" settings.backend ++
    [("render", .object (optional "metadata_column" settings.metadataColumn ++
      optional "node_alias" settings.nodeAlias))] ++
    if settings.fieldMap.isEmpty then [] else [("field_map", settings.fieldMap.document)]

/-- A file with settings as a document. -/
def configDocument (path : String) (isThere : Bool) (settings : Settings) (backend : Backend) :
    Json :=
  .object
    [("path", .text path), ("exists", .boolean isThere), ("config", settingsDocument settings),
     ("effective", .object [("backend", .text backend.name),
       ("render", settings.renderConfig.document)])]

/-- What settings come to, as a reader sees it. -/
def configText (settings : Settings) (backend : Backend) : String :=
  let config := settings.renderConfig
  let note (value : Option String) := if value.isSome then "" else " (default)"
  let entries :=
    if settings.fieldMap.isEmpty then "  (none)\n"
    else "".intercalate (settings.fieldMap.entries.map fun e => s!"  {e.1} = {e.2}\n")
  s!"  backend: {backend.name}{note settings.backend}\n\n[render]\n" ++
    s!"  metadata_column: {config.metadataColumn}{note settings.metadataColumn}\n" ++
    s!"  node_alias: {config.nodeAlias}{note settings.nodeAlias}\n\n[field_map]\n" ++ entries

/-- Shows settings from a file. Whether the file is there is asked for again wherever it is
needed. -/
def showSettings (s : Surroundings) (i : Invocation) (path : String) (settings : Settings)
    (backend : Backend) : Action (Printing m) Unit := do
  let isThere : Action m Bool := FileStore.isThere path
  if i.json then
    print (documentText (configDocument path (← silently isThere) settings backend).sorted)
  else unless i.quiet do
    print (paint (colours s i) [.green, .bold] "Configuration" ++ "\n\n")
    print s!"File: {path}\n"
    print s!"Exists: {← silently isThere}\n\n"
    print (configText settings backend)
    unless ← silently isThere do
      print "\n(No config file exists. Run 'vf config init' to create one.)\n"

/-- Shows the stored settings, with a backend that is known. -/
def showConfig (s : Surroundings) (i : Invocation) : Action (Printing m) Unit := do
  let path ← Action.ofExcept (configPath s i)
  let settings ← silently (loadSettings path)
  let backend ← Action.ofExcept (settingsBackend settings)
  showSettings s i path settings (backend.getD Settings.standardBackend)

/-- Writes a file with explanations, in place of another one only if `force` says so. -/
def createConfig (path : String) (force : Bool) : Action m Unit := do
  let isThere ← FileStore.isThere path
  if isThere && !force then throw (.config (.alreadyThere path))
  writeFile path Settings.template .notCreated

/-- Makes a file with settings, and says so. -/
def initConfig (s : Surroundings) (i : Invocation) (force : Bool) : Action (Printing m) Unit := do
  let path ← Action.ofExcept (configPath s i)
  silently (createConfig path force)
  if i.json then
    print (documentText (.sorted (.object [("status", .text "success"), ("path", .text path)])))
  else unless i.quiet do print s!"Created default config at: {path}\n"

/-- Changes one setting in a file. -/
def changeSetting (path key value : String) : Action m Unit := do
  let settings ← loadSettings path
  match settings.change key value with
  | .error e => throw (.config (.setting e))
  | .ok settings => writeFile path settings.text .notWritten

/-- Changes one setting, and says so. -/
def setConfig (s : Surroundings) (i : Invocation) (key value : String) :
    Action (Printing m) Unit := do
  let path ← Action.ofExcept (configPath s i)
  silently (changeSetting path key value)
  if i.json then
    print (documentText (.sorted (.object [("status", .text "success"), ("key", .text key),
      ("value", .text value), ("path", .text path)])))
  else unless i.quiet do print s!"Set {key} = {value}\n"

/-- Shows the path of the file with settings. -/
def showConfigPath (s : Surroundings) (i : Invocation) : Action (Printing m) Unit := do
  let path ← Action.ofExcept (configPath s i)
  if i.json then
    let isThere ← silently (FileStore.isThere path)
    print (documentText
      (.sorted (.object [("path", .text path), ("exists", .boolean isThere)])))
  else print (path ++ "\n")

end MetadataFilter.Cli

import MetadataFilter.Cli.Completions
import MetadataFilter.Cli.ConfigFile
import MetadataFilter.Cli.Filters

/-!
# Running commands

`run` does what a command line asks for. Rendering takes its settings from the command line, or
else from the file with settings, or else the usual ones.
-/

namespace MetadataFilter.Cli

variable {m : Type → Type} [Monad m] [FileStore m]

/-- A name and its field, with an equals sign between them; neither may be blank. -/
def fieldMapping (mapping : String) : Except Failure (String × String) :=
  let trimmed (s : String) := String.ofList (Text.trim s.toList)
  match Settings.splitOnce '=' mapping with
  | some (name, field) =>
    if (trimmed name).isEmpty || (trimmed field).isEmpty then
      .error (.config (.fieldMapping mapping))
    else .ok (trimmed name, trimmed field)
  | none => .error (.config (.fieldMapping mapping))

/-- The backend and the settings of rendering: options win over stored settings, and those over the
usual ones. -/
def resolveOptions (options : RenderOptions) (settings : Settings) :
    Except Failure (Backend × RenderConfig) := do
  let stored ← settingsBackend settings
  let mappings ← options.fields.mapM fieldMapping
  let config := settings.renderConfig
  return ((options.backend <|> stored).getD Settings.standardBackend,
    ⟨mappings.foldl (fun map e => map.insert e.1 e.2) config.fieldMap,
     options.metadataColumn.getD config.metadataColumn,
     options.nodeAlias.getD config.nodeAlias⟩)

/-- Shows a filter in the language of a backend. -/
def renderFilter (s : Surroundings) (i : Invocation) (expression : String)
    (options : RenderOptions) : Action (Printing m) Unit := do
  let e ← Action.ofExcept (readFilter s expression >>= parseFilter)
  let path ← Action.ofExcept (configPath s i)
  let settings ← silently (loadSettings path)
  let (backend, config) ← Action.ofExcept (resolveOptions options settings)
  let output ← Action.ofExcept ((render backend config e).mapError .render)
  if i.json then
    print (documentText
      (.sorted (.object [("backend", .text backend.name), ("output", .text output)])))
  else print (output ++ "\n")

/-- What is shown if no command is given. -/
def overview : String :=
  "vf - filter expression compiler for vector stores\nUse --help for usage information\n"

/-- What a command does. -/
def execute (s : Surroundings) (i : Invocation) : Action (Printing m) Unit :=
  match i.command with
  | .parse expression => showTree s i expression
  | .render expression options => renderFilter s i expression options
  | .check expression => checkFilter s i expression
  | .tokens expression => showTokens s i expression
  | .configShow => showConfig s i
  | .configInit force => initConfig s i force
  | .configSet key value => setConfig s i key value
  | .configPath => showConfigPath s i
  | .completions shell => print shell.script
  | .overview => unless i.quiet do print overview

/-- Runs a command, with nothing printed before. -/
def run (s : Surroundings) (i : Invocation) : m Outcome := do
  let (result, printed) ← (execute s i).run.run ""
  return .ofResult s i printed result

end MetadataFilter.Cli

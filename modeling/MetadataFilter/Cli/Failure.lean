import MetadataFilter.Cli.Report
import MetadataFilter.Files.Basic
import MetadataFilter.Settings

/-!
# How a command fails

A command fails over its filter, its input, its settings or what its backend can express. Each of
the four has its exit code and its name in documents. There is no case for a document that cannot
be written as text, since writing one is total, nor for a stream that is closed.
-/

namespace MetadataFilter.Cli

/-- A failure over stored settings. A file whose text is no settings is `malformed`; where in the
text the fault lies and what was expected there is left out. -/
inductive ConfigError where
  | noDirectory
  | unreadable (e : FileError)
  | malformed
  | unknownBackend (e : UnknownBackend)
  | alreadyThere (path : String)
  | noParent (e : FileError)
  | notCreated (e : FileError)
  | notWritten (e : FileError)
  | setting (e : SettingError)
  | fieldMapping (mapping : String)
deriving DecidableEq

/-- The message for a failure over stored settings. The message for a malformed file ends where the
detail of its fault would follow after a colon; every other message is complete. -/
def ConfigError.message : ConfigError → String
  | noDirectory => "Could not determine config directory"
  | unreadable e => s!"Failed to read config: {e.message}"
  | malformed => "Failed to parse config"
  | unknownBackend e => e.message
  | alreadyThere path =>
    s!"Config file already exists at {path}. Use --force to overwrite it."
  | noParent e => s!"Failed to create config directory: {e.message}"
  | notCreated e => s!"Failed to create config file: {e.message}"
  | notWritten e => s!"Failed to write config: {e.message}"
  | setting e => e.message
  | fieldMapping mapping => s!"invalid field mapping '{mapping}', expected NAME=FIELD"

/-- A failure of a command. -/
inductive Failure where
  | filter (d : Diagnostic)
  | input (e : FileError)
  | render (e : RenderError)
  | config (e : ConfigError)
deriving DecidableEq

namespace Failure

/-- The message for a failure. -/
def message : Failure → String
  | filter d => d.message
  | input e => s!"I/O error: {e.message}"
  | render e => s!"render error: {e.message}"
  | config e => s!"configuration error: {e.message}"

/-- The name of a failure in documents. -/
def code : Failure → String
  | filter _ => "FILTER_ERROR"
  | input _ => "IO_ERROR"
  | render _ => "RENDER_ERROR"
  | config _ => "CONFIG_ERROR"

/-- The exit code for a failure. -/
def exitCode : Failure → Nat
  | filter _ => 1
  | input _ => 3
  | render _ => 4
  | config _ => 5

/-- A failure as a document. -/
def document (f : Failure) : Json :=
  let diagnostic := match f with
    | filter d => [("diagnostic", d.document)]
    | _ => []
  .object [("error", .object
    ([("code", .text f.code), ("message", .text f.message)] ++ diagnostic))]

/-- A failure as a reader sees it. -/
def text (colours : Bool) : Failure → String
  | filter d => report colours d.texts
  | f => s!"Error: {f.message}"

end Failure

end MetadataFilter.Cli

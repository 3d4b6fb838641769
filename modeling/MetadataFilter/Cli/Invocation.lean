import MetadataFilter.Cli.Words

/-!
# What a command line asks for

`Invocation.ofWords` gives the command that a command line asks for, with the flags and options that
count for it, or says that the line only asks for help or does not fit.
-/

namespace MetadataFilter.Cli

/-- What the options of rendering say. -/
structure RenderOptions where
  backend : Option Backend
  fields : List String
  metadataColumn : Option String
  nodeAlias : Option String

/-- What a command line asks for. -/
inductive Command where
  | parse (expression : String)
  | render (expression : String) (options : RenderOptions)
  | check (expression : String)
  | tokens (expression : String)
  | configShow
  | configInit (force : Bool)
  | configSet (key value : String)
  | configPath
  | completions (shell : Shell)
  | overview

/-- The filter that a command is about, as it stands on the command line. -/
def Command.expression? : Command → Option String
  | parse expression | render expression _ | check expression | tokens expression =>
    some expression
  | _ => none

/-- Whether a command reads the input; a single dash in place of a filter says so. -/
def Command.readsInput (c : Command) : Bool := c.expression? == some "-"

/-- A command with the flags and options that all commands have. Verbosity is not among them: it only
chooses what is told to a log, and the log is left out. -/
structure Invocation where
  quiet : Bool
  json : Bool
  noColor : Bool
  configFile : Option String
  command : Command

namespace Words

/-- The value of an option. -/
def setting? (w : Words) (s : Setting) : Option String := w.settings.lookup s

/-- The command that the words of a command ask for. -/
def command (w : Words) : Command :=
  let expression := w.operands.headD ""
  match w.level with
  | .root => .overview
  | .parse => .parse expression
  | .render => .render expression
    { backend := (w.setting? .backend).bind Backend.ofName?
      fields := (w.settings.filter (·.1 == .field)).map (·.2)
      metadataColumn := w.setting? .metadataColumn
      nodeAlias := w.setting? .nodeAlias }
  | .check => .check expression
  | .tokens => .tokens expression
  | .config | .configShow => .configShow
  | .configInit => .configInit (.force ∈ w.flags)
  | .configSet => .configSet expression (w.operands.getLast?.getD "")
  | .configPath => .configPath
  | .completions =>
    match Shell.ofName? expression with
    | some shell => .completions shell
    | none => .overview

end Words

/-- What a command line asks for. Flags count wherever they stand; of several config files the one
given to the innermost command counts, and the one of the environment if none is given. -/
def Invocation.ofWords (environmentConfig : Option String) (words : List String) :
    Except Stop Invocation := do
  let levels ← readWords environmentConfig { level := .root } words
  let given (f : Flag) := levels.any (f ∈ ·.flags)
  let configFile := (levels.reverse.findSome? (·.setting? .config)) <|> environmentConfig
  let command := match levels.getLast? with
    | some w => w.command
    | none => .overview
  return ⟨given .quiet, given .json, given .noColor, configFile, command⟩

end MetadataFilter.Cli

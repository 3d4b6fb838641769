import MetadataFilter.Backend

/-!
# The vocabulary of a command line

The commands, one inside the other, and the flags, options and operands that each of them knows by
their long and short names.
-/

namespace MetadataFilter.Cli

/-- The shells that completions can be made for. -/
inductive Shell where
  | bash | zsh | fish | powershell
deriving DecidableEq

/-- The shell of a name. -/
def Shell.ofName? : String → Option Shell
  | "bash" => some bash
  | "zsh" => some zsh
  | "fish" => some fish
  | "powershell" => some powershell
  | _ => none

/-- A command, by the words that lead to it. -/
inductive Level where
  | root
  | parse | render | check | tokens | config | completions
  | configShow | configInit | configSet | configPath
deriving DecidableEq

/-- A flag is given or not. -/
inductive Flag where
  | verbose | quiet | json | noColor | force | help | version
deriving DecidableEq

/-- An option has a value. -/
inductive Setting where
  | config | backend | field | metadataColumn | nodeAlias
deriving DecidableEq

/-- What a word with a dash can name. -/
inductive Named where
  | flag (f : Flag)
  | setting (s : Setting)
deriving DecidableEq

namespace Level

/-- The commands inside a command. -/
def inner? : Level → String → Option Level
  | root, "parse" | root, "p" => some parse
  | root, "render" | root, "r" => some render
  | root, "check" | root, "c" => some check
  | root, "tokens" => some tokens
  | root, "config" => some config
  | root, "completions" => some completions
  | config, "show" => some configShow
  | config, "init" => some configInit
  | config, "set" => some configSet
  | config, "path" => some configPath
  | _, _ => none

/-- Whether there are commands inside a command; if so, `help` is one of them. -/
def hasInner : Level → Bool
  | root | config => true
  | _ => false

/-- How many operands a command has. -/
def operands : Level → Nat
  | parse | render | check | tokens | completions => 1
  | configSet => 2
  | _ => 0

/-- What a long name stands for. -/
def long? : Level → String → Option Named
  | _, "verbose" => some (.flag .verbose)
  | _, "quiet" => some (.flag .quiet)
  | _, "json" => some (.flag .json)
  | _, "no-color" => some (.flag .noColor)
  | _, "help" => some (.flag .help)
  | _, "version" => some (.flag .version)
  | _, "config" => some (.setting .config)
  | configInit, "force" => some (.flag .force)
  | render, "backend" => some (.setting .backend)
  | render, "field" => some (.setting .field)
  | render, "metadata-column" => some (.setting .metadataColumn)
  | render, "node-alias" => some (.setting .nodeAlias)
  | _, _ => none

/-- What a short name stands for. -/
def short? : Level → Char → Option Named
  | _, 'v' => some (.flag .verbose)
  | _, 'q' => some (.flag .quiet)
  | _, 'h' => some (.flag .help)
  | _, 'V' => some (.flag .version)
  | render, 'b' => some (.setting .backend)
  | render, 'f' => some (.setting .field)
  | _, _ => none

/-- Whether a command takes an operand. -/
def accepts (l : Level) (operand : String) : Bool :=
  match l with
  | completions => (Shell.ofName? operand).isSome
  | _ => true

end Level

/-- Whether an option takes a value. -/
def Setting.accepts (s : Setting) (value : String) : Bool :=
  match s with
  | config => !value.isEmpty
  | backend => (Backend.ofName? value).isSome
  | _ => true

end MetadataFilter.Cli

import MetadataFilter.Cli.Action

/-!
# How to use the program

What is shown for a command line that asks for help or for the version, or that does not fit. Of
these texts the program fixes no more than the stream they go to and the exit code that comes with
them. Their wording is this library's: one text for all commands, with no text of its own for each
inner command, and one line for every way in which a command line can fail to fit, without the
word that did not fit.
-/

namespace MetadataFilter.Cli

/-- The version of the program. -/
def version : String := "vf 0.1.3\n"

/-- The commands, the options that all of them have, and those of `render`. The wording is free. -/
def usage : String :=
"Usage: vf [OPTIONS] [COMMAND]

Commands:
  parse <EXPRESSION>         Parse a filter and print its syntax tree
  render <EXPRESSION>        Compile a filter into a backend's native filter syntax
  check <EXPRESSION>         Validate a filter and explain the first error
  tokens <EXPRESSION>        Print the token stream of a filter
  config [show]              Show current configuration
  config init [--force]      Write a commented default config file
  config set <KEY> <VALUE>   Set a configuration value
  config path                Print config file path
  completions <SHELL>        Generate shell completions (bash, zsh, fish, powershell)
  help                       Print this message

An expression that is a single dash is read from the input.

Options:
  -v, --verbose           Verbose output (show debug information)
  -q, --quiet             Quiet mode (errors only)
      --json              Output JSON instead of text
      --no-color          Disable colors in output
      --config <CONFIG>   Config file to use (default: ~/.config/vf/config.toml)
  -h, --help              Print help
  -V, --version           Print version

Options of render:
  -b, --backend <BACKEND>             text, sql, pgvector, neo4j, mongo or chroma
  -f, --field <NAME=FIELD>            Map a filter field to a backend field (repeatable)
      --metadata-column <COLUMN>      JSONB column (sql, pgvector) or property prefix (neo4j)
      --node-alias <ALIAS>            Cypher node variable (neo4j)
"

/-- How a run ends that does nothing. Help and the version are a success and go to the first stream;
a command line that does not fit has the exit code 2 and goes to the second, and which word was at
fault is left out. -/
def Stop.outcome : Stop → Outcome
  | help => ⟨0, usage, ""⟩
  | version => ⟨0, Cli.version, ""⟩
  | misuse => ⟨2, "", "error: the command line does not fit\n\n" ++ usage⟩

end MetadataFilter.Cli

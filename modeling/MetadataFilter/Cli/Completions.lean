import MetadataFilter.Cli.Vocabulary

/-!
# Completions for shells

A short script for each shell that completes the names of commands. Which shells there are, and
that a script is printed and the run succeeds, belong to the program. The wording of the scripts
does not: these offer the commands alone, where a full script also offers every option and the
values it takes.
-/

namespace MetadataFilter.Cli

/-- The commands that completions offer. -/
def commandNames : List String :=
  ["parse", "render", "check", "tokens", "config", "completions", "help"]

/-- The script that makes a shell complete the names of commands. It stands for the full script of
the shell, which is left out; nothing but its being printed depends on the text. -/
def Shell.script (shell : Shell) : String :=
  let names := " ".intercalate commandNames
  match shell with
  | bash => s!"complete -W \"{names}\" vf\n"
  | zsh => s!"#compdef vf\ncompadd {names}\n"
  | fish => s!"complete -c vf -f -a \"{names}\"\n"
  | powershell =>
    "Register-ArgumentCompleter -Native -CommandName vf -ScriptBlock \x7b\n" ++
      s!"  -split '{names}'\n\x7d\n"

end MetadataFilter.Cli

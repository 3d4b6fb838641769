import MetadataFilter.Cli.Vocabulary

/-!
# The words of a command line

A command line is a list of words: commands one inside the other, each with flags, options and
operands of its own. Options with their values and flags may stand anywhere after their command; a
word for a command inside ends the words of the one around it, and after `--` all words are
operands. `readWords` sorts the words under their commands, or says why it stops.
-/

namespace MetadataFilter.Cli

/-- Why a command line asks for nothing that could be done. -/
inductive Stop where
  /-- It asks for help. -/
  | help
  /-- It asks for the version. -/
  | version
  /-- It does not fit. -/
  | misuse
deriving DecidableEq

/-- What has been seen but not taken in yet. -/
inductive Pending where
  | setting (s : Setting) (value : Option String)
  | operand (value : String)
deriving DecidableEq

/-- The words of one command as far as they have been read. -/
structure Words where
  level : Level
  flags : List Flag := []
  settings : List (Setting × String) := []
  operands : List String := []
  /-- How many operands there are, with the one that may be pending. -/
  count : Nat := 0
  pending : Option Pending := none
  /-- Whether only operands can follow. -/
  operandsOnly : Bool := false

namespace Words

/-- Takes in the value of an option. Only fields may be given more than once. -/
def addSetting (w : Words) (s : Setting) (value : String) : Except Stop Words :=
  if (s != .field && w.settings.any (·.1 == s)) || !s.accepts value then .error .misuse
  else .ok { w with settings := w.settings ++ [(s, value)] }

/-- Takes in what is pending. -/
def resolve (w : Words) : Except Stop Words :=
  let rest := { w with pending := none }
  match w.pending with
  | none => .ok w
  | some (.setting _ none) => .error .misuse
  | some (.setting s (some value)) => rest.addSetting s value
  | some (.operand value) =>
    if w.level.accepts value then .ok { rest with operands := rest.operands ++ [value] }
    else .error .misuse

/-- Takes in a flag. Help and the version are shown as soon as they are met. -/
def addFlag (w : Words) (f : Flag) : Except Stop Words := do
  let w ← w.resolve
  match f with
  | .help => throw .help
  | .version => throw .version
  | f => if f ∈ w.flags then throw .misuse else return { w with flags := f :: w.flags }

/-- Takes in an option whose value is part of the same word. -/
def attach (w : Words) (s : Setting) (value : String) : Except Stop Words := do
  (← w.resolve).addSetting s value

/-- An option whose value has to follow. -/
def await (w : Words) (s : Setting) : Except Stop Words := do
  return { ← w.resolve with pending := some (.setting s none) }

/-- An operand, if there is room for one more. -/
def addOperand (w : Words) (value : String) : Except Stop Words := do
  if w.count < w.level.operands then
    return { ← w.resolve with pending := some (.operand value), count := w.count + 1 }
  else throw .misuse

/-- The short names in a word; the rest of the word after an option is its value. -/
def cluster (w : Words) : List Char → Except Stop Words
  | [] => .ok w
  | c :: cs =>
    match w.level.short? c, cs with
    | none, _ => .error .misuse
    | some (.flag f), cs => do (← w.addFlag f).cluster cs
    | some (.setting s), [] => w.await s
    | some (.setting s), '=' :: value => w.attach s (String.ofList value)
    | some (.setting s), value => w.attach s (String.ofList value)

/-- A long name, which may have a value behind an equals sign. -/
def long (w : Words) (cs : List Char) : Except Stop Words :=
  let name := String.ofList (cs.takeWhile (· != '='))
  match w.level.long? name, cs.dropWhile (· != '=') with
  | none, _ => .error .misuse
  | some (.flag f), [] => w.addFlag f
  | some (.flag _), _ => .error .misuse
  | some (.setting s), [] => w.await s
  | some (.setting s), _ :: value => w.attach s (String.ofList value)

/-- A word without a name: the value of an option that has none yet, or an operand. -/
def plain (w : Words) (value : String) : Except Stop Words :=
  match w.pending with
  | some (.setting s none) => .ok { w with pending := some (.setting s (some value)) }
  | _ => w.addOperand value

/-- A word that does not name a command. A single dash is a word without a name. -/
def add (w : Words) (word : String) : Except Stop Words :=
  if w.operandsOnly then w.addOperand word
  else
    match word.toList with
    | ['-', '-'] => .ok { w with operandsOnly := true }
    | '-' :: '-' :: cs => w.long cs
    | '-' :: c :: cs => w.cluster (c :: cs)
    | _ => w.plain word

/-- The command that a word names, if one can stand here. -/
def inner? (w : Words) (word : String) : Option Level :=
  match w.operandsOnly, w.pending with
  | true, _ | _, some (.setting _ none) => none
  | _, _ => w.level.inner? word

/-- Whether a word asks for help on commands. -/
def asksForHelp (w : Words) (word : String) : Bool :=
  match w.operandsOnly, w.pending with
  | true, _ | _, some (.setting _ none) => false
  | _, _ => w.level.hasInner && word == "help"

/-- The words of a command when all have been read. The config file may also come from the
environment, and is checked there as well. -/
def finish (environmentConfig : Option String) (w : Words) : Except Stop Words := do
  let w ← w.resolve
  if !w.settings.any (·.1 == .config) && environmentConfig.any (!Setting.config.accepts ·) then
    throw .misuse
  if w.operands.length != w.level.operands then throw .misuse
  if .verbose ∈ w.flags ∧ .quiet ∈ w.flags then throw .misuse
  return w

end Words

/-- What becomes of a call for help on a command inside another one. -/
def helpTarget (l : Level) : List String → Stop
  | [] => .help
  | word :: words =>
    match l.inner? word with
    | some inner => helpTarget inner words
    | none => if l.hasInner && word == "help" && words.isEmpty then .help else .misuse

/-- The words of a command and of those inside it, the outermost first. The commands inside are read
to their ends before what is pending outside is taken in. -/
def readWords (environmentConfig : Option String) (w : Words) :
    List String → Except Stop (List Words)
  | [] => return [← w.finish environmentConfig]
  | word :: words =>
    if w.asksForHelp word then throw (helpTarget w.level words)
    else
      match w.inner? word with
      | some inner => do
        let rest ← readWords environmentConfig { level := inner } words
        return (← w.finish environmentConfig) :: rest
      | none => do readWords environmentConfig (← w.add word) words

end MetadataFilter.Cli

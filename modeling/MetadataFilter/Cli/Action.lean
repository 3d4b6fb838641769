import MetadataFilter.Cli.Invocation
import MetadataFilter.Cli.Failure

/-!
# What a command does

A command reads its filter from the command line or from its input, works on files where it needs
them, prints, and ends or fails. What it prints goes to the first of the two output streams, the
message of a failure to the second. What has been printed before a failure stays on the stream.
-/

namespace MetadataFilter.Cli

/-- What surrounds a command: the directories where settings are looked for, whether colours are
forbidden, and the input or why it cannot be read. -/
structure Surroundings where
  configHome : Option String
  home : Option String
  noColor : Bool
  input : Except FileError String

/-- How a run ends. -/
structure Outcome where
  exitCode : Nat
  stdout : String
  stderr : String
deriving DecidableEq

/-- A step of a command on stored files, which can fail. -/
abbrev Action (m : Type → Type) (α : Type) := ExceptT Failure m α

instance {m : Type → Type} [Monad m] [FileStore m] : FileStore (ExceptT Failure m) where
  isThere path := ExceptT.lift (FileStore.isThere path)
  read path := ExceptT.lift (FileStore.read path)
  isDirectory path := ExceptT.lift (FileStore.isDirectory path)
  makeDirectory path := ExceptT.lift (FileStore.makeDirectory path)
  write path text := ExceptT.lift (FileStore.write path text)

/-- A step that needs no files. -/
def Action.ofExcept {m : Type → Type} [Monad m] {α : Type} (r : Except Failure α) : Action m α :=
  ExceptT.mk (pure r)

/-- What a command is made of that can print: the text is what has been printed so far. It is kept
beside the failures, so none of them takes it back. -/
abbrev Printing (m : Type → Type) := StateT String m

/-- A step on stored files, which prints nothing. -/
def silently {m : Type → Type} [Monad m] {α : Type} (a : Action m α) : Action (Printing m) α :=
  ExceptT.mk (StateT.lift a.run)

/-- Prints a text after what has been printed before. -/
def print {m : Type → Type} [Monad m] (text : String) : Action (Printing m) Unit :=
  ExceptT.lift (modify (· ++ text))

/-- Whether colours are shown. -/
def colours (s : Surroundings) (i : Invocation) : Bool := !i.noColor && !s.noColor

/-- A document as a command shows it. -/
def documentText (j : Json) : String := j.pretty ++ "\n"

/-- How a run ends, given what its command has printed and why it has failed, if it has. -/
def Outcome.ofResult (s : Surroundings) (i : Invocation) (printed : String) :
    Except Failure Unit → Outcome
  | .ok _ => ⟨0, printed, ""⟩
  | .error f =>
    ⟨f.exitCode, printed,
      if i.json then documentText f.document.sorted else f.text (colours s i) ++ "\n"⟩

/-! ### Filters -/

/-- A text without line breaks at its end. -/
def dropLineEnds (s : String) : String :=
  String.ofList (s.toList.reverse.dropWhile Token.isLineBreak).reverse

/-- The filter that a command is about; a single dash stands for the input. -/
def readFilter (s : Surroundings) (expression : String) : Except Failure String :=
  if expression = "-" then (s.input.map dropLineEnds).mapError .input else .ok expression

/-- The tree of a filter. -/
def parseFilter (text : String) : Except Failure Expr :=
  (Expr.parse text).mapError fun e => .filter (.ofError e text)

/-- The tokens of a filter. A fault is shown in the text as it was given. -/
def readTokens (text : String) : Except Failure (List Token) :=
  let stream := Token.stream text
  match stream.fault? with
  | none => .ok stream.tokens
  | some e => .error (.filter
    { message := e.message
      position := some e.position
      sourceLine := Diagnostic.line? text e.position.line
      expected := []
      hint := none })

end MetadataFilter.Cli

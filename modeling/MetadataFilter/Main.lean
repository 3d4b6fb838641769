import MetadataFilter.Cli.Run
import MetadataFilter.Cli.Usage

/-!
# The program

Reads the command line, the environment and the input, runs the command on the files of the system,
and shows how it ended.
-/

namespace MetadataFilter

/-- The reason that the system gives for an error, with its number. -/
def FileError.ofSystem : IO.Error → FileError
  | .noFileOrDirectory .. => .notFound
  | .alreadyExists _ code details | .resourceBusy code details | .resourceVanished code details
  | .unsupportedOperation code details | .hardwareFault code details
  | .unsatisfiedConstraints code details | .illegalOperation code details
  | .protocolError code details | .timeExpired code details | .interrupted _ code details
  | .invalidArgument _ code details | .permissionDenied _ code details
  | .resourceExhausted _ code details | .inappropriateType _ code details
  | .noSuchThing _ code details | .otherError code details =>
    .other s!"{details} (os error {code})"
  | .unexpectedEof => .other "unexpected end of file"
  | .userError text => .other text

/-- The outcome of an action, or why the system refuses it. -/
def attempt {α : Type} (action : IO α) : BaseIO (Except FileError α) := do
  return (← action.toBaseIO).mapError .ofSystem

/-- The text that bytes stand for. -/
def textOfBytes (bytes : ByteArray) : Except FileError String :=
  match String.fromUTF8? bytes with
  | some s => .ok s
  | none => .error .notText

instance : FileStore BaseIO where
  isThere path := return (← (IO.FS.realPath path).toBaseIO).isOk
  isDirectory path := do
    match ← (IO.FS.realPath path).toBaseIO with
    | .ok place => place.isDir
    | .error _ => return false
  read path := return (← attempt (IO.FS.readBinFile path)) >>= textOfBytes
  makeDirectory path := attempt (IO.FS.createDir path)
  write path text := attempt (IO.FS.writeFile path text)

/-- All bytes of a stream after those that have been read. -/
partial def readAll (stream : IO.FS.Stream) (bytes : ByteArray) : IO ByteArray := do
  let more ← stream.read 65536
  if more.isEmpty then return bytes else readAll stream (bytes ++ more)

/-- The text of the input. -/
def readInput : BaseIO (Except FileError String) := do
  let stream ← IO.getStdin
  return (← attempt (readAll stream .empty)) >>= textOfBytes

/-- What surrounds a command; the input is read only if the command needs it. -/
def surroundings (i : Cli.Invocation) : BaseIO Cli.Surroundings := do
  let input ← if i.command.readsInput then readInput else pure (.ok "")
  return {
    configHome := ← IO.getEnv "XDG_CONFIG_HOME"
    home := (← IO.getEnv "HOME").filter (!·.isEmpty)
    noColor := (← IO.getEnv "NO_COLOR").isSome
    input }

/-- Runs the command that the words of a command line ask for. -/
def runWords (words : List String) : BaseIO Cli.Outcome := do
  match Cli.Invocation.ofWords (← IO.getEnv "VF_CONFIG") words with
  | .error stop => return stop.outcome
  | .ok i => Cli.run (← surroundings i) i

end MetadataFilter

/-- Runs the program and shows how it ended. -/
def main (words : List String) : IO UInt32 := do
  let outcome ← MetadataFilter.runWords words
  IO.print outcome.stdout
  IO.eprint outcome.stderr
  return outcome.exitCode.toUInt32

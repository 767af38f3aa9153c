import ProvableRecord.Command.Config
import ProvableRecord.Command.Log.Filter
import ProvableRecord.Record.Signals

/-!
# What commands act on

Commands read and write files, print, log and draw random bytes through a `Workspace`, so that they
run on the file system of a machine as well as on one that is a value.  A command ends with an exit
code or with a `Failure`: a cause and what was being done, outermost first.
-/

namespace ProvableRecord.Command

/-- Why a file operation failed. -/
inductive FileFault where
  | notFound
  | alreadyExists
  | notDirectory
  | isDirectory
  | nameTooLong
  | nulInPath
  /-- The file does not hold text. -/
  | notText
  /-- Any other reason, in the words of the system. -/
  | other (text : String)
deriving DecidableEq

/-- The wording of a file fault. -/
def FileFault.message : FileFault → String
  | .notFound => "No such file or directory (os error 2)"
  | .alreadyExists => "File exists (os error 17)"
  | .notDirectory => "Not a directory (os error 20)"
  | .isDirectory => "Is a directory (os error 21)"
  | .nameTooLong => "File name too long (os error 36)"
  | .nulInPath => "file name contained an unexpected NUL byte"
  | .notText => "stream did not contain valid UTF-8"
  | .other text => text

/-- The operations that commands need. -/
class Workspace (m : Type → Type) where
  /-- The text of a file. -/
  readFile : (path : String) → m (Except FileFault String)
  writeFile : (path text : String) → m (Except FileFault Unit)
  /-- Makes a directory in one that is there. -/
  makeDirectory : (path : String) → m (Except FileFault Unit)
  isDirectory : (path : String) → m Bool
  print : String → m Unit
  /-- Writes a line to the log. -/
  log : String → m Unit
  /-- Says how the program is to be used, outside the log. -/
  complain : String → m Unit
  randomBytes : m (Bytes 32)

/-- Why a command failed. -/
inductive Cause where
  | file (fault : FileFault)
  | json (e : ReadError NotDecimal)
  | record (e : RecordError)
  | primitive (e : PrimitiveError)
  | config (e : ConfigError)
  | unsigned (path : String)
  | noKey
deriving DecidableEq

/-- The wording of a fault in typed JSON. -/
def jsonFault : ReadError NotDecimal → String
  | .malformed => "syntax"
  | .mismatch => "data"
  | .refused e => e.message

/-- The wording of a cause. -/
def Cause.message : Cause → String
  | .file fault => fault.message
  | .json e => jsonFault e
  | .record e => e.message
  | .primitive e => e.message
  | .config e => e.message
  | .unsigned path => path ++ " is unsigned POD entries"
  | .noKey => "no signing key: pass --key FILE or set POD_PRIVATE_KEY"

/-- A failed command: what was being done, outermost first, and the cause. -/
structure Failure where
  doing : List String
  cause : Cause
deriving DecidableEq

/-- The wording of a failure. -/
def Failure.message (f : Failure) : String :=
  String.intercalate ": " (f.doing ++ [f.cause.message])

/-- What a command reports at its end: zero if all went well, one if what it checked is invalid. -/
abbrev ExitCode := UInt8

/-- A command on a workspace: it logs through a filter and may fail. -/
abbrev Task (m : Type → Type) := ReaderT LogFilter (ExceptT Failure m)

namespace Task

variable {m : Type → Type} [Monad m] [Workspace m] {ε α : Type}

/-- Fails with a cause while doing something. -/
def fail (doing : List String) (cause : Cause) : Task m α := throw ⟨doing, cause⟩

/-- Goes on with a result or fails. -/
def liftExcept (r : Except Failure α) : Task m α := fun _ => ExceptT.mk (pure r)

/-- Goes on with a result or fails with its error. -/
def require (doing : List String) (cause : ε → Cause) : Except ε α → Task m α
  | .ok a => pure a
  | .error e => fail doing (cause e)

/-- Logs an event if the filter shows it. -/
def emit (e : Event) : Task m Unit := fun filter =>
  if filter.shows e then Workspace.log (m := m) e.line else pure ()

/-- Prints a line. -/
def printLine (s : String) : Task m Unit := Workspace.print (m := m) (s ++ "\n")

/-- Reads a text file; `doing` says what is being read, up to the path. -/
def readText (doing path : String) : Task m String := do
  require [doing ++ path] .file (← Workspace.readFile (m := m) path)

/-- Writes a text file; `doing` says what is being written, up to the path. -/
def writeText (doing path text : String) : Task m Unit := do
  require [doing ++ path] .file (← Workspace.writeFile (m := m) path text)

end Task

end ProvableRecord.Command

import ProvableRecord.Command.Execution

/-!
# The program

Reads the arguments and the environment, runs the command with the log that they ask for, and gives
the exit code: that of the command, one for a failure, and two for arguments that cannot be read.
-/

namespace ProvableRecord.Command

/-- The text that says which version this is. -/
def versionText : String := "pod 0.1.0\n"

/-- The text that explains the commands. -/
def helpText : String :=
  String.intercalate "\n"
    ["Sign typed records and prove single entries against their root.",
     "",
     "Usage: pod [-v]... COMMAND",
     "",
     "Commands:",
     "  keygen        [--output DIR] [--prefix PREFIX]",
     "  sign          --entries FILE [--key FILE] [--out FILE]",
     "  verify        FILE",
     "  prove         FILE --name NAME [--signals] [--out FILE]",
     "  verify-proof  FILE [--name NAME]",
     "  inspect       FILE",
     "  help",
     ""]

/-- How much of the log shows, without a configured filter. -/
def levelFor : (verbosity : Nat) → Level
  | 0 => .warn
  | 1 => .info
  | 2 => .debug
  | _ => .trace

/-- The filter of the log: the configured one, or one for the verbosity. -/
def filterFor (config : Config) (verbosity : Nat) : LogFilter :=
  match config.logFilter with
  | some text => LogFilter.ofText text
  | none => LogFilter.upTo (levelFor verbosity)

/-- What is said about the parts of the configured filter that are left out. -/
def filterNotices (config : Config) : List String :=
  match config.logFilter with
  | some text => LogFilter.omissions text
  | none => []

variable {m : Type → Type} [Monad m] [Workspace m]

/-- Gives the answer to a command line that names no command to be run. -/
def Notice.announce : Notice → m ExitCode
  | .help => do
    Workspace.print helpText
    return 0
  | .version => do
    Workspace.print versionText
    return 0
  | .usage fault => do
    Workspace.complain ("error: " ++ fault.message ++ "\n")
    return 2

/-- Runs a task with a log and turns a failure into an event and an exit code. -/
def Task.toExitCode (task : Task m ExitCode) (filter : LogFilter) : m ExitCode := do
  match ← (task filter).run with
  | .ok code => return code
  | .error failure =>
    let event := Event.failed failure.message
    if filter.shows event then Workspace.log event.line
    return 1

/-- Runs a request. -/
def Request.run (config : Config) (verbosity : Nat) (request : Request) : m ExitCode := do
  (filterNotices config).forM Workspace.log
  let task : Task m ExitCode := do
    Task.emit (.starting config.diagnostic)
    request.task config
  task.toExitCode (filterFor config verbosity)

/-- Runs the program on its arguments, with variables looked up in an environment. -/
def run (lookup : String → Option String) (arguments : List String) : m ExitCode :=
  match readArguments arguments with
  | .ok (verbosity, request) => request.run (Config.ofLookup lookup) verbosity
  | .error notice => notice.announce

end ProvableRecord.Command

import ProvableRecord.Command.Program

/-!
# The executable

Runs the program on the files, the streams and the random numbers of the machine.
-/

namespace ProvableRecord.Command

/-- The fault that a failed operation of the system stands for. -/
def faultOfError : IO.Error → FileFault
  | .noFileOrDirectory .. => .notFound
  | .alreadyExists .. => .alreadyExists
  | .inappropriateType _ 21 _ => .isDirectory
  | .inappropriateType .. => .notDirectory
  | .invalidArgument .. => .nameTooLong
  | .permissionDenied .. => .other "Permission denied (os error 13)"
  | e => .other e.toString

/-- Runs an operation on a path and gives its fault as a value. -/
def tryOperation {α : Type} (path : String) (operation : IO α) : IO (Except FileFault α) := do
  if path.toList.contains '\x00' then return .error .nulInPath
  try
    return .ok (← operation)
  catch e =>
    return .error (faultOfError e)

/-- The machine as a workspace. -/
instance : Workspace IO where
  readFile path := do
    match ← tryOperation path (IO.FS.readBinFile path) with
    | .ok bytes =>
      match String.fromUTF8? bytes with
      | some text => return .ok text
      | none => return .error .notText
    | .error fault => return .error fault
  writeFile path text := tryOperation path (IO.FS.writeFile path text)
  makeDirectory path := tryOperation path (IO.FS.createDir path)
  isDirectory path := do
    let firstByte := IO.FS.withFile path .read fun handle => handle.read 1
    match ← tryOperation path firstByte with
    | .error .isDirectory => return true
    | _ => return false
  print := IO.print
  log := IO.eprintln
  complain := IO.eprint
  randomBytes := do
    let bytes ← IO.getRandomBytes 32
    return Bytes.ofNat 32 (ofLittleEndian bytes.data.toList)

end ProvableRecord.Command

/-- Runs the program on the arguments and the environment of the process. -/
def main (arguments : List String) : IO UInt32 := do
  let privateKey ← IO.getEnv "POD_PRIVATE_KEY"
  let log ← IO.getEnv "POD_LOG"
  let outputDir ← IO.getEnv "POD_OUTPUT_DIR"
  let lookup := fun name : String =>
    if name = "POD_PRIVATE_KEY" then privateKey
    else if name = "POD_LOG" then log
    else if name = "POD_OUTPUT_DIR" then outputDir
    else none
  let code : ProvableRecord.Command.ExitCode ← ProvableRecord.Command.run lookup arguments
  return code.toUInt32

import ProvableRecord.Command.Path

/-!
# Making directories

A directory is made together with those around it that are missing.  The directory itself is tried
first; only if something on the way to it is missing, the next one outwards is made in the same way
and the first is tried again.
-/

namespace ProvableRecord.Command.Workspace

variable {m : Type → Type} [Monad m] [Workspace m]

/-- Lets a failure to make a directory pass if there is one. -/
def allowPresent (path : String) : Except FileFault Unit → m (Except FileFault Unit)
  | .ok () => return .ok ()
  | .error fault => do if ← isDirectory path then return .ok () else return .error fault

/-- Makes a directory unless there is one; `around` holds the paths of those around it, the nearest
one first. -/
def ensureDirectory : (path : String) → (around : List String) → m (Except FileFault Unit)
  | path, [] => do allowPresent path (← makeDirectory path)
  | path, nearest :: around => do
    match ← makeDirectory path with
    | .error .notFound =>
      match ← ensureDirectory nearest around with
      | .ok () => allowPresent path (← makeDirectory path)
      | .error fault => return .error fault
    | result => allowPresent path result

/-- Makes a directory and those around it; the empty path needs none. -/
def createDirectories (path : String) : m (Except FileFault Unit) :=
  if path.isEmpty then return .ok () else ensureDirectory path (Path.enclosing path)

end ProvableRecord.Command.Workspace

import ProvableRecord.Command.Path

/-!
# A file system as a value

A `Session` holds directories and files, and collects what is printed and logged.  It is a
workspace, so that what a command does can be computed and reasoned about.

Commands run in one directory of the file system, and relative paths start there.  Paths are
followed name by name, and every name before the last has to lead to a directory.
-/

namespace ProvableRecord.Command

/-- Where something is: the names that lead there from the root. -/
abbrev Place := List String

/-- What a path leads to. -/
inductive Node where
  | directory
  | file (bytes : ByteArray)
  /-- A device that drops what is written to it and reads as empty. -/
  | sink

/-- The directory in which commands run. -/
def workPlace : Place := ["tmp", "work"]

/-- What there is besides the files of a session: the usual directories and a sink. -/
def surroundings : List (Place × Node) :=
  let names := ["bin", "boot", "dev", "etc", "home", "lib", "media", "mnt", "opt", "proc", "root",
    "run", "sbin", "srv", "sys", "tmp", "usr", "var"]
  (workPlace, .directory) :: (["dev", "null"], .sink) :: names.map fun name => ([name], .directory)

/-- A file system with the output of the commands that ran on it. -/
structure Session where
  /-- What is below the root, each with its place. -/
  nodes : List (Place × Node) := surroundings
  printed : String := ""
  /-- The lines of the log, first line first. -/
  logged : List String := []
  complaints : String := ""
  /-- The random bytes to be drawn. -/
  random : Bytes 32 := Bytes.ofNat 32 0

namespace Session

/-- The greatest number of bytes in a name. -/
def maxNameLength : Nat := 255

/-- The greatest number of bytes in a path. -/
def maxPathLength : Nat := 4095

/-- What is at a place. -/
def at? (s : Session) (place : Place) : Option Node :=
  if place.isEmpty then some .directory else (s.nodes.find? fun n => n.1 = place).map (·.2)

/-- Puts a node in place of what was there. -/
def put (s : Session) (place : Place) (node : Node) : Session :=
  { s with nodes := (place, node) :: s.nodes.filter fun n => n.1 ≠ place }

/-- The place that a name leads to from a directory.  The root is above itself. -/
def step (here : Place) (name : String) : Except FileFault Place :=
  if name = "" ∨ name = "." then .ok here
  else if name = ".." then .ok here.dropLast
  else if maxNameLength < name.utf8ByteSize then .error .nameTooLong
  else .ok (here ++ [name])

/-- Follows names from a place; all but the last have to lead to directories. -/
def walk (s : Session) : (here : Place) → (names : List String) → Except FileFault Place
  | here, [] => .ok here
  | here, name :: names =>
    match s.at? here with
    | some .directory => do s.walk (← step here name) names
    | some _ => .error .notDirectory
    | none => .error .notFound

/-- Follows names to a directory: from its end one more step can be taken, which stays there. -/
def walkInto (s : Session) (here : Place) (names : List String) : Except FileFault Place :=
  s.walk here (names ++ ["."])

/-- Where a path starts. -/
def origin (path : String) : Place := if Path.isAbsolute path then [] else workPlace

/-- The names of a path that may be followed. -/
def namesOf (path : String) : Except FileFault (List String) :=
  if path.toList.contains '\x00' then .error .nulInPath
  else if path.isEmpty then .error .notFound
  else if maxPathLength < path.utf8ByteSize then .error .nameTooLong
  else .ok (Path.names path)

/-- The place that a path leads to. -/
def resolve (s : Session) (path : String) : Except FileFault Place := do
  s.walk (origin path) (← namesOf path)

/-- The text of a file. -/
def read (s : Session) (path : String) : Except FileFault String := do
  match s.at? (← s.resolve path) with
  | some (.file bytes) =>
    match String.fromUTF8? bytes with
    | some text => return text
    | none => throw .notText
  | some .sink => return ""
  | some .directory => throw .isDirectory
  | none => throw .notFound

/-- Writes a file.  A path with a slash at its end can only be a directory, whatever its last name
leads to. -/
def write (s : Session) (path text : String) : Except FileFault Session := do
  let names ← namesOf path
  if names.getLast? = some "" then
    let _ ← s.walkInto (origin path) (Path.dropEmptyEnd names).dropLast
    throw .isDirectory
  else
    let place ← s.walk (origin path) names
    match s.at? place with
    | some .directory => throw .isDirectory
    | some .sink => return s
    | _ => return s.put place (.file text.toUTF8)

/-- Makes a directory.  A dot or two at the end name a directory that is there already. -/
def makeDirectory (s : Session) (path : String) : Except FileFault Session := do
  let names := Path.dropEmptyEnd (← namesOf path)
  let around ← s.walkInto (origin path) names.dropLast
  let name := names.getLast?.getD "."
  if name = "." ∨ name = ".." then throw .alreadyExists
  else
    let place ← step around name
    if (s.at? place).isSome then throw .alreadyExists else return s.put place .directory

/-- Whether a path leads to a directory. -/
def isDirectory (s : Session) (path : String) : Bool :=
  match s.resolve path with
  | .ok place =>
    match s.at? place with
    | some .directory => true
    | _ => false
  | .error _ => false

/-- Puts a directory at each place that names lead to from a place, unless something is there. -/
def addDirectories : (s : Session) → (here : Place) → (names : List String) → Session
  | s, _, [] => s
  | s, here, name :: names =>
    let next := here ++ [name]
    let s := if (s.at? next).isSome then s else s.put next .directory
    addDirectories s next names

/-- Adds a file to the directory in which commands run, and the directories around it. -/
def addFile (s : Session) (path : String) (bytes : ByteArray) : Session :=
  let names := Path.names path
  (s.addDirectories workPlace names.dropLast).put (workPlace ++ names) (.file bytes)

/-- The files below the directory in which commands run, with the paths that lead to them. -/
def files (s : Session) : List (String × ByteArray) :=
  s.nodes.filterMap fun n =>
    match n.2 with
    | .file bytes =>
      if workPlace.isPrefixOf n.1 then
        some (String.intercalate "/" (n.1.drop workPlace.length), bytes)
      else none
    | _ => none

/-- Goes on with a changed file system or keeps the old one and gives the fault. -/
def attempt (f : Session → Except FileFault Session) : StateM Session (Except FileFault Unit) :=
  fun s =>
    match f s with
    | .ok s => (.ok (), s)
    | .error fault => (.error fault, s)

instance : Workspace (StateM Session) where
  readFile path := fun s => (s.read path, s)
  writeFile path text := attempt fun s => s.write path text
  makeDirectory path := attempt fun s => s.makeDirectory path
  isDirectory path := fun s => (s.isDirectory path, s)
  print text := modify fun s => { s with printed := s.printed ++ text }
  log line := modify fun s => { s with logged := s.logged ++ [line] }
  complain text := modify fun s => { s with complaints := s.complaints ++ text }
  randomBytes := fun s => (s.random, s)

end Session

end ProvableRecord.Command

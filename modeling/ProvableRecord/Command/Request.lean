import ProvableRecord.Command.Workspace

/-!
# Command lines

The arguments of the program name a command and its options.  An option is long (`--out FILE` or
`--out=FILE`) or short (`-o DIR`, `-oDIR` or `-o=DIR`), short flags may share a dash, and after `--`
nothing is an option.  An option is given at most once, but for `-v`, which counts.

Arguments are taken from left to right, and the first fault, or the first request for help, ends the
reading.  Only then is it checked that nothing is missing.
-/

namespace ProvableRecord.Command

/-- A command with its options. -/
inductive Request where
  /-- Makes a key pair. -/
  | generateKeys (directory : Option String) (stem : String)
  /-- Signs the entries of a file. -/
  | sign (entries : String) (key out : Option String)
  /-- Checks the signature of a file. -/
  | verify (file : String)
  /-- Makes evidence for an entry. -/
  | prove (file name : String) (withSignals : Bool) (out : Option String)
  /-- Checks evidence, and that it is for a name if one is given. -/
  | check (file : String) (name : Option String)
  /-- Shows a file. -/
  | inspect (file : String)
deriving DecidableEq

/-- What can be wrong with a command line. -/
inductive UsageFault where
  | noCommand
  | unknownCommand (text : String)
  | unexpected (argument : String)
  | repeated (option : String)
  | missingValue (option : String)
  | emptyPath (option : String)
  | missing (argument : String)
deriving DecidableEq

/-- The wording of a usage fault. -/
def UsageFault.message : UsageFault → String
  | .noCommand => "a command is required"
  | .unknownCommand text => "unknown command " ++ quoted text
  | .unexpected argument => "unexpected argument " ++ quoted argument
  | .repeated option => "argument " ++ option ++ " cannot be used more than once"
  | .missingValue option => "argument " ++ option ++ " needs a value"
  | .emptyPath option => "argument " ++ option ++ " needs a path"
  | .missing argument => "argument " ++ argument ++ " is required"

/-- What a command line asks for if it does not name a command to be run. -/
inductive Notice where
  | help
  | version
  | usage (fault : UsageFault)
deriving DecidableEq

/-! ## Options -/

/-- What an option takes. -/
inductive OptionKind where
  /-- Nothing. -/
  | flag
  /-- Nothing; it may be repeated. -/
  | count
  /-- Nothing; it ends the reading. -/
  | notice (notice : Notice)
  /-- A value that is a path, which may not be empty. -/
  | path
  /-- Any value. -/
  | text
deriving DecidableEq

/-- An option of a command. -/
structure OptionRule where
  long : String
  short : Option Char
  kind : OptionKind
deriving DecidableEq

/-- What was given so far: options with their values, and the arguments that are no options. -/
structure Given where
  options : List (String × String) := []
  files : List String := []
  verbosity : Nat := 0
deriving DecidableEq

/-- The options of a command and how many files it takes. -/
structure Rules where
  options : List OptionRule
  files : Nat
deriving DecidableEq

namespace Given

/-- The value given for an option. -/
def value? (g : Given) (long : String) : Option String :=
  (g.options.find? fun o => o.1 = long).map (·.2)

/-- Adds an option with its value. -/
def addOption (g : Given) (rule : OptionRule) (value : String) : Except Notice Given :=
  if (g.value? rule.long).isSome then .error (.usage (.repeated rule.long))
  else if rule.kind = .path ∧ value.isEmpty then .error (.usage (.emptyPath rule.long))
  else .ok { g with options := (rule.long, value) :: g.options }

/-- Adds an option that takes no value. -/
def addFlag (g : Given) (rule : OptionRule) : Except Notice Given :=
  match rule.kind with
  | .count => .ok { g with verbosity := g.verbosity + 1 }
  | .notice notice => .error notice
  | _ => g.addOption rule ""

/-- Adds an argument that is no option. -/
def addFile (rules : Rules) (g : Given) (file : String) : Except Notice Given :=
  if rules.files ≤ g.files.length then .error (.usage (.unexpected file))
  else if file.isEmpty then .error (.usage (.emptyPath "FILE"))
  else .ok { g with files := g.files ++ [file] }

end Given

namespace OptionRule

/-- Whether an option takes a value. -/
def takesValue (rule : OptionRule) : Bool := rule.kind = .path || rule.kind = .text

end OptionRule

/-- Whether an argument has the form of an option. -/
def isOption (argument : String) : Bool :=
  match argument.toList with
  | '-' :: _ :: _ => true
  | _ => false

/-- Adds a long option, given by what follows its two dashes.  An option whose value is still to
come is returned. -/
def addLong (rules : Rules) (g : Given) (argument : String) (cs : List Char) :
    Except Notice (Given × Option OptionRule) :=
  let name := String.ofList (cs.takeWhile (· ≠ '='))
  match rules.options.find? fun o => o.long = name, cs.dropWhile (· ≠ '=') with
  | none, _ => .error (.usage (.unexpected argument))
  | some rule, [] =>
    if rule.takesValue then .ok (g, some rule) else (g.addFlag rule).map fun g => (g, none)
  | some rule, _ :: value =>
    if rule.takesValue then (g.addOption rule (String.ofList value)).map fun g => (g, none)
    else .error (.usage (.unexpected argument))

/-- Adds short options, given by what follows their dash.  An option whose value is still to come is
returned. -/
def addShort (rules : Rules) (argument : String) :
    Given → List Char → Except Notice (Given × Option OptionRule)
  | g, [] => .ok (g, none)
  | g, c :: cs =>
    match rules.options.find? fun o => o.short = some c with
    | none => .error (.usage (.unexpected argument))
    | some rule =>
      if rule.takesValue then
        match cs with
        | [] => .ok (g, some rule)
        | '=' :: value => (g.addOption rule (String.ofList value)).map fun g => (g, none)
        | value => (g.addOption rule (String.ofList value)).map fun g => (g, none)
      else do
        let g ← g.addFlag rule
        addShort rules argument g cs

/-- Adds one argument that is not a value of the option before it. -/
def addArgument (rules : Rules) (g : Given) (argument : String) :
    Except Notice (Given × Option OptionRule) :=
  match argument.toList with
  | '-' :: '-' :: cs => addLong rules g argument cs
  | '-' :: c :: cs => addShort rules argument g (c :: cs)
  | _ => (g.addFile rules argument).map fun g => (g, none)

/-- Adds arguments; `awaiting` is the option before them that still has no value. -/
def addArguments (rules : Rules) :
    (awaiting : Option OptionRule) → Given → List String → Except Notice Given
  | none, g, [] => .ok g
  | some rule, _, [] => .error (.usage (.missingValue rule.long))
  | some rule, g, argument :: rest =>
    if isOption argument then .error (.usage (.missingValue rule.long))
    else do
      let g ← g.addOption rule argument
      addArguments rules none g rest
  | none, g, argument :: rest =>
    if argument = "--" then rest.foldlM (Given.addFile rules) g
    else do
      let (g, awaiting) ← addArgument rules g argument
      addArguments rules awaiting g rest

/-! ## Commands -/

/-- The word that names a command. -/
inductive Verb where
  | keygen
  | sign
  | verify
  | prove
  | verifyProof
  | inspect
deriving DecidableEq

namespace Verb

/-- The written form of a verb. -/
def text : Verb → String
  | keygen => "keygen"
  | sign => "sign"
  | verify => "verify"
  | prove => "prove"
  | verifyProof => "verify-proof"
  | inspect => "inspect"

/-- The verb with a given written form. -/
def ofText? (s : String) : Option Verb :=
  [keygen, sign, verify, prove, verifyProof, inspect].find? fun v => v.text = s

/-- The options of a command, without those that all commands have. -/
def options : Verb → List OptionRule
  | keygen => [⟨"output", some 'o', .path⟩, ⟨"prefix", none, .text⟩]
  | sign => [⟨"entries", none, .path⟩, ⟨"key", none, .path⟩, ⟨"out", none, .path⟩]
  | prove => [⟨"name", none, .text⟩, ⟨"signals", none, .flag⟩, ⟨"out", none, .path⟩]
  | verifyProof => [⟨"name", none, .text⟩]
  | verify | inspect => []

/-- How many files a command takes outside its options. -/
def files : Verb → Nat
  | keygen | sign => 0
  | _ => 1

end Verb

/-- A flag that makes the log longer each time it is given. -/
def verboseRule : OptionRule := ⟨"verbose", some 'v', .count⟩

/-- A request for help. -/
def helpRule : OptionRule := ⟨"help", some 'h', .notice .help⟩

/-- The options before the command. -/
def topRules : Rules :=
  ⟨[verboseRule, helpRule, ⟨"version", some 'V', .notice .version⟩], 0⟩

/-- The rules of a command. -/
def Verb.rules (v : Verb) : Rules := ⟨v.options ++ [verboseRule, helpRule], v.files⟩

namespace Given

/-- The value of an option that has to be there. -/
def required (g : Given) (long : String) : Except Notice String :=
  match g.value? long with
  | some value => .ok value
  | none => .error (.usage (.missing long))

/-- The file that has to be there. -/
def file (g : Given) : Except Notice String :=
  match g.files with
  | file :: _ => .ok file
  | [] => .error (.usage (.missing "FILE"))

/-- The request that the arguments of a command make. -/
def request (g : Given) : Verb → Except Notice Request
  | .keygen => .ok (.generateKeys (g.value? "output") ((g.value? "prefix").getD "pod"))
  | .sign => do
    return .sign (← g.required "entries") (g.value? "key") (g.value? "out")
  | .verify => do
    return .verify (← g.file)
  | .prove => do
    let name ← g.required "name"
    return .prove (← g.file) name (g.value? "signals").isSome (g.value? "out")
  | .verifyProof => do
    return .check (← g.file) (g.value? "name")
  | .inspect => do
    return .inspect (← g.file)

end Given

/-- The answer to a request for help on some commands, of which at most one may be named. -/
def helpOn : List String → Notice
  | [] => .help
  | command :: rest =>
    if command = "help" ∨ (Verb.ofText? command).isSome then
      match rest with
      | [] => .help
      | next :: _ => .usage (.unknownCommand next)
    else .usage (.unknownCommand command)

/-- Reads the arguments of a command.  The verbosity of the command counts if it has one, otherwise
the verbosity before it. -/
def readCommand (verbosity : Nat) (v : Verb) (arguments : List String) :
    Except Notice (Nat × Request) := do
  let g ← addArguments v.rules none {} arguments
  let request ← g.request v
  return (if g.verbosity = 0 then verbosity else g.verbosity, request)

/-- Reads the arguments from the options before the command on. -/
def readTop : Given → List String → Except Notice (Nat × Request)
  | _, [] => .error (.usage .noCommand)
  | g, argument :: rest =>
    match Verb.ofText? argument with
    | some v => readCommand g.verbosity v rest
    | none =>
      if argument = "help" then .error (helpOn rest)
      else if isOption argument then do
        let (g, _) ← addArgument topRules g argument
        readTop g rest
      else .error (.usage (.unknownCommand argument))

/-- The verbosity and the request of a command line. -/
def readArguments (arguments : List String) : Except Notice (Nat × Request) := readTop {} arguments

end ProvableRecord.Command

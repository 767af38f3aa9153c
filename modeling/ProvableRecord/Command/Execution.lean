import ProvableRecord.Command.Directories
import ProvableRecord.Command.Request
import ProvableRecord.Record.Document
import ProvableRecord.Record.Evidence

/-!
# Running commands

Each command reads its files, does its work with the library, and then prints or writes the result.
A failure says what was being done, and on which path.
-/

namespace ProvableRecord.Command

/-- The failure of a document read from a path. -/
def documentFailure (path : String) : DocumentFault → Failure
  | .notJson => ⟨["failed to parse JSON: " ++ path], .json .malformed⟩
  | .signed e => ⟨["invalid POD: " ++ path], .record e⟩
  | .unsigned e => ⟨["invalid POD entries: " ++ path], .record e⟩

/-- The failure of evidence read from a path. -/
def evidenceFailure (path : String) : EvidenceFault → Failure
  | .notJson => ⟨["failed to parse JSON: " ++ path], .json .malformed⟩
  | .proof e => ⟨["invalid Merkle proof: " ++ path], .json e⟩
  | .signals e => ⟨["invalid circuit signals: " ++ path], .json e⟩

namespace Task

variable {m : Type → Type} [Monad m] [Workspace m]

/-- Reads a document. -/
def readDocument (path : String) : Task m Document := do
  let text ← readText "failed to read " path
  liftExcept ((Document.ofText text).mapError (documentFailure path))

/-- Reads evidence. -/
def readEvidence (path : String) : Task m Evidence := do
  let text ← readText "failed to read " path
  liftExcept ((Evidence.ofText text).mapError (evidenceFailure path))

/-- Writes a text to a file, if there is one, or prints it. -/
def deliver (out : Option String) (text : String) : Task m Unit :=
  match out with
  | some path => writeText "failed to write " path (text ++ "\n")
  | none => printLine text

/-- Makes a key pair and writes it to two files of a directory. -/
def generateKeys (directory stem : String) : Task m ExitCode := do
  require ["failed to create output directory: " ++ directory] .file
    (← Workspace.createDirectories (m := m) directory)
  let key : PrivateKey := ⟨← Workspace.randomBytes (m := m)⟩
  let keyPath := Path.join directory (stem ++ ".key")
  let publicPath := Path.join directory (stem ++ ".pub")
  writeText "failed to write private key: " keyPath key.toText
  writeText "failed to write public key: " publicPath key.publicKey.toText
  emit (.generatedKeys key.publicKey)
  printLine "OK: generated EdDSA-Poseidon key pair"
  printLine ("  Private key: " ++ keyPath)
  printLine ("  Public key:  " ++ publicPath)
  printLine ("  Public key (base64): " ++ key.publicKey.toText)
  return 0

/-- The key to sign with: that of a file, if one is given, or the configured one. -/
def signingKey (config : Config) : Option String → Task m PrivateKey
  | some path => do
    let text ← readText "failed to read private key: " path
    require ["invalid private key: " ++ path] .primitive (PrivateKey.ofText text)
  | none => do
    match ← require [] .config config.key? with
    | some key => return key
    | none => fail [] .noKey

/-- Signs the entries of a file. -/
def sign (config : Config) (entries : String) (keyPath out : Option String) : Task m ExitCode := do
  let key ← signingKey config keyPath
  let text ← readText "failed to read entries: " entries
  let r ← require ["invalid POD entries: " ++ entries] .record (Record.ofText text)
  emit (.builtTree r)
  let s ← require ["failed to sign POD"] .record (SignedRecord.sign r key)
  emit (.signedRecord s)
  emit (.wroteSignature s)
  deliver out s.toJson.prettyText
  return 0

/-- Logs what the check of a signature builds, and that the signature is rejected if it is. -/
def emitCheck (s : SignedRecord) (valid : Bool) : Task m Unit := do
  emit (.builtTree s.record)
  if !valid then emit (.rejectedSignature s.signer)

/-- Checks the signature of a file. -/
def verify (path : String) : Task m ExitCode := do
  match ← readDocument path with
  | .unsigned _ => fail [] (.unsigned path)
  | .signed s =>
    let valid := s.isValid
    emitCheck s valid
    if valid then
      printLine "OK: signature is valid"
      printLine ("  Content ID: " ++ Decimal.ofNat s.record.contentId)
      printLine ("  Signer:     " ++ s.signer.toText)
      return 0
    else
      printLine "FAIL: signature does not match content"
      return 1

/-- Makes evidence for an entry of a file. -/
def prove (path name : String) (withSignals : Bool) (out : Option String) : Task m ExitCode := do
  let r := (← readDocument path).record
  if (r.get? name).isSome then emit (.builtTree r)
  let doing := if withSignals then "cannot build signals for " else "cannot prove "
  let e ← require [doing ++ quoted name] .record (r.evidence name withSignals)
  emit (.generatedProof name withSignals)
  deliver out e.toJson.prettyText
  return 0

/-- Checks the evidence of a file, and that it is for a name if one is given. -/
def check (path : String) (name : Option String) : Task m ExitCode := do
  let e ← readEvidence path
  if !e.isValid then
    printLine "FAIL: proof does not verify"
    return 1
  match name.filter fun name => !e.isFor name with
  | some name =>
    printLine ("FAIL: proof is not for entry " ++ quoted name)
    return 1
  | none =>
    printLine "OK: proof is valid"
    return 0

/-- Shows a file. -/
def inspect (path : String) : Task m ExitCode := do
  let d ← readDocument path
  match d with
  | .signed s => emitCheck s s.isValid
  | .unsigned r => emit (.builtTree r)
  d.lines.forM printLine
  return 0

end Task

/-- The task that a request asks for. -/
def Request.task {m : Type → Type} [Monad m] [Workspace m] (config : Config) :
    Request → Task m ExitCode
  | .generateKeys directory stem =>
    Task.generateKeys ((directory.orElse fun _ => config.outputDir).getD ".") stem
  | .sign entries key out => Task.sign config entries key out
  | .verify file => Task.verify file
  | .prove file name withSignals out => Task.prove file name withSignals out
  | .check file name => Task.check file name
  | .inspect file => Task.inspect file

end ProvableRecord.Command

import ProvableRecord.Record.Signed

/-!
# Log events

An event has a level, the part of the program that it comes from, a message and named fields.  It is
written as one line, in which a message cannot steer the terminal that shows it.
-/

namespace ProvableRecord.Command

/-- The weight of an event, gravest first. -/
inductive Level where
  | error
  | warn
  | info
  | debug
  | trace
deriving DecidableEq

namespace Level

/-- The place of a level, from one for the gravest. -/
def rank : Level → Nat
  | error => 1
  | warn => 2
  | info => 3
  | debug => 4
  | trace => 5

/-- The written name of a level. -/
def name : Level → String
  | error => "ERROR"
  | warn => "WARN"
  | info => "INFO"
  | debug => "DEBUG"
  | trace => "TRACE"

end Level

/-- Something that happened. -/
structure Event where
  level : Level
  target : String
  message : String
  fields : List (String × String)
deriving DecidableEq

namespace Event

/-- Whether a character is a control of the first block that terminals act on. -/
def isTerminalControl (c : Char) : Bool :=
  c = '\x07' || c = '\x08' || c = '\x0c' || c = '\x1b' || c = '\x7f'

/-- The written form of a character of a message, in which controls are spelled out. -/
def encodeChar (c : Char) : List Char :=
  let n := c.toNat
  if isTerminalControl c then
    ['\\', 'x', Text.Quoted.hexDigit (n / 16), Text.Quoted.hexDigit (n % 16)]
  else if 0x80 ≤ n && n ≤ 0x9f then ['\\', 'u', '\x7b'] ++ Text.Quoted.hexDigits n ++ ['\x7d']
  else [c]

/-- The message as it is written. -/
def writtenMessage (e : Event) : String := String.ofList (e.message.toList.flatMap encodeChar)

/-- The line of an event: level, message, fields. -/
def line (e : Event) : String :=
  String.intercalate " "
    (e.level.name :: e.writtenMessage :: e.fields.map fun f => f.1 ++ "=" ++ f.2)

/-- The names of what an event tells, of which the message is one. -/
def fieldNames (e : Event) : List String := "message" :: e.fields.map (·.1)

/-- The tree of a record was built. -/
def builtTree (r : Record) : Event :=
  ⟨.debug, "pod_core::content", "built POD content tree",
    [("entries", Decimal.ofNat r.size), ("depth", Decimal.ofNat r.depth)]⟩

/-- A record was signed. -/
def signedRecord (s : SignedRecord) : Event :=
  ⟨.debug, "pod_core::pod", "signed POD",
    [("signer", s.signer.toText), ("entries", Decimal.ofNat s.record.size)]⟩

/-- A signature on a root was found not to be valid. -/
def rejectedSignature (signer : PublicKey) : Event :=
  ⟨.debug, "pod_core::signing", "root signature rejected", [("signer", signer.toText)]⟩

/-- A key pair was generated. -/
def generatedKeys (key : PublicKey) : Event :=
  ⟨.info, "pod_cli::signing", "generated key pair", [("public_key", key.toText)]⟩

/-- The command to sign has a signed record. -/
def wroteSignature (s : SignedRecord) : Event :=
  ⟨.info, "pod_cli::signing", "signed POD", [("content_id", Decimal.ofNat s.record.contentId)]⟩

/-- A proof of an entry was generated, with signals or without. -/
def generatedProof (name : String) (withSignals : Bool) : Event :=
  ⟨.debug, "pod_cli::proof", "generated entry proof",
    [("entry", quoted name), ("signals", if withSignals then "true" else "false")]⟩

/-- The program starts with a configuration, given in its diagnostic form. -/
def starting (configuration : String) : Event :=
  ⟨.debug, "pod", "pod CLI starting", [("config", configuration)]⟩

/-- The program ends with an error. -/
def failed (message : String) : Event := ⟨.error, "pod", message, []⟩

end Event

end ProvableRecord.Command

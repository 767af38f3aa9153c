import ProvableRecord.Signature.Key
import ProvableRecord.Text.Blank

/-!
# Configuration

Settings that come from environment variables.  A blank value counts as unset, and options given on
the command line win over all of them.
-/

namespace ProvableRecord.Command

/-- The settings of the environment. -/
structure Config where
  /-- The text of the key to sign with. -/
  privateKey : Option String
  /-- The filter of the log. -/
  logFilter : Option String
  /-- The directory for generated keys. -/
  outputDir : Option String
deriving DecidableEq

/-- An error in the environment. -/
inductive ConfigError where
  | privateKey (e : PrimitiveError)
deriving DecidableEq

/-- The wording of an error in the environment. -/
def ConfigError.message : ConfigError → String
  | .privateKey e => "POD_PRIVATE_KEY is not a valid private key: " ++ e.message

/-- The diagnostic form of an optional text. -/
def diagnosticOption : Option String → String
  | some s => "Some(" ++ quoted s ++ ")"
  | none => "None"

namespace Config

/-- The configuration that a look-up of variables gives. -/
def ofLookup (lookup : String → Option String) : Config :=
  let get := fun name => (lookup name).filter fun s => !Text.isAllBlank s
  ⟨get "POD_PRIVATE_KEY", get "POD_LOG", get "POD_OUTPUT_DIR"⟩

/-- The key to sign with, if one is configured. -/
def key? (c : Config) : Except ConfigError (Option PrivateKey) :=
  match c.privateKey with
  | some text => ((PrivateKey.ofText text).map some).mapError .privateKey
  | none => .ok none

/-- The diagnostic form of a configuration, which does not show the key. -/
def diagnostic (c : Config) : String :=
  "CliConfig \x7b private_key: " ++
    diagnosticOption (c.privateKey.map fun _ => "[REDACTED]") ++
    ", log_filter: " ++ diagnosticOption c.logFilter ++
    ", output_dir: " ++ diagnosticOption c.outputDir ++ " \x7d"

end Config

end ProvableRecord.Command

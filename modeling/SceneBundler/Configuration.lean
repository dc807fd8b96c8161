import SceneBundler.Configuration.Address
import SceneBundler.Number.Binary64

/-!
Contract: the settings of a program run.

Owns:
- the settings with their defaults;
- reading them from named variables, in the order origin, timeout, excerpt length, the first fault
  being the one that is reported.

Does not own: where the variables come from.
-/

namespace SceneBundler

/-- The settings: the origin of the sandbox service, the key that submissions are made with, the
bound on the time of a request in seconds, and how much of an answer a report shows. -/
structure Configuration where
  origin : Text
  apiKey : Option Text
  timeout : Binary64
  excerptLength : Int
deriving DecidableEq, Repr

/-- Named variables. -/
abbrev Variables := List (Text × Text)

/-- What can be wrong with a variable. -/
inductive ConfigurationFault where
  | invalidOrigin (given : Text)
  | timeoutNotNumber (given : Text)
  | timeoutNotPositive (given : Text)
  | excerptNotInteger (given : Text)
  | excerptNotPositive (value : Int)
  /-- The origin is no address at all. -/
  | invalidAddress (fault : AddressFault)
deriving DecidableEq, Repr

/-- A fault as a sentence. -/
def ConfigurationFault.message : ConfigurationFault -> Text
  | invalidOrigin given =>
      "Invalid SCENEPACK_SANDBOX_ORIGIN value: expected an http(s) origin, got '".toList ++ given ++
        "'. Set it to a value like https://codesandbox.io.".toList
  | timeoutNotNumber given =>
      "Invalid SCENEPACK_REQUEST_TIMEOUT_SECONDS value: expected a number, got '".toList ++ given ++
        "'.".toList
  | timeoutNotPositive given =>
      "Invalid SCENEPACK_REQUEST_TIMEOUT_SECONDS value: expected a positive number, got '".toList ++
        given ++ "'.".toList
  | excerptNotInteger given =>
      "Invalid SCENEPACK_EXCERPT_LENGTH value: expected integer, got '".toList ++ given ++
        "'. Set SCENEPACK_EXCERPT_LENGTH to a positive whole number.".toList
  | excerptNotPositive value =>
      "Invalid SCENEPACK_EXCERPT_LENGTH value: expected positive integer, got ".toList ++
        Text.ofInt value ++ ['.']
  | invalidAddress fault => fault.message

namespace Configuration

/-- The settings where nothing is set. -/
def standard : Configuration :=
  { origin := "https://codesandbox.io".toList
    apiKey := none
    timeout := .ofInt 120
    excerptLength := 500 }

/-- The value of a variable. -/
def value? (environment : Variables) (name : String) : Option Text :=
  environment.lookup name.toList

/-- An origin: an address with a scheme of the web and an authority, without anything after it. -/
def originOf (given : Text) : Except ConfigurationFault Text :=
  match Address.ofText (Text.trim given) with
  | .error fault => .error (.invalidAddress fault)
  | .ok address =>
      if ["http".toList, "https".toList].contains address.scheme && !address.authority.isEmpty then
        .ok (address.scheme ++ "://".toList ++ address.authority)
      else .error (.invalidOrigin given)

/-- A bound in seconds; what is not a number counts as positive. -/
def timeoutOf (given : Text) : Except ConfigurationFault Binary64 :=
  match Binary64.ofText? given with
  | none => .error (.timeoutNotNumber given)
  | some value => if value.isAtMostZero then .error (.timeoutNotPositive given) else .ok value

/-- A positive number of characters. -/
def excerptLengthOf (given : Text) : Except ConfigurationFault Int :=
  match Numeral.integer? given with
  | none => .error (.excerptNotInteger given)
  | some value => if value ≤ 0 then .error (.excerptNotPositive value) else .ok value

/-- The value read from a variable, or its default where the variable is not set. -/
def setting {α : Type} (environment : Variables) (name : String)
    (read : Text -> Except ConfigurationFault α) (default : α) : Except ConfigurationFault α :=
  match value? environment name with
  | some given => read given
  | none => .ok default

/-- The settings that variables hold.  An empty key is no key. -/
def ofVariables (environment : Variables) : Except ConfigurationFault Configuration := do
  let origin ← setting environment "SCENEPACK_SANDBOX_ORIGIN" originOf standard.origin
  let timeout ← setting environment "SCENEPACK_REQUEST_TIMEOUT_SECONDS" timeoutOf standard.timeout
  let excerptLength ←
    setting environment "SCENEPACK_EXCERPT_LENGTH" excerptLengthOf standard.excerptLength
  let key := (value? environment "SCENEPACK_SANDBOX_API_KEY").filter fun key => !key.isEmpty
  return ⟨origin, key, timeout, excerptLength⟩

end Configuration

end SceneBundler

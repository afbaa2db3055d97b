import UpdateProtocol.Decimal.Shortest
import UpdateProtocol.Text.Quoted
import UpdateProtocol.Toml.Document

/-!
# Configurations

A configuration names the applications of a client and what is reported about each of them.  It is
read from a table: every key must be known and every value of the right type.  The first fault in
the order of the table is reported.
-/

namespace UpdateProtocol

/-- An application that a client has installed. -/
structure InstalledApp where
  id : String
  version : String
  deriving DecidableEq, Repr

/-- What a client reports about all of its applications, and which ones it has. -/
structure Configuration where
  /-- Update channel reported for every application. -/
  track : String := ""
  machineId : String := ""
  bootId : String := ""
  oem : String := ""
  /-- Whether each application carries a ping. -/
  ping : Bool := true
  /-- Whether each application asks for an update. -/
  updateCheck : Bool := true
  apps : List InstalledApp := []
  deriving DecidableEq, Repr

/-- Why a table is not a configuration. -/
inductive ConfigurationError where
  | unknownField (key : String) (known : List String)
  | missingField (key : String)
  | wrongType (found : Toml.Value) (expected : String)
  /-- An application is given as an array that is too short. -/
  | wrongLength (length : Nat)
  deriving Repr

/-- What messages call a value. -/
def Toml.Value.label : Toml.Value → String
  | string text => "string " ++ Text.quoted text.toList
  | integer number => "integer `" ++ toString number ++ "`"
  | float number => "floating point `" ++ number.text ++ "`"
  | boolean value => "boolean `" ++ (if value then "true" else "false") ++ "`"
  | array _ _ => "sequence"
  | table _ _ | moment => "map"

namespace ConfigurationError

/-- A choice between keys. -/
def choice (keys : List String) : String :=
  match keys with
  | [first, second] => "`" ++ first ++ "` or `" ++ second ++ "`"
  | keys => "one of " ++ ", ".intercalate (keys.map (fun key => "`" ++ key ++ "`"))

/-- The wording of a fault. -/
def message : ConfigurationError → String
  | unknownField key known => "unknown field `" ++ key ++ "`, expected " ++ choice known
  | missingField key => "missing field `" ++ key ++ "`"
  | wrongType found expected => "invalid type: " ++ found.label ++ ", expected " ++ expected
  | wrongLength length =>
      "invalid length " ++ toString length ++ ", expected struct AppConfig with 2 elements"

end ConfigurationError

namespace Toml.Value

/-- The text that a value must be. -/
def asString : Value → Except ConfigurationError String
  | string text => .ok text
  | other => .error (.wrongType other "a string")

/-- The truth value that a value must be. -/
def asBoolean : Value → Except ConfigurationError Bool
  | boolean value => .ok value
  | other => .error (.wrongType other "a boolean")

/-- The items of the array that a value must be. -/
def asArray : Value → Except ConfigurationError (List Value)
  | array _ items => .ok items
  | other => .error (.wrongType other "a sequence")

end Toml.Value

namespace InstalledApp

/-- The keys of an application. -/
def keys : List String :=
  ["id", "version"]

/-- The key that a date or time has in place of keys of its own. -/
def momentKey : String := "$__toml_private_datetime"

/-- What has been read of an application. -/
structure Draft where
  id : Option String := none
  version : Option String := none

/-- Read one entry of an application. -/
def Draft.add (draft : Draft) (entry : String × Toml.Value) :
    Except ConfigurationError Draft :=
  match entry.1 with
  | "id" => do .ok { draft with id := some (← entry.2.asString) }
  | "version" => do .ok { draft with version := some (← entry.2.asString) }
  | key => .error (.unknownField key keys)

/-- The application, if both of its entries were given. -/
def Draft.finish (draft : Draft) : Except ConfigurationError InstalledApp :=
  match draft.id, draft.version with
  | some id, some version => .ok ⟨id, version⟩
  | none, _ => .error (.missingField "id")
  | some _, none => .error (.missingField "version")

/-- Read an application from a table or from an array that begins with its id and version. -/
def ofToml : Toml.Value → Except ConfigurationError InstalledApp
  | .table _ entries => do (← entries.foldlM Draft.add {}).finish
  | .array _ items =>
      match items with
      | [] => .error (.wrongLength 0)
      | [id] => do
          let _ ← id.asString
          .error (.wrongLength 1)
      | id :: version :: _ => do .ok ⟨← id.asString, ← version.asString⟩
  | .moment => .error (.unknownField momentKey keys)
  | other => .error (.wrongType other "struct AppConfig")

end InstalledApp

namespace Configuration

/-- The keys of a configuration. -/
def keys : List String :=
  ["track", "machine_id", "boot_id", "oem", "ping", "update_check", "apps"]

/-- Read one entry of a configuration. -/
def add (configuration : Configuration) (entry : String × Toml.Value) :
    Except ConfigurationError Configuration :=
  match entry.1 with
  | "track" => do .ok { configuration with track := ← entry.2.asString }
  | "machine_id" => do .ok { configuration with machineId := ← entry.2.asString }
  | "boot_id" => do .ok { configuration with bootId := ← entry.2.asString }
  | "oem" => do .ok { configuration with oem := ← entry.2.asString }
  | "ping" => do .ok { configuration with ping := ← entry.2.asBoolean }
  | "update_check" => do .ok { configuration with updateCheck := ← entry.2.asBoolean }
  | "apps" => do .ok { configuration with apps := ← (← entry.2.asArray).mapM InstalledApp.ofToml }
  | key => .error (.unknownField key keys)

/-- Read a configuration from the entries of a table. -/
def ofToml (entries : Toml.Entries) : Except ConfigurationError Configuration :=
  entries.foldlM add {}

end Configuration

end UpdateProtocol

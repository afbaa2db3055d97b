import UpdateProtocol.Configuration.Basic
import UpdateProtocol.Configuration.Path

/-!
# Loading a configuration

The configuration comes from a file that is named, or from the first of the usual locations where
something exists, or is the default one.  Variables of the environment have the last word on the
track, the machine id and the vendor.
-/

namespace UpdateProtocol

/-- What stands at a path. -/
inductive FileEntry where
  | absent
  /-- A directory, or something else that is no readable file. -/
  | directory
  | file (content : ByteArray)

/-- What stands at every path. -/
abbrev FileSystem := String → FileEntry

/-- The values of the variables that are set. -/
abbrev Environment := String → Option String

/-- Whether something stands there. -/
def FileEntry.exists : FileEntry → Bool
  | absent => false
  | _ => true

/-- The text of a file. -/
def FileEntry.text? : FileEntry → Option String
  | file content => String.fromUTF8? content
  | _ => none

/-- Why a configuration cannot be loaded from the file at a path. -/
inductive LoadError where
  | unreadable (path : String)
  | malformed (path : String)
  | invalid (path : String) (error : ConfigurationError)
  deriving Repr

/-- What was being done. -/
def LoadError.context : LoadError → String
  | unreadable path => "reading " ++ path
  | malformed path | invalid path _ => "parsing " ++ path

namespace Configuration

/-- The location that all users share. -/
def systemPath : String := "/etc/omaha/config.toml"

/-- The file inside a directory of configurations. -/
def pathIn (directory : String) : String :=
  Path.join directory "omaha/config.toml"

/-- The usual locations in order, given the directory for configurations and the home directory.
The second is left out when it is the first. -/
def searchPaths (xdg home : Option String) : List String :=
  let first := xdg.toList.map pathIn
  let second := (home.toList.map (fun home => pathIn (Path.join home ".config"))).filter
    (fun path => !first.any (Path.same path))
  first ++ second ++ [systemPath]

/-- The usual locations in an environment. -/
def usualPaths (environment : Environment) : List String :=
  searchPaths (environment "XDG_CONFIG_HOME") (environment "HOME")

/-- Read a configuration from a text. -/
def parse (path : String) (text : String) : Except LoadError Configuration :=
  match Toml.parse text.toList with
  | none => .error (.malformed path)
  | some entries => (ofToml entries).mapError (.invalid path)

/-- Read a configuration from the file at a path. -/
def read (files : FileSystem) (path : String) : Except LoadError Configuration :=
  match (files path).text? with
  | none => .error (.unreadable path)
  | some text => parse path text

/-- Let the environment overrule what a configuration says. -/
def override (environment : Environment) (configuration : Configuration) : Configuration :=
  { configuration with
    track := (environment "OMAHA_TRACK").getD configuration.track
    machineId := (environment "OMAHA_MACHINE_ID").getD configuration.machineId
    oem := (environment "OMAHA_OEM").getD configuration.oem }

/-- The path of the configuration to read, if there is one. -/
def choose (files : FileSystem) (environment : Environment) (given : Option String) :
    Option String :=
  match given with
  | some path => some path
  | none => (usualPaths environment).find? (fun path => (files path).exists)

/-- Load the configuration. -/
def load (files : FileSystem) (environment : Environment) (given : Option String) :
    Except LoadError Configuration :=
  let configuration := match choose files environment given with
    | some path => read files path
    | none => .ok {}
  configuration.map (override environment)

end Configuration

end UpdateProtocol

import UpdateProtocol.Configuration.Load
import UpdateProtocol.Configuration.Request
import UpdateProtocol.Message.Summary

/-!
# The command line

`request` prints the request of a configuration, `inspect` the summary of a response.  A run either
succeeds and prints everything or fails and prints nothing.
-/

namespace UpdateProtocol.CommandLine

/-! ### Arguments -/

/-- What a command line asks for. -/
inductive Invocation where
  | request (configuration : Option String) (event : Option EventArgument)
  | inspect (file : String)
  | showVersion
  | showHelp
  deriving DecidableEq, Repr

/-- Whether an argument is an option or a group of options rather than a value.  A single dash is a
value. -/
def isOption (argument : String) : Bool :=
  match argument.toList with
  | '-' :: _ :: _ => true
  | _ => false

/-- An option and the value attached to it after an equals sign. -/
def splitOption (argument : String) : String × Option String :=
  match argument.toList.span (· != '=') with
  | (name, '=' :: value) => (String.ofList name, some (String.ofList value))
  | _ => (argument, none)

/-- Whether an argument begins with the short option for a letter. -/
def isShort (letter : Char) (argument : String) : Bool :=
  match argument.toList with
  | '-' :: c :: _ => c == letter
  | _ => false

/-- Whether an argument asks for help. -/
def asksHelp (argument : String) : Bool :=
  argument == "--help" || isShort 'h' argument

/-- Whether an argument asks for the version. -/
def asksVersion (argument : String) : Bool :=
  argument == "--version" || isShort 'V' argument

/-- The options of a request.  Each may be given once. -/
structure RequestOptions where
  configuration : Option String := none
  event : Option EventArgument := none

/-- Take a path that is not empty. -/
def RequestOptions.setConfiguration (options : RequestOptions) (path : String) :
    Option RequestOptions :=
  if options.configuration.isSome || path.isEmpty then none
  else some { options with configuration := some path }

/-- Take an event argument. -/
def RequestOptions.setEvent (options : RequestOptions) (argument : String) :
    Option RequestOptions :=
  match options.event, EventArgument.parse argument with
  | none, .ok event => some { options with event := some event }
  | _, _ => none

/-- Take the value of an option. -/
def RequestOptions.set (options : RequestOptions) (name value : String) : Option RequestOptions :=
  match name with
  | "--config" => options.setConfiguration value
  | "--event" => options.setEvent value
  | _ => none

/-- The arguments after `request`. -/
def parseRequest (options : RequestOptions) : List String → Option Invocation
  | [] => some (.request options.configuration options.event)
  | ["--"] => some (.request options.configuration options.event)
  | argument :: rest =>
      if asksHelp argument then some .showHelp
      else
        match splitOption argument, rest with
        | (name, some value), rest => do parseRequest (← options.set name value) rest
        | (name, none), value :: rest =>
            if isOption value then none else do parseRequest (← options.set name value) rest
        | (_, none), [] => none

/-- The arguments after `inspect`. -/
def parseInspect (file : Option String) : List String → Option Invocation
  | [] => file.map .inspect
  | "--" :: rest =>
      match file, rest with
      | some file, [] => some (.inspect file)
      | none, [file] => if file.isEmpty then none else some (.inspect file)
      | _, _ => none
  | argument :: rest =>
      if asksHelp argument then some .showHelp
      else if isOption argument || argument.isEmpty || file.isSome then none
      else parseInspect (some argument) rest

/-- The arguments of the program. -/
def parse : List String → Option Invocation
  | "request" :: rest => parseRequest {} rest
  | "inspect" :: rest => parseInspect none rest
  | ["help"] | ["help", "request"] | ["help", "inspect"] | ["help", "help"] => some .showHelp
  | argument :: _ =>
      if asksVersion argument then some .showVersion
      else if asksHelp argument then some .showHelp
      else none
  | [] => none

/-! ### Running -/

/-- What a run depends on besides its arguments: files, standard input, variables, and the unique
ids it may use. -/
structure Setting where
  files : FileSystem
  input : ByteArray
  environment : Environment
  session : String
  request : String

/-- Why a run fails after its arguments were understood. -/
inductive Failure where
  | load (error : LoadError)
  | unreadable (path : String)
  | decode (error : DecodeError)

/-- What a failure prints first.  A path stands in it as it was given, so it may hold line ends. -/
def Failure.heading : Failure → String
  | load error => "Error: " ++ error.context
  | unreadable path => "Error: reading " ++ path
  | decode _ => "Error: decoding response"

/-- What stands behind a failure, where more is known than its heading says. -/
def Failure.cause? : Failure → Option String
  | load (.invalid _ error) => some error.message
  | decode error => some error.message
  | _ => none

/-- What a run leaves behind. -/
structure Outcome where
  exitCode : UInt32
  output : String := ""
  failure : Option Failure := none

/-- The first line of a text that a line feed follows.  A line ends with a line feed and a carriage
return directly before it, and neither belongs to it. -/
def firstLine (text : String) : String :=
  let line := text.toList.takeWhile (· != '\n')
  String.ofList (if line.getLast? = some '\r' then line.dropLast else line)

example : firstLine "a\nb" = "a" ∧ firstLine "a\r\nb" = "a" ∧ firstLine "a\r" = "a" := by
  decide +kernel

/-- The first line of error output that a run leaves, if it failed after its arguments were
understood. -/
def Outcome.errorLine (outcome : Outcome) : Option String :=
  outcome.failure.map (firstLine ·.heading)

/-- The document that is named by a path, where a dash stands for standard input. -/
def readDocument (setting : Setting) (path : String) : Except Failure ByteArray :=
  if path = "-" then .ok setting.input
  else
    match setting.files path with
    | .file content => .ok content
    | _ => .error (.unreadable path)

/-- Lines, each with its end. -/
def unlines (lines : List String) : String :=
  lines.foldl (fun out line => out ++ line ++ "\n") ""

/-- How the program is used. -/
def usage : String :=
  unlines ["Usage: " ++ programName ++ " request [--config FILE] [--event TYPE:RESULT]",
    "       " ++ programName ++ " inspect FILE"]

/-- The paths an invocation may read. -/
def Invocation.paths (environment : Environment) : Invocation → List String
  | .request (some path) _ => [path]
  | .request none _ => Configuration.usualPaths environment
  | .inspect path => if path = "-" then [] else [path]
  | .showVersion | .showHelp => []

/-- What an invocation prints. -/
def execute (setting : Setting) : Invocation → Except Failure String
  | .request path event => do
      let configuration ← (Configuration.load setting.files setting.environment path).mapError
        Failure.load
      .ok ((configuration.request event setting.session setting.request).document ++ "\n")
  | .inspect path => do
      let document ← readDocument setting path
      let response ← (Response.decode document).mapError Failure.decode
      .ok (unlines response.summary)
  | .showVersion => .ok (programName ++ " " ++ programVersion ++ "\n")
  | .showHelp => .ok usage

/-- Run the program. -/
def run (setting : Setting) (arguments : List String) : Outcome :=
  match parse arguments with
  | none => { exitCode := 2 }
  | some invocation =>
      match execute setting invocation with
      | .ok output => { exitCode := 0, output }
      | .error failure => { exitCode := 1, failure := some failure }

end UpdateProtocol.CommandLine

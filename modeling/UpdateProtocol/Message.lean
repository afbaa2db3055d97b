import UpdateProtocol.Vocabulary.Lifecycle
import UpdateProtocol.Vocabulary.Status

/-!
# Messages

A client sends a `Request` about its applications; a server answers with a `Response`.  Both
carry `App`s: a request uses `ping` and `events`, a response `status` and `updateCheck`.
An optional text is absent when it is empty.
-/

namespace UpdateProtocol

/-- Operating system of the requesting client. -/
structure Os where
  platform : String := ""
  version : String := ""
  servicePack : String := ""
  arch : String := ""
  deriving DecidableEq, Repr

/-- Usage heartbeat. -/
structure Ping where
  lastReportDays : String := ""
  status : String := ""
  deriving DecidableEq, Repr

/-- A lifecycle event reported by the client. -/
structure Event where
  eventType : Code EventType := .known .unknown
  result : Code EventResult := .known .error
  previousVersion : String := ""
  errorCode : String := ""
  status : String := ""
  deriving DecidableEq, Repr

/-- Base location a package can be downloaded from. -/
structure Url where
  codebase : String := ""
  deriving DecidableEq, Repr

/-- Download locations in the order of preference. -/
structure Urls where
  urls : List Url := []
  deriving DecidableEq, Repr

/-- One downloadable file. -/
structure Package where
  hash : String := ""
  name : String := ""
  size : UInt64 := 0
  required : Bool := false
  deriving DecidableEq, Repr

/-- Instruction to run after the download, named by the step it belongs to. -/
structure Action where
  event : String := ""
  chromeosVersion : String := ""
  sha256 : String := ""
  needsAdmin : Bool := false
  isDelta : Bool := false
  disablePayloadBackoff : Bool := false
  metadataSignatureRsa : String := ""
  metadataSize : String := ""
  deadline : String := ""
  deriving DecidableEq, Repr

/-- Description of one update. -/
structure Manifest where
  version : String := ""
  packages : List Package := []
  actions : List Action := []
  deriving DecidableEq, Repr

/-- The server's verdict on one application; in a request, the wish for one. -/
structure UpdateCheck where
  targetVersionPrefix : String := ""
  status : Option (Code UpdateStatus) := none
  urls : Option Urls := none
  manifest : Option Manifest := none
  deriving DecidableEq, Repr

/-- One application. -/
structure App where
  id : String := ""
  version : String := ""
  nextVersion : String := ""
  lang : String := ""
  client : String := ""
  installAge : String := ""
  status : Option (Code AppStatus) := none
  track : String := ""
  fromTrack : String := ""
  bootId : String := ""
  machineId : String := ""
  oem : String := ""
  ping : Option Ping := none
  updateCheck : Option UpdateCheck := none
  events : List Event := []
  deriving DecidableEq, Repr

/-- A client's report and wishes. -/
structure Request where
  protocol : String := ""
  version : String := ""
  isMachine : String := ""
  sessionId : String := ""
  userId : String := ""
  installSource : String := ""
  testSource : String := ""
  requestId : String := ""
  updaterVersion : String := ""
  os : Option Os := none
  apps : List App := []
  deriving DecidableEq, Repr

/-- The server's clock: seconds since its day began. -/
structure DayStart where
  elapsedSeconds : String := "0"
  deriving DecidableEq, Repr

/-- The protocol version that messages built here carry. -/
def protocolVersion : String := "3.0"

/-- A server's answer, one application per application of the request. -/
structure Response where
  protocol : String := protocolVersion
  server : String := "mantle"
  daystart : DayStart := {}
  apps : List App := []
  deriving DecidableEq, Repr

end UpdateProtocol

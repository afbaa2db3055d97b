import UpdateProtocol.Element.Basic
import UpdateProtocol.Message

/-!
# Messages as elements

`toElement` says which attributes and children each part of a message is written with, `ofElement`
finds them again by name, in any order.  An optional text is written unless it is empty, so reading
an absent one as the empty text loses nothing.
-/

namespace UpdateProtocol

/-! ### Attributes -/

/-- An attribute that is always written. -/
def textAttribute (name text : String) : List (String × Value) :=
  [(name, .text text)]

/-- An attribute that is written unless it is empty. -/
def optionalAttribute (name text : String) : List (String × Value) :=
  if text.isEmpty then [] else [(name, .text text)]

/-- An attribute for a code, if there is one. -/
def codeAttribute {κ : Type} [Vocabulary κ] (name : String) (code : Option (Code κ)) :
    List (String × Value) :=
  code.toList.map (fun code => (name, .text code.token))

/-- An attribute for a truth value, written in either case. -/
def flagAttribute (name : String) (value : Bool) : List (String × Value) :=
  [(name, .flag value)]

/-- An attribute for a truth value, written if it holds. -/
def markAttribute (name : String) (value : Bool) : List (String × Value) :=
  if value then [(name, .flag true)] else []

/-- The code in an attribute, if there is one. -/
def Element.code? {κ : Type} [Vocabulary κ] (element : Element) (name : String) :
    Option (Code κ) :=
  (element.text? name).map .ofToken

/-- The code in an attribute that a reader has found. -/
def Element.code {κ : Type} [Vocabulary κ] (element : Element) (name : String) : Code κ :=
  .ofToken (element.text name)

/-! ### Parts of messages -/

/-- The element of an operating system. -/
def Os.toElement (os : Os) : Element :=
  .mk .os
    (optionalAttribute "platform" os.platform ++ optionalAttribute "version" os.version ++
      optionalAttribute "sp" os.servicePack ++ optionalAttribute "arch" os.arch)
    []

/-- The operating system in an element. -/
def Os.ofElement (e : Element) : Os where
  platform := e.text "platform"
  version := e.text "version"
  servicePack := e.text "sp"
  arch := e.text "arch"

/-- The element of a server's clock. -/
def DayStart.toElement (daystart : DayStart) : Element :=
  .mk .daystart (textAttribute "elapsed_seconds" daystart.elapsedSeconds) []

/-- The server's clock in an element. -/
def DayStart.ofElement (e : Element) : DayStart where
  elapsedSeconds := e.text "elapsed_seconds"

/-- The element of a ping. -/
def Ping.toElement (ping : Ping) : Element :=
  .mk .ping (optionalAttribute "r" ping.lastReportDays ++ optionalAttribute "status" ping.status) []

/-- The ping in an element. -/
def Ping.ofElement (e : Element) : Ping where
  lastReportDays := e.text "r"
  status := e.text "status"

/-- The element of an event. -/
def Event.toElement (event : Event) : Element :=
  .mk .event
    (textAttribute "eventtype" event.eventType.token ++
      textAttribute "eventresult" event.result.token ++
      optionalAttribute "previousversion" event.previousVersion ++
      optionalAttribute "errorcode" event.errorCode ++ optionalAttribute "status" event.status)
    []

/-- The event in an element. -/
def Event.ofElement (e : Element) : Event where
  eventType := e.code "eventtype"
  result := e.code "eventresult"
  previousVersion := e.text "previousversion"
  errorCode := e.text "errorcode"
  status := e.text "status"

/-- The element of a download location. -/
def Url.toElement (url : Url) : Element :=
  .mk .url (textAttribute "codebase" url.codebase) []

/-- The download location in an element. -/
def Url.ofElement (e : Element) : Url where
  codebase := e.text "codebase"

/-- The element of a group of download locations. -/
def Urls.toElement (urls : Urls) : Element :=
  .mk .urls [] (urls.urls.map Url.toElement)

/-- The download locations in an element. -/
def Urls.ofElement (e : Element) : Urls where
  urls := (e.members .url).map Url.ofElement

/-- The element of a package. -/
def Package.toElement (package : Package) : Element :=
  .mk .package
    (textAttribute "hash" package.hash ++ textAttribute "name" package.name ++
      [("size", .size package.size)] ++ flagAttribute "required" package.required)
    []

/-- The package in an element. -/
def Package.ofElement (e : Element) : Package where
  hash := e.text "hash"
  name := e.text "name"
  size := e.size "size"
  required := e.flag "required"

/-- The element of an action.  Two of its truth values are always written. -/
def Action.toElement (action : Action) : Element :=
  .mk .action
    (textAttribute "event" action.event ++
      optionalAttribute "ChromeOSVersion" action.chromeosVersion ++
      optionalAttribute "sha256" action.sha256 ++ flagAttribute "needsadmin" action.needsAdmin ++
      flagAttribute "IsDelta" action.isDelta ++
      markAttribute "DisablePayloadBackoff" action.disablePayloadBackoff ++
      optionalAttribute "MetadataSignatureRsa" action.metadataSignatureRsa ++
      optionalAttribute "MetadataSize" action.metadataSize ++
      optionalAttribute "deadline" action.deadline)
    []

/-- The action in an element. -/
def Action.ofElement (e : Element) : Action where
  event := e.text "event"
  chromeosVersion := e.text "ChromeOSVersion"
  sha256 := e.text "sha256"
  needsAdmin := e.flag "needsadmin"
  isDelta := e.flag "IsDelta"
  disablePayloadBackoff := e.flag "DisablePayloadBackoff"
  metadataSignatureRsa := e.text "MetadataSignatureRsa"
  metadataSize := e.text "MetadataSize"
  deadline := e.text "deadline"

/-- A manifest always has both of its groups. -/
def Manifest.toElement (manifest : Manifest) : Element :=
  .mk .manifest (textAttribute "version" manifest.version)
    [.mk .packages [] (manifest.packages.map Package.toElement),
      .mk .actions [] (manifest.actions.map Action.toElement)]

/-- The members of a group, none if the group is missing. -/
def Element.groupMembers (e : Element) (group member : ElementType) : List Element :=
  match e.child? group with
  | some group => group.members member
  | none => []

/-- The manifest in an element, with empty lists for missing groups. -/
def Manifest.ofElement (e : Element) : Manifest where
  version := e.text "version"
  packages := (e.groupMembers .packages .package).map Package.ofElement
  actions := (e.groupMembers .actions .action).map Action.ofElement

/-- An empty group of download locations is not written. -/
def UpdateCheck.toElement (check : UpdateCheck) : Element :=
  .mk .updateCheck
    (optionalAttribute "targetversionprefix" check.targetVersionPrefix ++
      codeAttribute "status" check.status)
    ((check.urls.toList.filter (fun urls => !urls.urls.isEmpty)).map Urls.toElement ++
      check.manifest.toList.map Manifest.toElement)

/-- The update check in an element. -/
def UpdateCheck.ofElement (e : Element) : UpdateCheck where
  targetVersionPrefix := e.text "targetversionprefix"
  status := e.code? "status"
  urls := (e.child? .urls).map Urls.ofElement
  manifest := (e.child? .manifest).map Manifest.ofElement

/-- The element of an application. -/
def App.toElement (app : App) : Element :=
  .mk .app
    (optionalAttribute "appid" app.id ++ optionalAttribute "version" app.version ++
      optionalAttribute "nextversion" app.nextVersion ++ optionalAttribute "lang" app.lang ++
      optionalAttribute "client" app.client ++ optionalAttribute "installage" app.installAge ++
      codeAttribute "status" app.status ++ optionalAttribute "track" app.track ++
      optionalAttribute "from_track" app.fromTrack ++ optionalAttribute "bootid" app.bootId ++
      optionalAttribute "machineid" app.machineId ++ optionalAttribute "oem" app.oem)
    (app.ping.toList.map Ping.toElement ++ app.updateCheck.toList.map UpdateCheck.toElement ++
      app.events.map Event.toElement)

/-- The application in an element. -/
def App.ofElement (e : Element) : App where
  id := e.text "appid"
  version := e.text "version"
  nextVersion := e.text "nextversion"
  lang := e.text "lang"
  client := e.text "client"
  installAge := e.text "installage"
  status := e.code? "status"
  track := e.text "track"
  fromTrack := e.text "from_track"
  bootId := e.text "bootid"
  machineId := e.text "machineid"
  oem := e.text "oem"
  ping := (e.child? .ping).map Ping.ofElement
  updateCheck := (e.child? .updateCheck).map UpdateCheck.ofElement
  events := (e.members .event).map Event.ofElement

/-! ### Messages -/

/-- The element of a request. -/
def Request.toElement (request : Request) : Element :=
  .mk .request
    (textAttribute "protocol" request.protocol ++ optionalAttribute "version" request.version ++
      optionalAttribute "ismachine" request.isMachine ++
      optionalAttribute "sessionid" request.sessionId ++
      optionalAttribute "userid" request.userId ++
      optionalAttribute "installsource" request.installSource ++
      optionalAttribute "testsource" request.testSource ++
      optionalAttribute "requestid" request.requestId ++
      optionalAttribute "updaterversion" request.updaterVersion)
    (request.os.toList.map Os.toElement ++ request.apps.map App.toElement)

/-- The request in an element. -/
def Request.ofElement (e : Element) : Request where
  protocol := e.text "protocol"
  version := e.text "version"
  isMachine := e.text "ismachine"
  sessionId := e.text "sessionid"
  userId := e.text "userid"
  installSource := e.text "installsource"
  testSource := e.text "testsource"
  requestId := e.text "requestid"
  updaterVersion := e.text "updaterversion"
  os := (e.child? .os).map Os.ofElement
  apps := (e.members .app).map App.ofElement

/-- The element of a response, its clock first. -/
def Response.toElement (response : Response) : Element :=
  .mk .response
    (textAttribute "protocol" response.protocol ++ textAttribute "server" response.server)
    (response.daystart.toElement :: response.apps.map App.toElement)

/-- A response without a clock starts its day at the default. -/
def Response.ofElement (e : Element) : Response where
  protocol := e.text "protocol"
  server := e.text "server"
  daystart := ((e.child? .daystart).map DayStart.ofElement).getD {}
  apps := (e.members .app).map App.ofElement

end UpdateProtocol

import UpdateProtocol.Proofs.Element.Deletion
import UpdateProtocol.Proofs.Message.Canonical

/-!
# Deleting from a message

What becomes of a message when something is deleted from its element, said for each kind of part by
a function on messages (`Request.reset`, `Response.reset`): the field of what is deleted takes the
value that stands for something absent, and every other field is as before.  These functions say
nothing about mandatory attributes, without which no message is read at all.
-/

namespace UpdateProtocol

/-! ### Parts of messages -/

/-- An operating system when something is deleted. -/
def Os.reset (os : Os) (place : Place) : Os where
  platform := place.resetText "platform" os.platform
  version := place.resetText "version" os.version
  servicePack := place.resetText "sp" os.servicePack
  arch := place.resetText "arch" os.arch

/-- A server's clock when something is deleted. -/
def DayStart.reset (daystart : DayStart) (place : Place) : DayStart where
  elapsedSeconds := place.resetText "elapsed_seconds" daystart.elapsedSeconds

/-- A ping when something is deleted. -/
def Ping.reset (ping : Ping) (place : Place) : Ping where
  lastReportDays := place.resetText "r" ping.lastReportDays
  status := place.resetText "status" ping.status

/-- An event when something is deleted.  Its codes are mandatory. -/
def Event.reset (event : Event) (place : Place) : Event where
  eventType := event.eventType
  result := event.result
  previousVersion := place.resetText "previousversion" event.previousVersion
  errorCode := place.resetText "errorcode" event.errorCode
  status := place.resetText "status" event.status

/-- A download location when something is deleted. -/
def Url.reset (url : Url) (place : Place) : Url where
  codebase := place.resetText "codebase" url.codebase

/-- A group of download locations when something is deleted. -/
def Urls.reset (urls : Urls) (place : Place) : Urls where
  urls := place.resetList .url Url.reset urls.urls

/-- A package when something is deleted.  Its other attributes are mandatory. -/
def Package.reset (package : Package) (place : Place) : Package where
  hash := package.hash
  name := package.name
  size := package.size
  required := place.resetFlag "required" package.required

/-- An action when something is deleted.  Its event is mandatory. -/
def Action.reset (action : Action) (place : Place) : Action where
  event := action.event
  chromeosVersion := place.resetText "ChromeOSVersion" action.chromeosVersion
  sha256 := place.resetText "sha256" action.sha256
  needsAdmin := place.resetFlag "needsadmin" action.needsAdmin
  isDelta := place.resetFlag "IsDelta" action.isDelta
  disablePayloadBackoff := place.resetFlag "DisablePayloadBackoff" action.disablePayloadBackoff
  metadataSignatureRsa := place.resetText "MetadataSignatureRsa" action.metadataSignatureRsa
  metadataSize := place.resetText "MetadataSize" action.metadataSize
  deadline := place.resetText "deadline" action.deadline

/-- A manifest when something is deleted, with an empty list for a group.  Its version is
mandatory. -/
def Manifest.reset (manifest : Manifest) (place : Place) : Manifest where
  version := manifest.version
  packages := place.resetPart .packages []
    (fun packages inner => inner.resetList .package Package.reset packages) manifest.packages
  actions := place.resetPart .actions []
    (fun actions inner => inner.resetList .action Action.reset actions) manifest.actions

/-- An update check when something is deleted. -/
def UpdateCheck.reset (check : UpdateCheck) (place : Place) : UpdateCheck where
  targetVersionPrefix := place.resetText "targetversionprefix" check.targetVersionPrefix
  status := place.resetCode "status" check.status
  urls := place.resetOption .urls Urls.reset check.urls
  manifest := place.resetOption .manifest Manifest.reset check.manifest

/-- An application when something is deleted. -/
def App.reset (app : App) (place : Place) : App where
  id := place.resetText "appid" app.id
  version := place.resetText "version" app.version
  nextVersion := place.resetText "nextversion" app.nextVersion
  lang := place.resetText "lang" app.lang
  client := place.resetText "client" app.client
  installAge := place.resetText "installage" app.installAge
  status := place.resetCode "status" app.status
  track := place.resetText "track" app.track
  fromTrack := place.resetText "from_track" app.fromTrack
  bootId := place.resetText "bootid" app.bootId
  machineId := place.resetText "machineid" app.machineId
  oem := place.resetText "oem" app.oem
  ping := place.resetOption .ping Ping.reset app.ping
  updateCheck := place.resetOption .updateCheck UpdateCheck.reset app.updateCheck
  events := place.resetList .event Event.reset app.events

/-! ### Messages -/

/-- A request when something is deleted. -/
def Request.reset (request : Request) (place : Place) : Request where
  protocol := place.resetText "protocol" request.protocol
  version := place.resetText "version" request.version
  isMachine := place.resetText "ismachine" request.isMachine
  sessionId := place.resetText "sessionid" request.sessionId
  userId := place.resetText "userid" request.userId
  installSource := place.resetText "installsource" request.installSource
  testSource := place.resetText "testsource" request.testSource
  requestId := place.resetText "requestid" request.requestId
  updaterVersion := place.resetText "updaterversion" request.updaterVersion
  os := place.resetOption .os Os.reset request.os
  apps := place.resetList .app App.reset request.apps

/-- A response when something is deleted, with the default for its clock. -/
def Response.reset (response : Response) (place : Place) : Response where
  protocol := place.resetText "protocol" response.protocol
  server := place.resetText "server" response.server
  daystart := place.resetPart .daystart {} DayStart.reset response.daystart
  apps := place.resetList .app App.reset response.apps

/-! ### Reading what is left -/

open Element (Resets)

theorem Os.resets : Resets .os Os.ofElement Os.reset := by
  intro element place left node h valid _ _
  simp only [Os.ofElement, Os.reset, h.text_eq valid]

theorem DayStart.resets : Resets .daystart DayStart.ofElement DayStart.reset := by
  intro element place left node h valid _ _
  simp only [DayStart.ofElement, DayStart.reset, h.text_eq valid]

theorem Ping.resets : Resets .ping Ping.ofElement Ping.reset := by
  intro element place left node h valid _ _
  simp only [Ping.ofElement, Ping.reset, h.text_eq valid]

theorem Event.resets : Resets .event Event.ofElement Event.reset := by
  intro element place left node h valid _ optional
  have htype := Place.ne_attr optional (by decide : "eventtype" ∈ ElementType.event.mandatory)
  have hresult := Place.ne_attr optional (by decide : "eventresult" ∈ ElementType.event.mandatory)
  simp only [Event.ofElement, Event.reset, Element.code, h.text_eq valid, Place.resetText_eq htype,
    Place.resetText_eq hresult]

theorem Url.resets : Resets .url Url.ofElement Url.reset := by
  intro element place left node h valid _ _
  simp only [Url.ofElement, Url.reset, h.text_eq valid]

theorem Urls.resets : Resets .urls Urls.ofElement Urls.reset := by
  intro element place left node h valid htype optional
  rw [← htype] at optional
  simp only [Urls.ofElement, Urls.reset, h.map_members valid optional Url.resets]

theorem Package.resets : Resets .package Package.ofElement Package.reset := by
  intro element place left node h valid _ optional
  have hhash := Place.ne_attr optional (by decide : "hash" ∈ ElementType.package.mandatory)
  have hname := Place.ne_attr optional (by decide : "name" ∈ ElementType.package.mandatory)
  have hsize := Place.ne_attr optional (by decide : "size" ∈ ElementType.package.mandatory)
  simp only [Package.ofElement, Package.reset, h.text_eq valid, h.flag_eq valid,
    h.size_eq valid _ hsize, Place.resetText_eq hhash, Place.resetText_eq hname]

theorem Action.resets : Resets .action Action.ofElement Action.reset := by
  intro element place left node h valid _ optional
  have hevent := Place.ne_attr optional (by decide : "event" ∈ ElementType.action.mandatory)
  simp only [Action.ofElement, Action.reset, h.text_eq valid, h.flag_eq valid,
    Place.resetText_eq hevent]

theorem Manifest.resets : Resets .manifest Manifest.ofElement Manifest.reset := by
  intro element place left node h valid htype optional
  have hversion := Place.ne_attr optional (by decide : "version" ∈ ElementType.manifest.mandatory)
  rw [← htype] at optional
  have hpackages := h.map_groupMembers valid optional Package.resets
    (by rw [htype]; decide : ElementType.packages ∈ _)
  have hactions := h.map_groupMembers valid optional Action.resets
    (by rw [htype]; decide : ElementType.actions ∈ _)
  simp only [Manifest.ofElement, Manifest.reset, h.text_eq valid, Place.resetText_eq hversion,
    hpackages, hactions]

theorem UpdateCheck.resets : Resets .updateCheck UpdateCheck.ofElement UpdateCheck.reset := by
  intro element place left node h valid htype optional
  rw [← htype] at optional
  have hurls := h.map_child? valid optional Urls.resets (by rw [htype]; decide)
  have hmanifest := h.map_child? valid optional Manifest.resets (by rw [htype]; decide)
  simp only [UpdateCheck.ofElement, UpdateCheck.reset, h.text_eq valid, h.code?_eq valid, hurls,
    hmanifest]

theorem App.resets : Resets .app App.ofElement App.reset := by
  intro element place left node h valid htype optional
  rw [← htype] at optional
  have hping := h.map_child? valid optional Ping.resets (by rw [htype]; decide)
  have hcheck := h.map_child? valid optional UpdateCheck.resets (by rw [htype]; decide)
  have hevents := h.map_members valid optional Event.resets
  simp only [App.ofElement, App.reset, h.text_eq valid, h.code?_eq valid, hping, hcheck, hevents]

theorem Request.resets : Resets .request Request.ofElement Request.reset := by
  intro element place left node h valid htype optional
  rw [← htype] at optional
  have hos := h.map_child? valid optional Os.resets (by rw [htype]; decide)
  have happs := h.map_members valid optional App.resets
  simp only [Request.ofElement, Request.reset, h.text_eq valid, hos, happs]

theorem Response.resets : Resets .response Response.ofElement Response.reset := by
  intro element place left node h valid htype optional
  rw [← htype] at optional
  have hreset : Resets .daystart
      (fun clock => ((some clock).map DayStart.ofElement).getD {}) DayStart.reset := DayStart.resets
  have hdaystart := h.get_child? valid optional
    (fun clock => (clock.map DayStart.ofElement).getD {}) hreset (by rw [htype]; decide)
  have happs := h.map_members valid optional App.resets
  rw [Option.map_none, Option.getD_none] at hdaystart
  simp only [Response.ofElement, Response.reset, h.text_eq valid, hdaystart, happs]

end UpdateProtocol

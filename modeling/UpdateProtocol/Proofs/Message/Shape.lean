import UpdateProtocol.Message.Element
import UpdateProtocol.Proofs.Element.Skeleton

/-!
# The shape of a message

The shape of a message says which of its optional parts are there and how long its lists are, and
nothing of what its fields hold.  It determines the outline of the message's element
(`Request.outline_toElement`, `Response.outline_toElement`): the tags with the names of their
attributes, in the order in which the fields are declared.
-/

namespace UpdateProtocol

/-- An attribute that is written if its field is given. -/
def givenName (name : String) (given : Bool) : List String :=
  if given then [name] else []

/-! ### Shapes -/

/-- Which texts of an operating system are given. -/
structure Os.Shape where
  platform : Bool
  version : Bool
  servicePack : Bool
  arch : Bool
  deriving DecidableEq, Repr

/-- Which texts of a ping are given. -/
structure Ping.Shape where
  lastReportDays : Bool
  status : Bool
  deriving DecidableEq, Repr

/-- Which optional texts of an event are given. -/
structure Event.Shape where
  previousVersion : Bool
  errorCode : Bool
  status : Bool
  deriving DecidableEq, Repr

/-- Which optional attributes of an action are given. -/
structure Action.Shape where
  chromeosVersion : Bool
  sha256 : Bool
  disablePayloadBackoff : Bool
  metadataSignatureRsa : Bool
  metadataSize : Bool
  deadline : Bool
  deriving DecidableEq, Repr

/-- The number of packages and the shapes of the actions. -/
structure Manifest.Shape where
  packages : Nat
  actions : List Action.Shape
  deriving DecidableEq, Repr

/-- Which attributes of an update check are given, the number of its download locations, and the
shape of its manifest. -/
structure UpdateCheck.Shape where
  targetVersionPrefix : Bool
  status : Bool
  urls : Nat
  manifest : Option Manifest.Shape
  deriving DecidableEq, Repr

/-- Which attributes of an application are given, and the shapes of its parts. -/
structure App.Shape where
  id : Bool
  version : Bool
  nextVersion : Bool
  lang : Bool
  client : Bool
  installAge : Bool
  status : Bool
  track : Bool
  fromTrack : Bool
  bootId : Bool
  machineId : Bool
  oem : Bool
  ping : Option Ping.Shape
  updateCheck : Option UpdateCheck.Shape
  events : List Event.Shape
  deriving DecidableEq, Repr

/-- Which optional texts of a request are given, and the shapes of its parts. -/
structure Request.Shape where
  version : Bool
  isMachine : Bool
  sessionId : Bool
  userId : Bool
  installSource : Bool
  testSource : Bool
  requestId : Bool
  updaterVersion : Bool
  os : Option Os.Shape
  apps : List App.Shape
  deriving DecidableEq, Repr

/-- The shapes of the applications of a response. -/
structure Response.Shape where
  apps : List App.Shape
  deriving DecidableEq, Repr

/-! ### The shape of a message -/

/-- The shape of an operating system. -/
def Os.shape (os : Os) : Os.Shape where
  platform := !os.platform.isEmpty
  version := !os.version.isEmpty
  servicePack := !os.servicePack.isEmpty
  arch := !os.arch.isEmpty

/-- The shape of a ping. -/
def Ping.shape (ping : Ping) : Ping.Shape where
  lastReportDays := !ping.lastReportDays.isEmpty
  status := !ping.status.isEmpty

/-- The shape of an event. -/
def Event.shape (event : Event) : Event.Shape where
  previousVersion := !event.previousVersion.isEmpty
  errorCode := !event.errorCode.isEmpty
  status := !event.status.isEmpty

/-- The shape of an action. -/
def Action.shape (action : Action) : Action.Shape where
  chromeosVersion := !action.chromeosVersion.isEmpty
  sha256 := !action.sha256.isEmpty
  disablePayloadBackoff := action.disablePayloadBackoff
  metadataSignatureRsa := !action.metadataSignatureRsa.isEmpty
  metadataSize := !action.metadataSize.isEmpty
  deadline := !action.deadline.isEmpty

/-- The shape of a manifest. -/
def Manifest.shape (manifest : Manifest) : Manifest.Shape where
  packages := manifest.packages.length
  actions := manifest.actions.map Action.shape

/-- The shape of an update check.  No group of download locations counts as an empty one. -/
def UpdateCheck.shape (check : UpdateCheck) : UpdateCheck.Shape where
  targetVersionPrefix := !check.targetVersionPrefix.isEmpty
  status := check.status.isSome
  urls := (check.urls.getD {}).urls.length
  manifest := check.manifest.map Manifest.shape

/-- The shape of an application. -/
def App.shape (app : App) : App.Shape where
  id := !app.id.isEmpty
  version := !app.version.isEmpty
  nextVersion := !app.nextVersion.isEmpty
  lang := !app.lang.isEmpty
  client := !app.client.isEmpty
  installAge := !app.installAge.isEmpty
  status := app.status.isSome
  track := !app.track.isEmpty
  fromTrack := !app.fromTrack.isEmpty
  bootId := !app.bootId.isEmpty
  machineId := !app.machineId.isEmpty
  oem := !app.oem.isEmpty
  ping := app.ping.map Ping.shape
  updateCheck := app.updateCheck.map UpdateCheck.shape
  events := app.events.map Event.shape

/-- The shape of a request. -/
def Request.shape (request : Request) : Request.Shape where
  version := !request.version.isEmpty
  isMachine := !request.isMachine.isEmpty
  sessionId := !request.sessionId.isEmpty
  userId := !request.userId.isEmpty
  installSource := !request.installSource.isEmpty
  testSource := !request.testSource.isEmpty
  requestId := !request.requestId.isEmpty
  updaterVersion := !request.updaterVersion.isEmpty
  os := request.os.map Os.shape
  apps := request.apps.map App.shape

/-- The shape of a response. -/
def Response.shape (response : Response) : Response.Shape where
  apps := response.apps.map App.shape

/-! ### The outline of a shape -/

/-- The outline of an operating system. -/
def Os.Shape.outline (shape : Os.Shape) : Outline :=
  .node "os"
    (givenName "platform" shape.platform ++ givenName "version" shape.version ++
      givenName "sp" shape.servicePack ++ givenName "arch" shape.arch)
    []

/-- The outline of a ping. -/
def Ping.Shape.outline (shape : Ping.Shape) : Outline :=
  .node "ping" (givenName "r" shape.lastReportDays ++ givenName "status" shape.status) []

/-- The outline of an event. -/
def Event.Shape.outline (shape : Event.Shape) : Outline :=
  .node "event"
    (["eventtype", "eventresult"] ++ givenName "previousversion" shape.previousVersion ++
      givenName "errorcode" shape.errorCode ++ givenName "status" shape.status)
    []

/-- The outline of an action. -/
def Action.Shape.outline (shape : Action.Shape) : Outline :=
  .node "action"
    (["event"] ++ givenName "ChromeOSVersion" shape.chromeosVersion ++
      givenName "sha256" shape.sha256 ++ ["needsadmin", "IsDelta"] ++
      givenName "DisablePayloadBackoff" shape.disablePayloadBackoff ++
      givenName "MetadataSignatureRsa" shape.metadataSignatureRsa ++
      givenName "MetadataSize" shape.metadataSize ++ givenName "deadline" shape.deadline)
    []

/-- The outline of every package. -/
def Package.outline : Outline :=
  .node "package" ["hash", "name", "size", "required"] []

/-- The outline of a manifest, always with both of its groups. -/
def Manifest.Shape.outline (shape : Manifest.Shape) : Outline :=
  .node "manifest" ["version"]
    [.node "packages" [] (List.replicate shape.packages Package.outline),
      .node "actions" [] (shape.actions.map Action.Shape.outline)]

/-- The outline of every download location. -/
def Url.outline : Outline :=
  .node "url" ["codebase"] []

/-- The outline of a number of download locations.  Their group is left out if there are none. -/
def Urls.outlines : Nat → List Outline
  | 0 => []
  | count + 1 => [.node "urls" [] (List.replicate (count + 1) Url.outline)]

/-- The outline of an update check. -/
def UpdateCheck.Shape.outline (shape : UpdateCheck.Shape) : Outline :=
  .node "updatecheck"
    (givenName "targetversionprefix" shape.targetVersionPrefix ++ givenName "status" shape.status)
    (Urls.outlines shape.urls ++ shape.manifest.toList.map Manifest.Shape.outline)

/-- The outline of an application. -/
def App.Shape.outline (shape : App.Shape) : Outline :=
  .node "app"
    (givenName "appid" shape.id ++ givenName "version" shape.version ++
      givenName "nextversion" shape.nextVersion ++ givenName "lang" shape.lang ++
      givenName "client" shape.client ++ givenName "installage" shape.installAge ++
      givenName "status" shape.status ++ givenName "track" shape.track ++
      givenName "from_track" shape.fromTrack ++ givenName "bootid" shape.bootId ++
      givenName "machineid" shape.machineId ++ givenName "oem" shape.oem)
    (shape.ping.toList.map Ping.Shape.outline ++
      shape.updateCheck.toList.map UpdateCheck.Shape.outline ++
      shape.events.map Event.Shape.outline)

/-- The outline of a request. -/
def Request.Shape.outline (shape : Request.Shape) : Outline :=
  .node "request"
    (["protocol"] ++ givenName "version" shape.version ++ givenName "ismachine" shape.isMachine ++
      givenName "sessionid" shape.sessionId ++ givenName "userid" shape.userId ++
      givenName "installsource" shape.installSource ++ givenName "testsource" shape.testSource ++
      givenName "requestid" shape.requestId ++ givenName "updaterversion" shape.updaterVersion)
    (shape.os.toList.map Os.Shape.outline ++ shape.apps.map App.Shape.outline)

/-- The outline of every server's clock. -/
def DayStart.outline : Outline :=
  .node "daystart" ["elapsed_seconds"] []

/-- The outline of a response, its clock first. -/
def Response.Shape.outline (shape : Response.Shape) : Outline :=
  .node "response" ["protocol", "server"]
    (DayStart.outline :: shape.apps.map App.Shape.outline)

/-! ### Elements -/

section Names

variable (name : String)

@[simp] theorem names_textAttribute (text : String) :
    (textAttribute name text).map Prod.fst = [name] := rfl

@[simp] theorem names_optionalAttribute (text : String) :
    (optionalAttribute name text).map Prod.fst = givenName name (!text.isEmpty) := by
  rw [optionalAttribute, givenName]
  cases text.isEmpty <;> rfl

@[simp] theorem names_codeAttribute {κ : Type} [Vocabulary κ] (code : Option (Code κ)) :
    (codeAttribute name code).map Prod.fst = givenName name code.isSome := by
  cases code <;> rfl

@[simp] theorem names_flagAttribute (value : Bool) :
    (flagAttribute name value).map Prod.fst = [name] := rfl

@[simp] theorem names_markAttribute (value : Bool) :
    (markAttribute name value).map Prod.fst = givenName name value := by
  cases value <;> rfl

end Names

open Element (outline outlineAll_eq)

/-- The outlines of parts are those of their shapes. -/
theorem outlines_map {α σ : Type} {toElement : α → Element} {shape : α → σ} {outline : σ → Outline}
    (h : ∀ item, (toElement item).outline = outline (shape item)) (items : List α) :
    (items.map toElement).map Element.outline = (items.map shape).map outline := by
  rw [List.map_map, List.map_map]
  exact List.map_congr_left fun item _ => h item

theorem outlines_toList {α σ : Type} {toElement : α → Element} {shape : α → σ}
    {outline : σ → Outline} (h : ∀ item, (toElement item).outline = outline (shape item))
    (item : Option α) :
    (item.toList.map toElement).map Element.outline = (item.map shape).toList.map outline := by
  cases item <;> simp [h]

/-- The outlines of parts of one outline. -/
theorem outlines_replicate {α : Type} {toElement : α → Element} {outline : Outline}
    (h : ∀ item, (toElement item).outline = outline) (items : List α) :
    (items.map toElement).map Element.outline = List.replicate items.length outline := by
  induction items with
  | nil => rfl
  | cons item items ih => rw [List.map_cons, List.map_cons, h, ih]; rfl

theorem Os.outline_toElement (os : Os) : os.toElement.outline = os.shape.outline := by
  simp [toElement, outline, outlineAll_eq, Shape.outline, shape, ElementType.tag]

theorem Ping.outline_toElement (ping : Ping) : ping.toElement.outline = ping.shape.outline := by
  simp [toElement, outline, outlineAll_eq, Shape.outline, shape, ElementType.tag]

theorem Package.outline_toElement (package : Package) :
    package.toElement.outline = Package.outline := rfl

theorem Url.outline_toElement (url : Url) : url.toElement.outline = Url.outline := rfl

theorem DayStart.outline_toElement (daystart : DayStart) :
    daystart.toElement.outline = DayStart.outline := rfl

theorem Event.outline_toElement (event : Event) :
    event.toElement.outline = event.shape.outline := by
  simp [toElement, outline, outlineAll_eq, Shape.outline, shape, ElementType.tag]

theorem Action.outline_toElement (action : Action) :
    action.toElement.outline = action.shape.outline := by
  simp [toElement, outline, outlineAll_eq, Shape.outline, shape, ElementType.tag]

theorem Manifest.outline_toElement (manifest : Manifest) :
    manifest.toElement.outline = manifest.shape.outline := by
  have hpackages := outlines_replicate Package.outline_toElement manifest.packages
  have hactions := outlines_map Action.outline_toElement manifest.actions
  simp only [toElement, outline, outlineAll_eq, Shape.outline, shape, ElementType.tag,
    List.map_cons, List.map_nil, hpackages, hactions, names_textAttribute]

theorem Urls.outline_toElement (urls : Urls) :
    urls.toElement.outline = .node "urls" [] (List.replicate urls.urls.length Url.outline) := by
  have hurls := outlines_replicate Url.outline_toElement urls.urls
  simp only [toElement, outline, outlineAll_eq, ElementType.tag, List.map_nil, hurls]

theorem Urls.outlines_toElement (urls : Option Urls) :
    ((urls.toList.filter fun urls => !urls.urls.isEmpty).map Urls.toElement).map outline =
      Urls.outlines (urls.getD {}).urls.length := by
  cases urls with
  | none => rfl
  | some urls =>
    obtain ⟨_ | ⟨url, urls⟩⟩ := urls
    · rfl
    · simp [Urls.outline_toElement, Urls.outlines]

theorem UpdateCheck.outline_toElement (check : UpdateCheck) :
    check.toElement.outline = check.shape.outline := by
  have hurls := Urls.outlines_toElement check.urls
  have hmanifest := outlines_toList Manifest.outline_toElement check.manifest
  simp only [toElement, outline, outlineAll_eq, Shape.outline, shape, ElementType.tag,
    List.map_append, hurls, hmanifest, names_optionalAttribute, names_codeAttribute]

theorem App.outline_toElement (app : App) : app.toElement.outline = app.shape.outline := by
  have hping := outlines_toList Ping.outline_toElement app.ping
  have hcheck := outlines_toList UpdateCheck.outline_toElement app.updateCheck
  have hevents := outlines_map Event.outline_toElement app.events
  simp only [toElement, outline, outlineAll_eq, Shape.outline, shape, ElementType.tag,
    List.map_append, hping, hcheck, hevents, names_optionalAttribute, names_codeAttribute]

theorem Request.outline_toElement (request : Request) :
    request.toElement.outline = request.shape.outline := by
  have hos := outlines_toList Os.outline_toElement request.os
  have happs := outlines_map App.outline_toElement request.apps
  simp only [toElement, outline, outlineAll_eq, Shape.outline, shape, ElementType.tag,
    List.map_append, hos, happs, names_textAttribute, names_optionalAttribute]

theorem Response.outline_toElement (response : Response) :
    response.toElement.outline = response.shape.outline := by
  have happs := outlines_map App.outline_toElement response.apps
  simp only [toElement, outline, outlineAll_eq, Shape.outline, shape, ElementType.tag,
    List.map_append, List.map_cons, happs, DayStart.outline_toElement, names_textAttribute]
  rfl

end UpdateProtocol

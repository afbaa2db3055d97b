import UpdateProtocol.Host

/-!
# Building messages

Every `add` function appends one element or replaces an optional one.  Its last argument edits the
new element before it is stored.
-/

namespace UpdateProtocol

/-- The version of this library, which a plain request reports. -/
def libraryVersion : String := "0.1.0"

/-- A request from the current host reporting `version` as the client version. -/
def Request.withVersion (version : String) : Request :=
  { protocol := protocolVersion, version, os := some Os.current }

/-- A request from the current host reporting the version of this library. -/
def Request.new : Request := Request.withVersion libraryVersion

/-- Append an application.  Ids need not be distinct. -/
def Request.addApp (request : Request) (id version : String) (edit : App → App := fun app => app) :
    Request :=
  { request with apps := request.apps ++ [edit { id, version }] }

/-- Edit the application at a position. -/
def Request.modifyApp (request : Request) (index : Nat) (edit : App → App) : Request :=
  { request with apps := request.apps.modify index edit }

/-- Append an application with its status. -/
def Response.addApp (response : Response) (id : String) (status : Code AppStatus)
    (edit : App → App := fun app => app) : Response :=
  { response with apps := response.apps ++ [edit { id, status := some status }] }

/-- Edit the application at a position. -/
def Response.modifyApp (response : Response) (index : Nat) (edit : App → App) : Response :=
  { response with apps := response.apps.modify index edit }

/-- The first application with an id. -/
def Response.app? (response : Response) (id : String) : Option App :=
  response.apps.find? (fun app => app.id == id)

/-- Attach a ping in place of any earlier one. -/
def App.addPing (app : App) (edit : Ping → Ping := fun ping => ping) : App :=
  { app with ping := some (edit {}) }

/-- Append an event. -/
def App.addEvent (app : App) (edit : Event → Event := fun event => event) : App :=
  { app with events := app.events ++ [edit {}] }

/-- Attach an empty update check in place of any earlier one. -/
def App.addUpdateCheck (app : App) (edit : UpdateCheck → UpdateCheck := fun check => check) : App :=
  { app with updateCheck := some (edit {}) }

/-- Append a download location. -/
def UpdateCheck.addUrl (check : UpdateCheck) (codebase : String)
    (edit : Url → Url := fun url => url) : UpdateCheck :=
  { check with urls := some ⟨(check.urls.getD {}).urls ++ [edit { codebase }]⟩ }

/-- Attach a manifest for `version` in place of any earlier one. -/
def UpdateCheck.addManifest (check : UpdateCheck) (version : String)
    (edit : Manifest → Manifest := fun manifest => manifest) : UpdateCheck :=
  { check with manifest := some (edit { version }) }

/-- The codebases in the order they are listed. -/
def UpdateCheck.codebases (check : UpdateCheck) : List String :=
  match check.urls with
  | some group => group.urls.map Url.codebase
  | none => []

/-- Append a package. -/
def Manifest.addPackage (manifest : Manifest)
    (edit : Package → Package := fun package => package) : Manifest :=
  { manifest with packages := manifest.packages ++ [edit {}] }

/-- Append an action for a step. -/
def Manifest.addAction (manifest : Manifest) (event : String)
    (edit : Action → Action := fun action => action) : Manifest :=
  { manifest with actions := manifest.actions ++ [edit { event }] }

end UpdateProtocol

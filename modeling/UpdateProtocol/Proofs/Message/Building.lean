import UpdateProtocol.Message.Build
import UpdateProtocol.Proofs.Message.Canonical

/-!
# Runs of the builders

A run of the builders is a log of calls, each of which adds an element or assigns attributes of one
that is there.  What a log builds can be read off it without running it: ping, update check and
manifest are the last that were added, with what has been added to them since, and everything else
is a list in the order of the calls (`App.built`).

The induction is on the end of the log: `built_concat` says for each owner what one more call does
to what has been built.
-/

namespace UpdateProtocol

/-! ### Assignments -/

/-- A code is kept, taken away or read from a token. -/
def Code.Assigned {κ : Type} [Vocabulary κ] (old new : Option (Code κ)) : Prop :=
  ∀ code ∈ new, old = some code ∨ ∃ token, code = ofToken token

/-- Assignments to the attributes of an event. -/
structure Event.Edit where
  apply : Event → Event
  eventType : ∀ event, Code.Assigned (some event.eventType) (some (apply event).eventType)
  result : ∀ event, Code.Assigned (some event.result) (some (apply event).result)

/-- Assignments to the attributes of a manifest, which neither touch nor look at its parts. -/
structure Manifest.Edit where
  apply : Manifest → Manifest
  frame : ∀ manifest packages actions,
    apply { manifest with packages, actions } = { apply manifest with packages, actions }

/-- Assignments to the attributes of an update check, which neither touch nor look at its parts. -/
structure UpdateCheck.Edit where
  apply : UpdateCheck → UpdateCheck
  frame : ∀ check urls manifest,
    apply { check with urls, manifest } = { apply check with urls, manifest }
  status : ∀ check, Code.Assigned check.status (apply check).status

/-- Assignments to the attributes of an application, which neither touch nor look at its parts. -/
structure App.Edit where
  apply : App → App
  frame : ∀ app ping updateCheck events,
    apply { app with ping, updateCheck, events } = { apply app with ping, updateCheck, events }
  status : ∀ app, Code.Assigned app.status (apply app).status

/-! ### Calls -/

/-- A call on a manifest. -/
inductive Manifest.Call where
  | assign (edit : Manifest.Edit)
  | addPackage (edit : Package → Package)
  | addAction (event : String) (edit : Action → Action)

/-- A call on an update check or on its manifest. -/
inductive UpdateCheck.Call where
  | assign (edit : UpdateCheck.Edit)
  | addUrl (codebase : String) (edit : Url → Url)
  | addManifest (version : String) (edit : Manifest.Edit)
  | onManifest (call : Manifest.Call)

/-- A call on an application or on its update check. -/
inductive App.Call where
  | assign (edit : App.Edit)
  | addPing (edit : Ping → Ping)
  | addEvent (edit : Event.Edit)
  | addUpdateCheck (edit : UpdateCheck.Edit)
  | onUpdateCheck (call : UpdateCheck.Call)

/-- The manifest after a call. -/
def Manifest.call (manifest : Manifest) : Manifest.Call → Manifest
  | .assign edit => edit.apply manifest
  | .addPackage edit => manifest.addPackage edit
  | .addAction event edit => manifest.addAction event edit

/-- The update check after a call. -/
def UpdateCheck.call (check : UpdateCheck) : UpdateCheck.Call → UpdateCheck
  | .assign edit => edit.apply check
  | .addUrl codebase edit => check.addUrl codebase edit
  | .addManifest version edit => check.addManifest version edit.apply
  | .onManifest call =>
      { check with manifest := check.manifest.map (fun manifest => manifest.call call) }

/-- The application after a call. -/
def App.call (app : App) : App.Call → App
  | .assign edit => edit.apply app
  | .addPing edit => app.addPing edit
  | .addEvent edit => app.addEvent edit.apply
  | .addUpdateCheck edit => app.addUpdateCheck edit.apply
  | .onUpdateCheck call =>
      { app with updateCheck := app.updateCheck.map (fun check => check.call call) }

/-! ### What a log says -/

theorem filterMap_concat {γ α : Type} (f : γ → Option α) (calls : List γ) (last : γ) :
    (calls ++ [last]).filterMap f = calls.filterMap f ++ (f last).toList := by
  rw [List.filterMap_append]
  cases h : f last <;> simp [h]

/-- The last call that makes a new element, with what has been done on it since. -/
def sinceLast {γ α β : Type} (new? : γ → Option α) (on? : γ → Option β) (calls : List γ) :
    Option (α × List β) :=
  (calls.reverse.findSome? new?).map fun new =>
    (new, (calls.reverse.takeWhile fun call => (new? call).isNone).reverse.filterMap on?)

section SinceLast

variable {γ α β : Type} {new? : γ → Option α} {on? : γ → Option β} {last : γ}

theorem sinceLast_concat_new {new : α} (h : new? last = some new) (calls : List γ) :
    sinceLast new? on? (calls ++ [last]) = some (new, []) := by
  simp [sinceLast, h]

theorem sinceLast_concat_on (h : new? last = none) (calls : List γ) :
    sinceLast new? on? (calls ++ [last]) =
      (sinceLast new? on? calls).map fun found => (found.1, found.2 ++ (on? last).toList) := by
  simp only [sinceLast, List.reverse_concat, List.findSome?_cons, h, List.takeWhile_cons,
    Option.isNone_none, if_true, List.reverse_cons, filterMap_concat, Option.map_map]
  rfl

end SinceLast

/-! ### Manifests -/

namespace Manifest

namespace Call

/-- The assignments that a call makes. -/
def edit? : Manifest.Call → Option Manifest.Edit
  | assign edit => some edit
  | _ => none

/-- The package that a call adds. -/
def package? : Manifest.Call → Option Package
  | addPackage edit => some (edit {})
  | _ => none

/-- The action that a call adds. -/
def action? : Manifest.Call → Option Action
  | addAction event edit => some (edit { event })
  | _ => none

end Call

/-- A new manifest with what some calls make of it. -/
def built (new : Manifest) (calls : List Manifest.Call) : Manifest :=
  { (calls.filterMap Call.edit?).foldl (fun manifest edit => edit.apply manifest) new with
    packages := calls.filterMap Call.package?
    actions := calls.filterMap Call.action? }

theorem built_concat (new : Manifest) (calls : List Manifest.Call) (last : Manifest.Call) :
    built new (calls ++ [last]) = (built new calls).call last := by
  simp only [built, filterMap_concat, List.foldl_append]
  cases last with
  | assign edit =>
    rw [call, edit.frame]
    simp [Call.edit?, Call.package?, Call.action?]
  | addPackage edit => simp [call, Call.edit?, Call.package?, Call.action?, addPackage]
  | addAction event edit => simp [call, Call.edit?, Call.package?, Call.action?, addAction]

theorem built_nil (edit : Manifest.Edit) (version : String) :
    built (edit.apply { version }) [] = edit.apply { version } :=
  (edit.frame { version } [] []).symm

end Manifest

/-! ### Update checks -/

/-- The group of some download locations, if there are any. -/
def Urls.group : List Url → Option Urls
  | [] => none
  | url :: urls => some ⟨url :: urls⟩

theorem Urls.getD_group (urls : List Url) : ((group urls).getD {}).urls = urls := by
  cases urls <;> rfl

theorem Urls.group_concat (urls : List Url) (url : Url) :
    group (urls ++ [url]) = some ⟨urls ++ [url]⟩ := by
  cases urls <;> rfl

namespace UpdateCheck

namespace Call

/-- The assignments that a call makes. -/
def edit? : UpdateCheck.Call → Option UpdateCheck.Edit
  | assign edit => some edit
  | _ => none

/-- The download location that a call adds. -/
def url? : UpdateCheck.Call → Option Url
  | addUrl codebase edit => some (edit { codebase })
  | _ => none

/-- The manifest that a call attaches. -/
def manifest? : UpdateCheck.Call → Option Manifest
  | addManifest version edit => some (edit.apply { version })
  | _ => none

/-- What a call does on the manifest. -/
def onManifest? : UpdateCheck.Call → Option Manifest.Call
  | onManifest call => some call
  | _ => none

end Call

/-- A new update check with what some calls make of it. -/
def built (new : UpdateCheck) (calls : List UpdateCheck.Call) : UpdateCheck :=
  { (calls.filterMap Call.edit?).foldl (fun check edit => edit.apply check) new with
    urls := Urls.group (calls.filterMap Call.url?)
    manifest := (sinceLast Call.manifest? Call.onManifest? calls).map fun found =>
      Manifest.built found.1 found.2 }

theorem built_concat (new : UpdateCheck) (calls : List UpdateCheck.Call) (last : UpdateCheck.Call) :
    built new (calls ++ [last]) = (built new calls).call last := by
  simp only [built, filterMap_concat, List.foldl_append]
  cases last with
  | assign edit =>
    rw [call, edit.frame, sinceLast_concat_on rfl]
    simp [Call.edit?, Call.url?, Call.onManifest?]
  | addUrl codebase edit =>
    rw [sinceLast_concat_on rfl]
    simp [call, Call.edit?, Call.url?, Call.onManifest?, addUrl, Urls.group_concat,
      Urls.getD_group]
  | addManifest version edit =>
    have hlast : Call.manifest? (.addManifest version edit) = some (edit.apply { version }) := rfl
    rw [sinceLast_concat_new hlast]
    simp [call, Call.edit?, Call.url?, addManifest, Manifest.built_nil]
  | onManifest next =>
    rw [sinceLast_concat_on rfl]
    simp [call, Call.edit?, Call.url?, Call.onManifest?, Function.comp_def, Manifest.built_concat]

theorem built_nil (edit : UpdateCheck.Edit) : built (edit.apply {}) [] = edit.apply {} :=
  (edit.frame {} none none).symm

end UpdateCheck

/-! ### Applications -/

namespace App

namespace Call

/-- The assignments that a call makes. -/
def edit? : App.Call → Option App.Edit
  | assign edit => some edit
  | _ => none

/-- The ping that a call attaches. -/
def ping? : App.Call → Option Ping
  | addPing edit => some (edit {})
  | _ => none

/-- The event that a call adds. -/
def event? : App.Call → Option Event
  | addEvent edit => some (edit.apply {})
  | _ => none

/-- The update check that a call attaches. -/
def updateCheck? : App.Call → Option UpdateCheck
  | addUpdateCheck edit => some (edit.apply {})
  | _ => none

/-- What a call does on the update check. -/
def onUpdateCheck? : App.Call → Option UpdateCheck.Call
  | onUpdateCheck call => some call
  | _ => none

end Call

/-- A new application with what some calls make of it. -/
def built (new : App) (calls : List App.Call) : App :=
  { (calls.filterMap Call.edit?).foldl (fun app edit => edit.apply app) new with
    ping := calls.reverse.findSome? Call.ping?
    updateCheck := (sinceLast Call.updateCheck? Call.onUpdateCheck? calls).map fun found =>
      UpdateCheck.built found.1 found.2
    events := calls.filterMap Call.event? }

theorem built_concat (new : App) (calls : List App.Call) (last : App.Call) :
    built new (calls ++ [last]) = (built new calls).call last := by
  simp only [built, filterMap_concat, List.foldl_append, List.reverse_concat, List.findSome?_cons]
  cases last with
  | assign edit =>
    rw [call, edit.frame, sinceLast_concat_on rfl]
    simp [Call.edit?, Call.ping?, Call.event?, Call.onUpdateCheck?]
  | addPing edit =>
    rw [sinceLast_concat_on rfl]
    simp [call, Call.edit?, Call.ping?, Call.event?, Call.onUpdateCheck?, addPing]
  | addEvent edit =>
    rw [sinceLast_concat_on rfl]
    simp [call, Call.edit?, Call.ping?, Call.event?, Call.onUpdateCheck?, addEvent]
  | addUpdateCheck edit =>
    have hlast : Call.updateCheck? (.addUpdateCheck edit) = some (edit.apply {}) := rfl
    rw [sinceLast_concat_new hlast]
    simp [call, Call.edit?, Call.ping?, Call.event?, addUpdateCheck, UpdateCheck.built_nil]
  | onUpdateCheck next =>
    rw [sinceLast_concat_on rfl]
    simp [call, Call.edit?, Call.ping?, Call.event?, Call.onUpdateCheck?, Function.comp_def,
      UpdateCheck.built_concat]

theorem Edit.parts_apply (edit : App.Edit) (app : App) :
    (edit.apply app).ping = app.ping ∧ (edit.apply app).updateCheck = app.updateCheck ∧
      (edit.apply app).events = app.events := by
  -- the frame for the parts that the application has
  have hframe : edit.apply app = { edit.apply app with
      ping := app.ping, updateCheck := app.updateCheck, events := app.events } :=
    edit.frame app app.ping app.updateCheck app.events
  rw [hframe]
  exact ⟨rfl, rfl, rfl⟩

/-- Nothing has been added to an application without parts. -/
theorem built_nil {new : App} (hping : new.ping = none) (hcheck : new.updateCheck = none)
    (hevents : new.events = []) : built new [] = new := by
  change { new with ping := none, updateCheck := none, events := [] } = new
  rw [← hping, ← hcheck, ← hevents]

end App

/-! ### Canonical form -/

namespace Code

variable {κ : Type} [Vocabulary κ] [Vocabulary.Lawful κ]

theorem canon_ofToken (token : String) : (ofToken token : Code κ).canon = ofToken token := by
  rw [← ofToken_token, token_ofToken]

theorem Assigned.canon {old new : Option (Code κ)} (h : Assigned old new)
    (hold : old.map Code.canon = old) : new.map Code.canon = new := by
  cases new with
  | none => rfl
  | some code =>
    rcases h code rfl with rfl | ⟨token, rfl⟩
    · exact hold
    · rw [Option.map_some, canon_ofToken]

end Code

theorem Event.Edit.canon_apply (edit : Event.Edit) : (edit.apply {}).canon = edit.apply {} := by
  have htype := Option.some.inj ((edit.eventType {}).canon rfl)
  have hresult := Option.some.inj ((edit.result {}).canon rfl)
  rw [Event.canon, htype, hresult]

namespace UpdateCheck

theorem Edit.urls_apply (edit : UpdateCheck.Edit) (check : UpdateCheck) :
    (edit.apply check).urls = check.urls :=
  calc
    (edit.apply check).urls = (edit.apply { check with urls := check.urls }).urls := rfl
    _ = check.urls := by rw [edit.frame check check.urls check.manifest]

theorem canon_eq_self {check : UpdateCheck} : check.canon = check ↔
    check.status.map Code.canon = check.status ∧
      check.urls.filter (fun urls => !urls.urls.isEmpty) = check.urls := by
  cases check
  simp [canon]

/-- Calls keep an update check in canonical form. -/
theorem canon_call {check : UpdateCheck} (h : check.canon = check) (call : UpdateCheck.Call) :
    (check.call call).canon = check.call call := by
  obtain ⟨hstatus, hurls⟩ := canon_eq_self.1 h
  rw [canon_eq_self]
  cases call with
  | assign edit =>
    refine ⟨(edit.status check).canon hstatus, ?_⟩
    rw [UpdateCheck.call, edit.urls_apply, hurls]
  | addUrl codebase edit => exact ⟨hstatus, by simp [UpdateCheck.call, addUrl]⟩
  | addManifest version edit => exact ⟨hstatus, hurls⟩
  | onManifest next => exact ⟨hstatus, hurls⟩

end UpdateCheck

namespace App

theorem canon_eq_self {app : App} : app.canon = app ↔
    app.status.map Code.canon = app.status ∧
      app.updateCheck.map UpdateCheck.canon = app.updateCheck ∧
        app.events.map Event.canon = app.events := by
  cases app
  simp [canon]

/-- Calls keep an application in canonical form. -/
theorem canon_call {app : App} (h : app.canon = app) (call : App.Call) :
    (app.call call).canon = app.call call := by
  obtain ⟨hstatus, hcheck, hevents⟩ := canon_eq_self.1 h
  rw [canon_eq_self]
  cases call with
  | assign edit =>
    obtain ⟨-, hcheck', hevents'⟩ := edit.parts_apply app
    refine ⟨(edit.status app).canon hstatus, ?_, ?_⟩
    · rw [App.call, hcheck', hcheck]
    · rw [App.call, hevents', hevents]
  | addPing edit => exact ⟨hstatus, hcheck, hevents⟩
  | addEvent edit =>
    refine ⟨hstatus, hcheck, ?_⟩
    simp [App.call, addEvent, hevents, edit.canon_apply]
  | addUpdateCheck edit =>
    have hnew : (edit.apply {}).canon = edit.apply {} :=
      UpdateCheck.canon_call rfl (.assign edit)
    exact ⟨hstatus, congrArg some hnew, hevents⟩
  | onUpdateCheck next =>
    refine ⟨hstatus, ?_, hevents⟩
    cases hpresent : app.updateCheck with
    | none => simp [App.call, hpresent]
    | some check =>
      rw [hpresent, Option.map_some, Option.some_inj] at hcheck
      simp [App.call, hpresent, UpdateCheck.canon_call hcheck]

end App

end UpdateProtocol

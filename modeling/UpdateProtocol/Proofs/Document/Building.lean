import Mathlib.Data.List.Induction
import UpdateProtocol.Proofs.Document.RoundTrip
import UpdateProtocol.Proofs.Message.Building

/-!
# Built messages on the wire

A message that is built by calls has one application for each that was added, in that order, with
what has been done on it, and is otherwise as it was at the start (`Apps.built`).  It is in
canonical form, so its text decodes to the message itself (`decode_run`).
-/

namespace UpdateProtocol

/-! ### Calls on messages -/

/-- A call on a message or on one of its applications.  A new application is made from a `ν`. -/
inductive Apps.Call (ν : Type) where
  | addApp (new : ν)
  | onApp (index : Nat) (call : App.Call)

/-- Values from which new applications are made, in canonical form and without parts. -/
class Apps.New (ν : Type) where
  app : ν → App
  canon_app : ∀ new, (app new).canon = app new
  built_app : ∀ new, App.built (app new) [] = app new

/-- What a new application of a request is made from. -/
structure Request.NewApp where
  id : String
  version : String
  edit : App.Edit

/-- What a new application of a response is made from, the status as a token. -/
structure Response.NewApp where
  id : String
  status : String
  edit : App.Edit

theorem App.built_apply_nil (edit : App.Edit) {plain : App} (hping : plain.ping = none)
    (hcheck : plain.updateCheck = none) (hevents : plain.events = []) :
    built (edit.apply plain) [] = edit.apply plain := by
  obtain ⟨hping', hcheck', hevents'⟩ := edit.parts_apply plain
  exact built_nil (hping'.trans hping) (hcheck'.trans hcheck) (hevents'.trans hevents)

instance : Apps.New Request.NewApp where
  app new := new.edit.apply { id := new.id, version := new.version }
  canon_app new := App.canon_call rfl (.assign new.edit)
  built_app new := App.built_apply_nil new.edit rfl rfl rfl

instance : Apps.New Response.NewApp where
  app new := new.edit.apply { id := new.id, status := some (.ofToken new.status) }
  canon_app new := App.canon_call (by simp [App.canon, Code.canon_ofToken]) (.assign new.edit)
  built_app new := App.built_apply_nil new.edit rfl rfl rfl

/-- The request after a call. -/
def Request.call (request : Request) : Apps.Call Request.NewApp → Request
  | .addApp new => request.addApp new.id new.version new.edit.apply
  | .onApp index call => request.modifyApp index (fun app => app.call call)

/-- The response after a call. -/
def Response.call (response : Response) : Apps.Call Response.NewApp → Response
  | .addApp new => response.addApp new.id (.ofToken new.status) new.edit.apply
  | .onApp index call => response.modifyApp index (fun app => app.call call)

/-- The request after some calls. -/
def Request.run (start : Request) (log : List (Apps.Call Request.NewApp)) : Request :=
  log.foldl Request.call start

/-- The response after some calls. -/
def Response.run (start : Response) (log : List (Apps.Call Response.NewApp)) : Response :=
  log.foldl Response.call start

/-! ### Applications -/

namespace Apps

variable {ν : Type}

/-- What a new application is made from. -/
def Call.new? : Apps.Call ν → Option ν
  | addApp new => some new
  | onApp _ _ => none

/-- What a call does on the application at a position. -/
def Call.onApp? (index : Nat) : Apps.Call ν → Option App.Call
  | addApp _ => none
  | onApp place call => if place = index then some call else none

/-- Each application on which there are calls is there by then, where `present` are at the start. -/
def InRange : Nat → List (Apps.Call ν) → Prop
  | _, [] => True
  | present, .addApp _ :: calls => InRange (present + 1) calls
  | present, .onApp index _ :: calls => index < present ∧ InRange present calls

theorem inRange_append {present : Nat} {calls more : List (Apps.Call ν)} :
    InRange present (calls ++ more) ↔
      InRange present calls ∧ InRange (present + (calls.filterMap Call.new?).length) more := by
  induction calls generalizing present with
  | nil => simp [InRange]
  | cons call calls ih =>
    cases call with
    | addApp new => simp [InRange, ih, Call.new?, Nat.add_assoc, Nat.add_comm 1]
    | onApp index call => simp [InRange, ih, Call.new?, List.filterMap_cons, and_assoc]

/-- There are no calls on an application that is not there. -/
theorem filterMap_onApp?_of_le {present index : Nat} {calls : List (Apps.Call ν)}
    (h : InRange present calls) (hindex : present + (calls.filterMap Call.new?).length ≤ index) :
    calls.filterMap (Call.onApp? index) = [] := by
  induction calls generalizing present with
  | nil => rfl
  | cons call calls ih =>
    cases call with
    | addApp new =>
      simp only [Call.new?, List.filterMap_cons, List.length_cons] at hindex
      simp only [List.filterMap_cons, Call.onApp?]
      exact ih h (by omega)
    | onApp place call =>
      obtain ⟨hplace, h⟩ := h
      simp only [Call.new?, List.filterMap_cons] at hindex
      have hne : place ≠ index := by omega
      simp only [List.filterMap_cons, Call.onApp?, if_neg hne]
      exact ih h hindex

variable [New ν]

/-- The applications after a call. -/
def call (apps : List App) : Apps.Call ν → List App
  | .addApp new => apps ++ [New.app new]
  | .onApp index call => apps.modify index (fun app => app.call call)

/-- The applications that some calls build. -/
def built (calls : List (Apps.Call ν)) : List App :=
  (calls.filterMap Call.new?).mapIdx fun index new =>
    App.built (New.app new) (calls.filterMap (Call.onApp? index))

theorem built_concat {calls : List (Apps.Call ν)} {last : Apps.Call ν}
    (h : InRange 0 (calls ++ [last])) : built (calls ++ [last]) = call (built calls) last := by
  obtain ⟨hcalls, -⟩ := inRange_append.1 h
  simp only [built, filterMap_concat]
  cases last with
  | addApp new =>
    -- nothing has been done on the new application, though there may be calls on its position later
    have hnone := filterMap_onApp?_of_le hcalls (Nat.le_refl _)
    rw [Nat.zero_add] at hnone
    simp only [call, Call.new?, Call.onApp?, Option.toList_some, Option.toList_none,
      List.append_nil, List.mapIdx_concat, hnone, New.built_app]
  | onApp place next =>
    simp only [call, Call.new?, Call.onApp?, Option.toList_none, List.append_nil]
    ext1 index
    rw [List.getElem?_modify, List.getElem?_mapIdx, List.getElem?_mapIdx]
    rcases eq_or_ne place index with rfl | hne
    · simp [App.built_concat, Function.comp_def]
    · simp [hne]

/-- A run makes of no applications what its log says. -/
theorem foldl_call {log : List (Apps.Call ν)} (h : InRange 0 log) :
    log.foldl call [] = built log := by
  induction log using List.reverseRecOn with
  | nil => rfl
  | append_singleton calls last ih =>
    rw [List.foldl_append, ih (inRange_append.1 h).1, built_concat h]
    rfl

/-- Calls keep applications in canonical form. -/
theorem canon_call {apps : List App} (h : apps.map App.canon = apps) (next : Apps.Call ν) :
    (call apps next).map App.canon = call apps next := by
  cases next with
  | addApp new => simp [call, h, New.canon_app]
  | onApp place next =>
    ext1 index
    have hindex := congrArg (fun apps => apps[index]?) h
    simp only [call, List.getElem?_map, List.getElem?_modify] at hindex ⊢
    cases hpresent : apps[index]? with
    | none => rfl
    | some app =>
      rw [hpresent, Option.map_some, Option.some_inj] at hindex
      by_cases hplace : place = index <;> simp [hplace, hindex, App.canon_call]

theorem canon_foldl (log : List (Apps.Call ν)) {apps : List App} (h : apps.map App.canon = apps) :
    (log.foldl call apps).map App.canon = log.foldl call apps := by
  induction log generalizing apps with
  | nil => exact h
  | cons next log ih => exact ih (canon_call h next)

end Apps

/-! ### Messages -/

theorem Request.run_eq (start : Request) (log : List (Apps.Call Request.NewApp)) :
    start.run log = { start with apps := log.foldl Apps.call start.apps } := by
  induction log generalizing start with
  | nil => rfl
  | cons call log ih =>
    rw [run, List.foldl_cons]
    refine (ih (start.call call)).trans ?_
    cases call <;> rfl

theorem Response.run_eq (start : Response) (log : List (Apps.Call Response.NewApp)) :
    start.run log = { start with apps := log.foldl Apps.call start.apps } := by
  induction log generalizing start with
  | nil => rfl
  | cons call log ih =>
    rw [run, List.foldl_cons]
    refine (ih (start.call call)).trans ?_
    cases call <;> rfl

/-- The application found under an id is the first with this id. -/
theorem Response.app?_eq_some_iff {response : Response} {id : String} {app : App} :
    response.app? id = some app ↔ app.id = id ∧ ∃ before after,
      response.apps = before ++ app :: after ∧ ∀ other ∈ before, other.id ≠ id := by
  simp [app?, List.find?_eq_some_iff_append]

/-- The codebases of an update check are the download locations that were added to it, in order. -/
theorem UpdateCheck.codebases_built (new : UpdateCheck) (calls : List UpdateCheck.Call) :
    (built new calls).codebases = (calls.filterMap Call.url?).map Url.codebase := by
  rw [codebases, built]
  cases calls.filterMap Call.url? <;> rfl

/-- A message in canonical form, which its text and its complete document decode to unless they are
too large. -/
def Message.Faithful {μ : Type} [Message μ] (message : μ) : Prop :=
  canon message = message ∧
    ∀ text ∈ [encode message, documentHeader ++ encode message],
      decode μ text.toUTF8 =
        if maxDocumentSize < text.toUTF8.size then .error .tooLarge else .ok message

theorem Message.faithful_of_canon {μ : Type} [Message μ] {message : μ}
    (h : canon message = message) : Faithful message := by
  refine ⟨h, fun text htext => ?_⟩
  rw [decode_written message (List.mem_pair.1 htext), h]

/-- A run of calls builds what its log says, and what it builds decodes from its own text.  Among
applications of one id the earliest is found, and the codebases of an update check are those of the
download locations that were added to it. -/
theorem decode_run :
    (∀ start : Request, (start = Request.new ∨ ∃ version, start = Request.withVersion version) →
      ∀ log : List (Apps.Call Request.NewApp), Apps.InRange 0 log →
        start.run log = { start with apps := Apps.built log } ∧ Message.Faithful (start.run log)) ∧
    (∀ log : List (Apps.Call Response.NewApp), Apps.InRange 0 log →
        Response.run {} log = { apps := Apps.built log } ∧
          Message.Faithful (Response.run {} log)) ∧
    (∀ (response : Response) (id : String) (app : App), response.app? id = some app ↔
      app.id = id ∧ ∃ before after,
        response.apps = before ++ app :: after ∧ ∀ other ∈ before, other.id ≠ id) ∧
    ∀ (new : UpdateCheck) (calls : List UpdateCheck.Call),
      (UpdateCheck.built new calls).codebases =
        (calls.filterMap UpdateCheck.Call.url?).map Url.codebase := by
  refine ⟨fun start hstart log h => ?_, fun log h => ?_, fun _ _ _ => Response.app?_eq_some_iff,
    UpdateCheck.codebases_built⟩
  · have happs : start.apps = [] := by rcases hstart with rfl | ⟨version, rfl⟩ <;> rfl
    have hrun := start.run_eq log
    rw [happs] at hrun
    refine ⟨by rw [hrun, Apps.foldl_call h], Message.faithful_of_canon ?_⟩
    rw [hrun]
    exact congrArg (fun apps => { start with apps }) (Apps.canon_foldl log List.map_nil)
  · have hrun := Response.run_eq {} log
    refine ⟨by rw [hrun, Apps.foldl_call h], Message.faithful_of_canon ?_⟩
    rw [hrun]
    exact congrArg (fun apps => ({ apps } : Response)) (Apps.canon_foldl log List.map_nil)

/-- Assign the language of an application. -/
def App.Edit.lang (lang : String) : App.Edit :=
  ⟨fun app => { app with lang }, fun _ _ _ _ => rfl, fun _ _ h => .inl h⟩

/-- An application reports twice. -/
def secondPing : List (Apps.Call Request.NewApp) :=
  [.addApp ⟨"a", "1", .lang "en"⟩, .onApp 0 (.addPing fun ping => { ping with status := "active" }),
    .onApp 0 (.addPing fun ping => { ping with lastReportDays := "2" })]

/-- An update of an application is looked for twice. -/
def secondCheck : List (Apps.Call Response.NewApp) :=
  [.addApp ⟨"a", "ok", .lang "en"⟩, .addApp ⟨"a", "new", .lang "de"⟩,
    .onApp 0 (.addUpdateCheck ⟨fun check => check, fun _ _ _ => rfl, fun _ _ h => .inl h⟩),
    .onApp 0 (.onUpdateCheck (.addUrl "x" fun url => url)),
    .onApp 0 (.addUpdateCheck ⟨fun check => { check with status := some (.ofToken "noupdate") },
      fun _ _ _ => rfl, fun _ _ h => .inr ⟨"noupdate", (Option.some.inj h).symm⟩⟩),
    .onApp 0 (.onUpdateCheck (.addUrl "y" fun url => url))]

/-- What was added the first time is gone. -/
theorem run_second :
    (Request.new.run secondPing).apps =
      [{ id := "a", version := "1", lang := "en", ping := some { lastReportDays := "2" } }] ∧
    (Response.run {} secondCheck).apps =
      [{ id := "a", lang := "en", status := some (.known .ok),
         updateCheck := some { status := some (.known .noUpdate), urls := some ⟨[⟨"y"⟩]⟩ } },
       { id := "a", lang := "de", status := some (.other "new") }] := by
  have hping : Apps.InRange 0 secondPing := by simp [secondPing, Apps.InRange]
  have hcheck : Apps.InRange 0 secondCheck := by simp [secondCheck, Apps.InRange]
  exact ⟨congrArg Request.apps (decode_run.1 Request.new (.inl rfl) secondPing hping).1,
    congrArg Response.apps (decode_run.2.1 secondCheck hcheck).1⟩

end UpdateProtocol

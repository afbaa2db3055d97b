import UpdateProtocol.CommandLine
import UpdateProtocol.Proofs.Document.Continuation
import UpdateProtocol.Proofs.EventArgument
import UpdateProtocol.Proofs.Message.Building

/-!
# What a configuration reports

The request of a configuration has one application for each installed one, with what the
configuration says about all of them and with the event that is named on the command line
(`Configuration.Reports`).  The line that is printed for it decodes to the same request
(`decode_printed`).
-/

namespace UpdateProtocol

/-! ### Event arguments -/

namespace EventArgument

/-- The event that an argument names: the parts before and after its first colon are the tokens. -/
structure NamedBy (event : EventArgument) (argument : String) : Prop where
  parts : argument = event.eventType.token ++ ":" ++ event.result.token
  first : ':' ∉ event.eventType.token.toList
  canon_eventType : event.eventType.canon = event.eventType
  canon_result : event.result.canon = event.result

/-- An argument that is accepted is the two tokens of its event with a colon between them. -/
theorem namedBy_of_parse {argument : String} {event : EventArgument}
    (h : parse argument = .ok event) : event.NamedBy argument := by
  have hjoins := joins_of_parse h
  obtain ⟨first, second, -, rfl⟩ := parse_eq_ok_iff.1 h
  exact ⟨hjoins.text_eq, hjoins.colon, Code.canon_ofToken first, Code.canon_ofToken second⟩

end EventArgument

/-! ### Requests -/

/-- The events of an installed application: none without an argument, and the one that an argument
names, with the version that is installed as the previous one. -/
inductive InstalledApp.Events (installed : InstalledApp) : Option String → List Event → Prop
  | unnamed : Events installed none []
  | named {argument : String} {event : EventArgument} (h : event.NamedBy argument) :
      Events installed (some argument)
        [{ eventType := event.eventType, result := event.result,
           previousVersion := installed.version }]

/-- What a request says about an installed application. -/
structure Configuration.Reports (configuration : Configuration) (argument : Option String)
    (installed : InstalledApp) (app : App) : Prop where
  id : app.id = installed.id
  version : app.version = installed.version
  track : app.track = configuration.track
  machineId : app.machineId = configuration.machineId
  bootId : app.bootId = configuration.bootId
  oem : app.oem = configuration.oem
  ping : configuration.ping = true → app.ping = some { lastReportDays := "1" }
  noPing : configuration.ping = false → app.ping = none
  updateCheck : configuration.updateCheck = true → app.updateCheck = some {}
  noUpdateCheck : configuration.updateCheck = false → app.updateCheck = none
  events : installed.Events argument app.events
  others : app.nextVersion = "" ∧ app.lang = "" ∧ app.client = "" ∧ app.installAge = "" ∧
    app.status = none ∧ app.fromTrack = ""

namespace Configuration

variable {argument : Option String} {event : Option EventArgument}

/-- The line that is printed for a configuration. -/
def printed (configuration : Configuration) (event : Option EventArgument)
    (session request : String) : String :=
  (configuration.request event session request).document ++ "\n"

/-- Each argument that is given was accepted. -/
theorem namedBy_of_mapM (h : argument.mapM EventArgument.parse = .ok event) :
    (argument = none ∧ event = none) ∨ ∃ text named, argument = some text ∧ event = some named ∧
      named.NamedBy text := by
  cases argument with
  | none =>
    cases h
    exact .inl ⟨rfl, rfl⟩
  | some text =>
    obtain ⟨named, hnamed, rfl⟩ := exists_of_map_ok h
    exact .inr ⟨text, named, rfl, rfl, EventArgument.namedBy_of_parse hnamed⟩

theorem reports_app (h : argument.mapM EventArgument.parse = .ok event)
    (configuration : Configuration) (installed : InstalledApp) :
    configuration.Reports argument installed (configuration.app event installed) where
  id := rfl
  version := rfl
  track := rfl
  machineId := rfl
  bootId := rfl
  oem := rfl
  ping hping := if_pos hping
  noPing hping := if_neg (by simp [hping])
  updateCheck hcheck := if_pos hcheck
  noUpdateCheck hcheck := if_neg (by simp [hcheck])
  events := by
    obtain ⟨rfl, rfl⟩ | ⟨text, named, rfl, rfl, hnamed⟩ := namedBy_of_mapM h
    · exact .unnamed
    · exact .named hnamed
  others := ⟨rfl, rfl, rfl, rfl, rfl, rfl⟩

/-- The application that is reported for an installed one is in canonical form. -/
theorem canon_app (h : argument.mapM EventArgument.parse = .ok event)
    (configuration : Configuration) (installed : InstalledApp) :
    (configuration.app event installed).canon = configuration.app event installed := by
  have hcheck : (if configuration.updateCheck then some {} else none : Option UpdateCheck).map
      UpdateCheck.canon = if configuration.updateCheck then some {} else none := by
    cases configuration.updateCheck <;> rfl
  obtain ⟨-, rfl⟩ | ⟨text, named, -, rfl, hnamed⟩ := namedBy_of_mapM h
  · simp [App.canon, app, hcheck]
  · simp [App.canon, app, hcheck, Event.canon, hnamed.canon_eventType, hnamed.canon_result]

theorem canon_request (h : argument.mapM EventArgument.parse = .ok event)
    (configuration : Configuration) (session request : String) :
    (configuration.request event session request).canon =
      configuration.request event session request := by
  simp [Request.canon, Configuration.request, Function.comp_def, canon_app h]

/-- What is printed is a document and a line end, which does not matter. -/
theorem decode_printed_of_canon {configuration : Configuration} {session request : String}
    (h : (configuration.request event session request).canon =
      configuration.request event session request)
    (hsize : (configuration.printed event session request).toUTF8.size ≤ maxDocumentSize) :
    Request.decode (configuration.printed event session request).toUTF8 =
      .ok (configuration.request event session request) := by
  have hbytes : (configuration.printed event session request).toUTF8 =
      (configuration.request event session request).document.toUTF8 ++ "\n".toUTF8 :=
    String.toByteArray_append
  rw [hbytes] at hsize ⊢
  refine Message.decode_append (.inl (continuesCalmly_of_not_mem (by decide) _)) hsize ?_
  have hdocument : (configuration.request event session request).document.toUTF8.size ≤
      maxDocumentSize := by
    rw [ByteArray.size_append] at hsize
    omega
  have hdecode := Message.decode_header_encode (configuration.request event session request)
    (.inr rfl) hdocument
  rwa [show Message.canon _ = _ from h] at hdecode

/-- The line that is printed for a configuration decodes to its request, unless it is too large.
This request describes the current host and reports every installed application, in order, with
what the configuration says and with the event that was named. -/
theorem decode_printed (h : argument.mapM EventArgument.parse = .ok event)
    (configuration : Configuration) (session request : String) :
    ((configuration.printed event session request).toUTF8.size ≤ maxDocumentSize →
      Request.decode (configuration.printed event session request).toUTF8 =
        .ok (configuration.request event session request)) ∧
    { configuration.request event session request with apps := [] } =
      { protocol := protocolVersion, version := programName ++ "-" ++ programVersion,
        sessionId := braced session, requestId := braced request, os := some Os.current } ∧
    List.Forall₂ (configuration.Reports argument) configuration.apps
      (configuration.request event session request).apps ∧
    ∀ (setting : CommandLine.Setting) (arguments : List String) (path : Option String),
      CommandLine.parse arguments = some (.request path event) →
      load setting.files setting.environment path = .ok configuration →
      setting.session = session → setting.request = request →
      CommandLine.run setting arguments =
        { exitCode := 0, output := configuration.printed event session request } := by
  refine ⟨decode_printed_of_canon (canon_request h configuration session request), rfl, ?_,
    fun setting arguments path hparse hload hsession hrequest => ?_⟩
  · exact List.forall₂_map_right_iff.2
      (List.forall₂_same.2 fun installed _ => reports_app h configuration installed)
  · subst hsession hrequest
    rw [CommandLine.run, hparse]
    simp only [CommandLine.execute, hload]
    rfl

/-- A configuration with one application, whose texts have to be escaped. -/
def quotingConfiguration : Configuration where
  track := "\"<&>\""
  ping := false
  apps := [{ id := "\n", version := "1" }]

/-- What it reports when an event is named whose result has a colon. -/
def quotingRequest : Request where
  protocol := "3.0"
  version := "omaha-cli-0.1.0"
  sessionId := "\x7bs\x7d"
  requestId := "\x7br\x7d"
  os := some { platform := "linux", arch := "x64" }
  apps :=
    [{ id := "\n"
       version := "1"
       track := "\"<&>\""
       updateCheck := some {}
       events :=
         [{ eventType := .known .updateComplete
            result := .other "1:2"
            previousVersion := "1" }] }]

/-- A run without files, standard input and variables. -/
def bareSetting : CommandLine.Setting where
  files _ := .absent
  input := .empty
  environment _ := none
  session := "s"
  request := "r"

set_option maxRecDepth 2000 in
/-- The event is named by this configuration and by a run without one. -/
theorem decode_quotingConfiguration :
    Request.decode (quotingConfiguration.printed (some ⟨.known .updateComplete, .other "1:2"⟩)
        "s" "r").toUTF8 =
      .ok quotingRequest ∧
      CommandLine.run bareSetting ["request", "--event=3:1:2"] =
        { exitCode := 0,
          output := printed {} (some ⟨.known .updateComplete, .other "1:2"⟩) "s" "r" } :=
  have named : (some "3:1:2").mapM EventArgument.parse =
      .ok (some ⟨.known .updateComplete, .other "1:2"⟩) := rfl
  ⟨(decode_printed named quotingConfiguration "s" "r").1 (by decide),
    (decode_printed named {} "s" "r").2.2.2 bareSetting ["request", "--event=3:1:2"] none
      rfl rfl rfl rfl⟩

end Configuration

end UpdateProtocol

import UpdateProtocol.Proofs.Configuration.Report
import UpdateProtocol.Proofs.Document.RoundTrip

/-!
# How a run ends

A run of `request` or `inspect` goes through stages.  Either all of them succeed and everything is
printed, or one of them fails and nothing is (`run_completes_or_stops`).  Where a document comes
from does not matter: a file and standard input that hold the same bytes lead to the same exit code
and the same output.
-/

namespace UpdateProtocol.CommandLine

/-! ### Asking for help -/

/-- An argument asks for help, before a double dash ends the options. -/
def WantsHelp (arguments : List String) : Prop :=
  ∃ argument ∈ arguments.takeWhile (fun argument => argument != "--"), asksHelp argument = true

instance (arguments : List String) : Decidable (WantsHelp arguments) :=
  inferInstanceAs (Decidable (∃ argument ∈ arguments.takeWhile _, _))

theorem WantsHelp.head {argument : String} (rest : List String) (h : asksHelp argument = true) :
    WantsHelp (argument :: rest) := by
  have hne : argument ≠ "--" := by
    rintro rfl
    revert h
    decide
  exact ⟨argument, by simp [hne], h⟩

theorem WantsHelp.cons {argument : String} {rest : List String} (hne : argument ≠ "--")
    (h : WantsHelp rest) : WantsHelp (argument :: rest) := by
  obtain ⟨found, hfound, hasks⟩ := h
  exact ⟨found, by simp [hne, hfound], hasks⟩

/-! ### What the arguments of a command ask for -/

/-- An option with a value is no double dash, which has no equals sign. -/
theorem ne_dashes_of_splitOption {argument name value : String}
    (h : splitOption argument = (name, some value)) : argument ≠ "--" := by
  rintro rfl
  rw [show splitOption "--" = ("--", none) by decide] at h
  cases h

/-- A request has no option whose name is a double dash. -/
theorem ne_dashes_of_set {argument name value : String} {options set : RequestOptions}
    (hsplit : splitOption argument = (name, none)) (h : options.set name value = some set) :
    argument ≠ "--" := by
  rintro rfl
  rw [show splitOption "--" = ("--", none) by decide] at hsplit
  cases hsplit
  cases h

/-- A double dash is an option, so it is not the value of one. -/
theorem ne_dashes_of_not_isOption {argument : String} (h : ¬ isOption argument = true) :
    argument ≠ "--" := by
  rintro rfl
  exact h (by decide)

/-- The arguments after `request` ask for a request or for help. -/
theorem parseRequest_cases {options : RequestOptions} {arguments : List String}
    {invocation : Invocation} (h : parseRequest options arguments = some invocation) :
    (∃ path event, invocation = .request path event) ∨ WantsHelp arguments := by
  fun_induction parseRequest options arguments with
  | case1 options | case2 options => exact .inl ⟨_, _, (Option.some.inj h).symm⟩
  | case3 options argument rest hne hasks => exact .inr (.head rest hasks)
  | case4 options argument hasks name value rest hsplit hne ih =>
    obtain ⟨set, -, hset⟩ := Option.bind_eq_some_iff.1 h
    exact (ih set hset).imp id (.cons (ne_dashes_of_splitOption hsplit))
  | case5 | case7 => cases h
  | case6 options argument hasks name value rest hsplit hoption hne ih =>
    obtain ⟨set, hname, hset⟩ := Option.bind_eq_some_iff.1 h
    exact (ih set hset).imp id fun hhelp =>
      .cons (ne_dashes_of_set hsplit hname) (.cons (ne_dashes_of_not_isOption hoption) hhelp)

/-- The arguments after `inspect` ask for the summary of a document or for help. -/
theorem parseInspect_cases {file : Option String} {arguments : List String}
    {invocation : Invocation} (h : parseInspect file arguments = some invocation) :
    (∃ path, invocation = .inspect path) ∨ WantsHelp arguments := by
  fun_induction parseInspect file arguments with
  | case1 file =>
    obtain ⟨path, -, hpath⟩ := Option.map_eq_some_iff.1 h
    exact .inl ⟨path, hpath.symm⟩
  | case2 file | case4 file hempty => exact .inl ⟨file, (Option.some.inj h).symm⟩
  | case3 | case5 | case7 => cases h
  | case6 file argument rest hne hasks => exact .inr (.head rest hasks)
  | case8 file argument rest hne hasks hbad ih => exact (ih h).imp id (.cons hne)

/-- A command without a request for help asks for what it is named after. -/
theorem parse_cases {command : String} (hcommand : command ∈ ["request", "inspect"])
    {rest : List String} (hhelp : ¬ WantsHelp rest) :
    parse (command :: rest) = none ∨
      (∃ path event, parse (command :: rest) = some (.request path event)) ∨
      ∃ path, parse (command :: rest) = some (.inspect path) := by
  cases hparse : parse (command :: rest) with
  | none => exact .inl rfl
  | some invocation =>
    refine .inr ?_
    simp only [List.mem_cons, List.not_mem_nil, or_false] at hcommand
    obtain rfl | rfl := hcommand
    · obtain ⟨path, event, rfl⟩ := (parseRequest_cases hparse).resolve_right hhelp
      exact .inl ⟨path, event, rfl⟩
    · obtain ⟨path, rfl⟩ := (parseInspect_cases hparse).resolve_right hhelp
      exact .inr ⟨path, rfl⟩

/-! ### Documents -/

/-- A path names a document: a dash names what standard input holds, any other path what a file
holds. -/
inductive Setting.Holds (setting : Setting) : String → ByteArray → Prop
  | input : Holds setting "-" setting.input
  | file {path : String} {document : ByteArray} (hpath : path ≠ "-")
      (hfile : setting.files path = .file document) : Holds setting path document

theorem readDocument_eq_ok_iff {setting : Setting} {path : String} {document : ByteArray} :
    readDocument setting path = .ok document ↔ setting.Holds path document := by
  constructor
  · intro h
    unfold readDocument at h
    split_ifs at h with hpath
    · subst hpath
      cases h
      exact .input
    · split at h
      · next content hfile =>
        cases h
        exact .file hpath hfile
      · cases h
  · rintro (_ | ⟨hpath, hfile⟩)
    · exact if_pos rfl
    · rw [readDocument, if_neg hpath, hfile]

/-! ### Runs -/

theorem unlines_eq (lines : List String) :
    unlines lines = String.join (lines.map (fun line => line ++ "\n")) := by
  simp only [unlines, String.join, List.foldl_map, String.append_assoc]

/-- What a run prints when every stage succeeds: the document of a request and a line end, or the
lines of a summary, each with its end. -/
inductive Completes (setting : Setting) (arguments : List String) : String → Prop
  | request {path : Option String} {event : Option EventArgument} {configuration : Configuration}
      (hparse : parse arguments = some (.request path event))
      (hload : Configuration.load setting.files setting.environment path = .ok configuration) :
      Completes setting arguments
        ((configuration.request event setting.session setting.request).document ++ "\n")
  | inspect {path : String} {document : ByteArray} {response : Response}
      (hparse : parse arguments = some (.inspect path)) (hheld : setting.Holds path document)
      (hdecode : Response.decode document = .ok response) :
      Completes setting arguments
        (String.join (response.summary.map (fun line => line ++ "\n")))

/-- A stage of a run fails. -/
inductive Stops (setting : Setting) (arguments : List String) : Prop
  | arguments (hparse : parse arguments = none)
  | loading {path : Option String} {event : Option EventArgument} {error : LoadError}
      (hparse : parse arguments = some (.request path event))
      (hload : Configuration.load setting.files setting.environment path = .error error)
  | reading {path : String} (hparse : parse arguments = some (.inspect path))
      (hheld : ∀ document, ¬ setting.Holds path document)
  | decoding {path : String} {document : ByteArray} {error : DecodeError}
      (hparse : parse arguments = some (.inspect path)) (hheld : setting.Holds path document)
      (hdecode : Response.decode document = .error error)

variable {setting : Setting} {arguments : List String}

/-- The configuration that is loaded is what decides about a request. -/
theorem execute_request (path : Option String) (event : Option EventArgument) :
    execute setting (.request path event) =
      match Configuration.load setting.files setting.environment path with
      | .ok configuration =>
          .ok ((configuration.request event setting.session setting.request).document ++ "\n")
      | .error error => .error (.load error) := by
  rw [execute]
  cases Configuration.load setting.files setting.environment path <;> rfl

/-- An inspection fails when its path names no document. -/
theorem execute_inspect_unreadable {path : String} (h : ∀ document, ¬ setting.Holds path document) :
    ∃ failure, execute setting (.inspect path) = .error failure := by
  cases hread : readDocument setting path with
  | ok document => exact absurd (readDocument_eq_ok_iff.1 hread) (h document)
  | error failure => exact ⟨failure, by rw [execute, hread]; rfl⟩

theorem run_of_execute_ok {invocation : Invocation} {output : String}
    (hparse : parse arguments = some invocation) (h : execute setting invocation = .ok output) :
    run setting arguments = { exitCode := 0, output } := by
  simp only [run, hparse, h]

theorem run_of_execute_error {invocation : Invocation} {failure : Failure}
    (hparse : parse arguments = some invocation) (h : execute setting invocation = .error failure) :
    (run setting arguments).exitCode ≠ 0 ∧ (run setting arguments).output = "" := by
  simp [run, hparse, h]

/-- How an inspection ends depends only on the document that its path names. -/
theorem run_inspect {path : String} {document : ByteArray}
    (hparse : parse arguments = some (.inspect path)) (hheld : setting.Holds path document) :
    run setting arguments =
      match Response.decode document with
      | .ok response =>
          { exitCode := 0
            output := String.join (response.summary.map (fun line => line ++ "\n")) }
      | .error error => { exitCode := 1, failure := some (.decode error) } := by
  have hexecute : execute setting (.inspect path) =
      (Response.decode document).mapError Failure.decode >>= fun response =>
        .ok (unlines response.summary) := by
    rw [execute, readDocument_eq_ok_iff.2 hheld]
    rfl
  rw [run, hparse]
  simp only [hexecute, ← unlines_eq]
  cases Response.decode document <;> rfl

theorem Completes.run_eq {output : String} (h : Completes setting arguments output) :
    run setting arguments = { exitCode := 0, output } := by
  cases h with
  | request hparse hload => exact run_of_execute_ok hparse (by rw [execute_request, hload])
  | inspect hparse hheld hdecode =>
    rw [run_inspect hparse hheld, hdecode]

/-- A run prints one thing only. -/
theorem Completes.unique {output other : String} (h : Completes setting arguments output)
    (hother : Completes setting arguments other) : output = other :=
  congrArg Outcome.output (h.run_eq.symm.trans hother.run_eq)

theorem Stops.run_fails (h : Stops setting arguments) :
    (run setting arguments).exitCode ≠ 0 ∧ (run setting arguments).output = "" := by
  cases h with
  | arguments hparse => simp [run, hparse]
  | loading hparse hload =>
    exact run_of_execute_error hparse (by rw [execute_request, hload])
  | reading hparse hheld =>
    obtain ⟨failure, hfailure⟩ := execute_inspect_unreadable hheld
    exact run_of_execute_error hparse hfailure
  | decoding hparse hheld hdecode =>
    simp [run_inspect hparse hheld, hdecode]

/-- There is no third way for a command to end. -/
theorem completes_or_stops (setting : Setting) {command : String}
    (hcommand : command ∈ ["request", "inspect"]) {rest : List String}
    (hhelp : ¬ WantsHelp rest) :
    (∃ output, Completes setting (command :: rest) output) ∨ Stops setting (command :: rest) := by
  obtain hparse | ⟨path, event, hparse⟩ | ⟨path, hparse⟩ := parse_cases hcommand hhelp
  · exact .inr (.arguments hparse)
  · cases hload : Configuration.load setting.files setting.environment path with
    | ok configuration => exact .inl ⟨_, .request hparse hload⟩
    | error error => exact .inr (.loading hparse hload)
  · by_cases hheld : ∃ document, setting.Holds path document
    · obtain ⟨document, hheld⟩ := hheld
      cases hdecode : Response.decode document with
      | ok response => exact .inl ⟨_, .inspect hparse hheld hdecode⟩
      | error error => exact .inr (.decoding hparse hheld hdecode)
    · exact .inr (.reading hparse fun document hdocument => hheld ⟨document, hdocument⟩)

/-! ### The two places a document comes from -/

/-- A path that does not begin with a dash is what `inspect` reads. -/
theorem parse_inspect {path : String} (hempty : path ≠ "") (hdash : path.toList.head? ≠ some '-') :
    parse ["inspect", path] = some (.inspect path) := by
  have hother (argument : String) (h : argument.toList.head? = some '-') : path ≠ argument := by
    rintro rfl
    exact hdash h
  have hhelp : asksHelp path = false := by
    rw [asksHelp, Bool.or_eq_false_iff, beq_eq_false_iff_ne]
    refine ⟨hother "--help" (by decide), ?_⟩
    unfold isShort
    split
    · next hlist => simp [hlist] at hdash
    · rfl
  have hoption : isOption path = false := by
    unfold isOption
    split
    · next hlist => simp [hlist] at hdash
    · rfl
  show parseInspect none [path] = _
  rw [parseInspect]
  · simp [hhelp, hoption, hempty, parseInspect]
  · exact hother "--" (by decide)

/-- How an inspection ends depends only on the document, whether a file or standard input holds
it. -/
theorem run_inspect_file {setting other : Setting} {path : String} (hempty : path ≠ "")
    (hdash : path.toList.head? ≠ some '-') (hfile : setting.files path = .file other.input) :
    run setting ["inspect", path] = run other ["inspect", "-"] := by
  have hpath : path ≠ "-" := by
    rintro rfl
    exact hdash (by decide)
  rw [run_inspect (parse_inspect hempty hdash) (.file hpath hfile),
    run_inspect (show parse ["inspect", "-"] = some (.inspect "-") by decide) .input]

/-- A command without a request for help either succeeds and prints the document of a request, or
the summary of a response, with line ends, or a stage of it fails and it prints nothing.  An
inspection of a file and one of standard input end alike when both hold the same document, and they
succeed exactly if it is a response. -/
theorem run_completes_or_stops (setting : Setting) :
    (∀ command ∈ ["request", "inspect"], ∀ rest : List String, ¬ WantsHelp rest →
      (∃ output, Completes setting (command :: rest) output ∧
        run setting (command :: rest) = { exitCode := 0, output }) ∨
      (Stops setting (command :: rest) ∧ (run setting (command :: rest)).exitCode ≠ 0 ∧
        (run setting (command :: rest)).output = "")) ∧
    ∀ (other : Setting) (path : String), path ≠ "" → path.toList.head? ≠ some '-' →
      setting.files path = .file other.input →
      (run setting ["inspect", path]).exitCode = (run other ["inspect", "-"]).exitCode ∧
      (run setting ["inspect", path]).output = (run other ["inspect", "-"]).output ∧
      ((run setting ["inspect", path]).exitCode = 0 ↔
        ∃ response, Response.decode other.input = .ok response) := by
  refine ⟨fun command hcommand rest hhelp => ?_, fun other path hempty hdash hfile => ?_⟩
  · obtain ⟨output, h⟩ | h := completes_or_stops setting hcommand hhelp
    · exact .inl ⟨output, h, h.run_eq⟩
    · exact .inr ⟨h, h.run_fails⟩
  · have hrun := run_inspect_file hempty hdash hfile
    refine ⟨congrArg Outcome.exitCode hrun, congrArg Outcome.output hrun, ?_⟩
    rw [hrun, run_inspect (show parse ["inspect", "-"] = some (.inspect "-") by decide) .input]
    cases Response.decode other.input <;> simp

/-- A response about one application with a download location. -/
def answer : Response where
  apps := [{ id := "a"
             updateCheck := some
               { status := some (.known .ok), urls := some ⟨[{ codebase := "u" }]⟩ } }]

/-- A run where every file and standard input hold this response. -/
def answeredSetting : Setting where
  files _ := .file answer.encode.toUTF8
  input := answer.encode.toUTF8
  environment _ := none
  session := "s"
  request := "r"

set_option maxRecDepth 2000 in
theorem decode_answer : Response.decode answer.encode.toUTF8 = .ok answer :=
  have hsize : ¬ maxDocumentSize < answer.encode.toUTF8.size := by decide
  (Message.decode_written answer (.inl rfl)).trans (if_neg hsize)

theorem completes_answeredSetting :
    Completes answeredSetting ["inspect", "answer"] "a status=- update=ok\n  url u\n" :=
  .inspect (parse_inspect (by decide) (by decide)) (.file (by decide) rfl) decode_answer

/-- With this response an inspection succeeds and prints two lines, and one that reads a dash as an
option fails. -/
theorem run_answeredSetting :
    run answeredSetting ["inspect", "answer"] =
      { exitCode := 0, output := "a status=- update=ok\n  url u\n" } ∧
    ((run answeredSetting ["inspect", "--answer"]).exitCode ≠ 0 ∧
      (run answeredSetting ["inspect", "--answer"]).output = "") ∧
    (run answeredSetting ["inspect", "answer"]).output =
      (run answeredSetting ["inspect", "-"]).output := by
  obtain ⟨hends, hdocuments⟩ := run_completes_or_stops answeredSetting
  obtain ⟨-, houtput, hcode⟩ := hdocuments answeredSetting "answer" (by decide) (by decide) rfl
  refine ⟨?_, ?_, houtput⟩
  · obtain ⟨output, h, hrun⟩ | hstops := hends "inspect" (by decide) ["answer"] (by decide)
    · obtain rfl := h.unique completes_answeredSetting
      exact hrun
    · exact absurd (hcode.2 ⟨answer, decode_answer⟩) hstops.2.1
  · obtain ⟨output, -, hrun⟩ | hstops := hends "inspect" (by decide) ["--answer"] (by decide)
    · have hcode : (run answeredSetting ["inspect", "--answer"]).exitCode ≠ 0 := by decide
      exact absurd (congrArg Outcome.exitCode hrun) hcode
    · exact hstops.2

end UpdateProtocol.CommandLine

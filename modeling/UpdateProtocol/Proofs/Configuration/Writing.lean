import UpdateProtocol.Proofs.Configuration.Schema
import UpdateProtocol.Proofs.Configuration.Selection
import UpdateProtocol.Proofs.Toml.Writing

/-!
# Writing configurations

Every configuration can be written as a document, in many ways.  In whichever way it is written, it
is loaded with the three fields replaced for which the environment has a variable
(`load_written`).
-/

namespace UpdateProtocol

/-- An application as a table between braces. -/
def InstalledApp.toToml (app : InstalledApp) : Toml.Value :=
  .table .complete [("id", .string app.id), ("version", .string app.version)]

namespace Configuration

/-- The documents that a configuration may be written as.  Their keys stand in any order; a field
at its default may be left out; the applications are an array in place, or tables with headers
behind the other keys. -/
def WrittenIn (configuration : Configuration) (text : String) : Prop :=
  ∃ (statements : List Toml.Statement) (entries : Toml.Entries),
    Toml.DocumentWritten statements text.toList ∧ Toml.Makes statements entries ∧
      configuration.WrittenAs entries

theorem WrittenIn.parse_eq {configuration : Configuration} {text : String}
    (h : configuration.WrittenIn text) (path : String) :
    parse path text = .ok configuration := by
  obtain ⟨statements, entries, hdocument, hmakes, hwritten⟩ := h
  have hentries := Toml.parse_of_written hdocument hmakes
  rw [parse_eq_ok_iff hentries, ofToml_eq_ok_iff (Toml.wellKeyed_of_parse hentries)]
  exact hwritten

/-- All fields of a configuration, each with a key of its own. -/
def toToml (configuration : Configuration) : Toml.Entries :=
  [("track", .string configuration.track), ("machine_id", .string configuration.machineId),
    ("boot_id", .string configuration.bootId), ("oem", .string configuration.oem),
    ("ping", .boolean configuration.ping), ("update_check", .boolean configuration.updateCheck),
    ("apps", .array .complete (configuration.apps.map InstalledApp.toToml))]

theorem writtenAs_toToml (configuration : Configuration) :
    configuration.WrittenAs configuration.toToml where
  known := by simp [toToml, keys]
  track := .inr ⟨_, rfl, rfl⟩
  machineId := .inr ⟨_, rfl, rfl⟩
  bootId := .inr ⟨_, rfl, rfl⟩
  oem := .inr ⟨_, rfl, rfl⟩
  ping := .inr ⟨_, rfl, rfl⟩
  updateCheck := .inr ⟨_, rfl, rfl⟩
  apps := .inr ⟨_, rfl, .complete, _, rfl, List.forall₂_map_left_iff.2
    (List.forall₂_same.2 fun _ _ => .table (.refl _))⟩

theorem exists_written_app (depth : Nat) (app : InstalledApp) :
    ∃ raw, Toml.Written (depth + 1) app.toToml raw := by
  have hentries : ∀ entry ∈ [("id", Toml.Value.string app.id), ("version", .string app.version)],
      ∃ raw, Toml.Written depth entry.2 raw := by
    simp [Toml.exists_written_string]
  obtain ⟨raw, hraw⟩ := Toml.exists_entriesWritten (List.cons_ne_nil _ _) hentries
  exact ⟨_, .inr (.table (by simp) hraw)⟩

theorem exists_written_apps (depth : Nat) (apps : List InstalledApp) :
    ∃ raw, Toml.Written (depth + 2) (.array .complete (apps.map InstalledApp.toToml)) raw := by
  have happ : ∀ item ∈ apps.map InstalledApp.toToml, ∃ raw, Toml.Written (depth + 1) item raw := by
    intro item hitem
    obtain ⟨app, -, rfl⟩ := List.mem_map.1 hitem
    exact exists_written_app depth app
  obtain ⟨raw, hraw⟩ := Toml.exists_itemsWritten happ
  exact ⟨_, .inr (.array hraw)⟩

/-- Every configuration can be written. -/
theorem exists_writtenIn (configuration : Configuration) :
    ∃ text, configuration.WrittenIn text := by
  have hentries : ∀ entry ∈ configuration.toToml, ∃ raw,
      Toml.Written (Toml.maxNesting - 1) entry.2 raw := by
    simp only [toToml, List.forall_mem_cons]
    exact ⟨Toml.exists_written_string _ _, Toml.exists_written_string _ _,
      Toml.exists_written_string _ _, Toml.exists_written_string _ _,
      Toml.exists_written_boolean _ _, Toml.exists_written_boolean _ _,
      exists_written_apps 77 configuration.apps, by simp⟩
  have hstatements : ∀ statement ∈ configuration.toToml.map Toml.Statement.entry,
      ∃ raw, Toml.StatementWritten statement raw := by
    intro statement hstatement
    obtain ⟨entry, hentry, rfl⟩ := List.mem_map.1 hstatement
    obtain ⟨raw, hraw⟩ := Toml.exists_entryWritten (hentries entry hentry)
    exact ⟨raw, .entry hraw⟩
  obtain ⟨raw, hraw⟩ := Toml.exists_linesWritten hstatements
  refine ⟨String.ofList raw, _, _, ?_, .settings ?_, writtenAs_toToml configuration⟩
  · rw [String.toList_ofList]
    exact .plain hraw
  · simp [toToml]

/-- Every configuration can be written, and however it is written, it is loaded with those of the
track, the machine id and the vendor replaced for which the environment has a variable, even an
empty one.  All else is as in the configuration. -/
theorem load_written (configuration : Configuration) :
    (∃ text, configuration.WrittenIn text) ∧
    ∀ (text path : String) (files : FileSystem) (environment : Environment)
      (given : Option String),
      configuration.WrittenIn text → choose files environment given = some path →
      files path = .file text.toUTF8 →
      load files environment given =
        .ok { track := (environment "OMAHA_TRACK").getD configuration.track
              machineId := (environment "OMAHA_MACHINE_ID").getD configuration.machineId
              bootId := configuration.bootId
              oem := (environment "OMAHA_OEM").getD configuration.oem
              ping := configuration.ping
              updateCheck := configuration.updateCheck
              apps := configuration.apps } := by
  refine ⟨exists_writtenIn configuration, ?_⟩
  intro text path files environment given h hchoose hfile
  have hread : read files path = .ok configuration := by
    rw [read, hfile, FileEntry.text?_toUTF8]
    exact h.parse_eq path
  rw [load_eq, hchoose, select, hread]
  rfl

/-- A configuration with an accent, a line feed and an application. -/
def accentConfiguration : Configuration where
  oem := "é\n"
  apps := [⟨"a", "1"⟩]

/-- One of its documents, with blanks at the ends of some lines. -/
def accentText : String :=
  "# vendor\noem = \"\\u00E9\\n\" # accent\n\n[[apps]]\r\nversion = \"1\" \n\"id\" = \"a\" "

/-- Only the vendor is set, to nothing. -/
def vendorlessEnvironment : Environment := fun name =>
  if name = "OMAHA_OEM" then some "" else none

theorem writtenIn_accentText : accentConfiguration.WrittenIn accentText := by
  have hnone := Toml.isBlanks_nil
  have hspace : Toml.IsBlanks " ".toList := by simp [Toml.IsBlanks, Toml.isBlank]
  have hvendor : ∀ c ∈ " vendor".toList, Toml.isPlain c = true := by simp [Toml.isPlain]
  have hremark : ∀ c ∈ " accent".toList, Toml.isPlain c = true := by simp [Toml.isPlain]
  have hletter : Toml.Spelling 'é' "\\u00E9".toList :=
    .short rfl ⟨[0, 0, 14, 9], .cons ⟨by decide, .inl rfl⟩ (.cons ⟨by decide, .inl rfl⟩
      (.cons ⟨by decide, .inr rfl⟩ (.cons ⟨by decide, .inl rfl⟩ .nil))), rfl⟩
  have hfeed : Toml.Spelling '\n' "\\n".toList := .letter (by decide)
  have line {key text : String} {name raw remark : List Char} (hkey : Toml.KeySpells key name)
      (h : Toml.Spells text.toList raw) (hremark : Toml.Remark remark) :
      Toml.LineWritten [.entry (key, .string text)] _ :=
    .statement hnone (.entry (.entry hkey hspace hspace
      ((Toml.ScalarWritten.string (.basic h)).written 79))) hspace hremark
  have hoem : Toml.LineWritten [.entry ("oem", .string "é\n")] _ :=
    line (.bare (by simp) (by simp [Toml.isKeyChar])) (.cons hletter (.cons hfeed .nil))
      (.comment hremark)
  have hheader : Toml.LineWritten [.header "apps"] _ :=
    .statement hnone (.header hnone (.bare (by simp) (by simp [Toml.isKeyChar])) hnone) hnone
      .nothing
  have hversion : Toml.LineWritten [.entry ("version", .string "1")] _ :=
    line (.bare (by simp) (by simp [Toml.isKeyChar])) (Toml.spells_self (by simp [Toml.isPlain]))
      .nothing
  have hid : Toml.LineWritten [.entry ("id", .string "a")] _ :=
    line (.quoted (.basic (Toml.spells_self (by simp [Toml.isPlain]))))
      (Toml.spells_self (by simp [Toml.isPlain])) .nothing
  have hlines : Toml.LinesWritten _ accentText.toList :=
    .cons (.blank hnone (.comment hvendor)) .feed (.cons hoem .feed
      (.cons (.blank hnone .nothing) .feed
        (.cons hheader .both (.cons hversion .feed (.last hid)))))
  have hmakes := @Toml.Makes.tables [("oem", .string "é\n")] "apps"
    [[("version", .string "1"), ("id", .string "a")]] (by simp) (by simp) (by simp) (by simp)
  refine ⟨_, _, .plain hlines, hmakes, ?_⟩
  exact
    { known := by simp [keys]
      track := .inl ⟨rfl, rfl⟩
      machineId := .inl ⟨rfl, rfl⟩
      bootId := .inl ⟨rfl, rfl⟩
      oem := .inr ⟨_, rfl, rfl⟩
      ping := .inl ⟨rfl, rfl⟩
      updateCheck := .inl ⟨rfl, rfl⟩
      apps := .inr ⟨_, rfl, .headers, _, rfl, .cons (.table (.swap ..)) .nil⟩ }

theorem load_accentText :
    accentConfiguration.WrittenIn accentText ∧
    load (fun _ => .file accentText.toUTF8) vendorlessEnvironment (some "config.toml") =
      .ok { accentConfiguration with oem := "" } :=
  ⟨writtenIn_accentText, (load_written accentConfiguration).2 accentText "config.toml" _ _ _
    writtenIn_accentText rfl rfl⟩

end Configuration

end UpdateProtocol

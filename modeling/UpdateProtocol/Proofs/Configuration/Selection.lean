import UpdateProtocol.Configuration.Load
import UpdateProtocol.Proofs.Document.Decoding

/-!
# Which configuration is loaded

A path that is given is the only one that is read.  Otherwise the first of the usual locations
where something stands decides alone, even if it cannot be read or is no configuration; the default
configuration is left for the case that nothing stands at any of them (`load_selected`).
-/

namespace UpdateProtocol

/-- The text of a file is read back. -/
theorem FileEntry.text?_toUTF8 (text : String) : (file text.toUTF8).text? = some text := by
  rw [text?, String.fromUTF8?, String.toUTF8_eq_toByteArray, dif_pos text.isValidUTF8]
  rfl

theorem FileEntry.exists_iff {entry : FileEntry} : entry.exists = true ↔ entry ≠ .absent := by
  cases entry <;> simp [FileEntry.exists]

namespace Configuration

/-! ### One location -/

/-- What reading the configuration at a path leads to, by what stands there. -/
inductive ReadsAs (path : String) : FileEntry → Except LoadError Configuration → Prop
  | absent : ReadsAs path .absent (.error (.unreadable path))
  | directory : ReadsAs path .directory (.error (.unreadable path))
  | notText {content : ByteArray} (h : ¬ content.IsValidUTF8) :
      ReadsAs path (.file content) (.error (.unreadable path))
  | malformed {text : String} (h : Toml.parse text.toList = none) :
      ReadsAs path (.file text.toUTF8) (.error (.malformed path))
  | invalid {text : String} {entries : Toml.Entries} {error : ConfigurationError}
      (h : Toml.parse text.toList = some entries) (fault : ofToml entries = .error error) :
      ReadsAs path (.file text.toUTF8) (.error (.invalid path error))
  | valid {text : String} {entries : Toml.Entries} {configuration : Configuration}
      (h : Toml.parse text.toList = some entries) (read : ofToml entries = .ok configuration) :
      ReadsAs path (.file text.toUTF8) (.ok configuration)

theorem readsAs_read (files : FileSystem) (path : String) :
    ReadsAs path (files path) (read files path) := by
  rw [read]
  cases files path with
  | absent => exact .absent
  | directory => exact .directory
  | file content =>
    by_cases hvalid : content.IsValidUTF8
    · obtain ⟨text, rfl⟩ : ∃ text : String, content = text.toUTF8 := ⟨⟨content, hvalid⟩, rfl⟩
      rw [FileEntry.text?_toUTF8]
      simp only [parse]
      cases hparse : Toml.parse text.toList with
      | none => exact .malformed hparse
      | some entries =>
        simp only
        cases hread : ofToml entries with
        | error error => exact .invalid hparse hread
        | ok configuration => exact .valid hparse hread
    · have htext : (FileEntry.file content).text? = none := by
        rw [FileEntry.text?, String.fromUTF8?, dif_neg hvalid]
      rw [htext]
      exact .notText hvalid

/-- A failure names a path, and says whether there is no text at it or no configuration. -/
def Names (path : String) (error : LoadError) : Prop :=
  (error = .unreadable path ∧ error.context = "reading " ++ path) ∨
    (error ≠ .unreadable path ∧ error.context = "parsing " ++ path)

theorem ReadsAs.names {path : String} {entry : FileEntry} {error : LoadError}
    (h : ReadsAs path entry (.error error)) : Names path error := by
  cases h
  case absent | directory | notText => exact .inl ⟨rfl, rfl⟩
  case malformed => exact .inr ⟨LoadError.noConfusion, rfl⟩
  case invalid => exact .inr ⟨LoadError.noConfusion, rfl⟩

/-! ### Several locations -/

/-- The configuration at the first of some paths where something stands, or the default one. -/
inductive Selects (files : FileSystem) : List String → Except LoadError Configuration → Prop
  | default : Selects files [] (.ok {})
  | absent {path : String} {paths : List String} {result : Except LoadError Configuration}
      (h : files path = .absent) (rest : Selects files paths result) :
      Selects files (path :: paths) result
  | found {path : String} {paths : List String} {result : Except LoadError Configuration}
      (h : files path ≠ .absent) (read : ReadsAs path (files path) result) :
      Selects files (path :: paths) result

/-- The configuration before the environment has its word. -/
def select (files : FileSystem) : Option String → Except LoadError Configuration
  | some path => read files path
  | none => .ok {}

theorem load_eq (files : FileSystem) (environment : Environment) (given : Option String) :
    load files environment given =
      (select files (choose files environment given)).map (override environment) := by
  rw [load]
  cases choose files environment given <;> rfl

theorem selects_find? (files : FileSystem) (paths : List String) :
    Selects files paths (select files (paths.find? (fun path => (files path).exists))) := by
  induction paths with
  | nil => exact .default
  | cons path paths ih =>
    rw [List.find?_cons]
    cases hpath : (files path).exists with
    | true => exact .found (FileEntry.exists_iff.1 hpath) (readsAs_read files path)
    | false =>
      have habsent : files path = .absent := by
        by_contra h
        rw [FileEntry.exists_iff.2 h] at hpath
        cases hpath
      exact .absent habsent ih

/-- What stands behind a path where something stands does not matter. -/
theorem select_find?_congr {files others : FileSystem} {before after : List String} {path : String}
    (hpath : files path ≠ .absent) (hfiles : ∀ p ∈ before ++ [path], others p = files p) :
    select others ((before ++ path :: after).find? (fun p => (others p).exists)) =
      select files ((before ++ path :: after).find? (fun p => (files p).exists)) := by
  induction before with
  | nil =>
    have hothers : others path = files path := hfiles path (by simp)
    simp only [List.nil_append, List.find?_cons, hothers, FileEntry.exists_iff.2 hpath, select,
      read]
  | cons first before ih =>
    obtain ⟨hfirst, hbefore⟩ := List.forall_mem_cons.1 hfiles
    simp only [List.cons_append, List.find?_cons, hfirst]
    cases (files first).exists with
    | true => simp only [select, read, hfirst]
    | false => exact ih hbefore

/-! ### Loading -/

/-- Loading reads the path that is given and no other.  When none is given the first of the usual
locations where something stands decides, whatever stands at later ones.  A failure names the path
that was chosen. -/
theorem load_selected (environment : Environment) :
    (∀ files path, ∃ result, ReadsAs path (files path) result ∧
      load files environment (some path) = result.map (override environment)) ∧
    (∀ files others path, others path = files path →
      load others environment (some path) = load files environment (some path)) ∧
    (∀ files, ∃ result,
      Selects files (searchPaths (environment "XDG_CONFIG_HOME") (environment "HOME")) result ∧
      load files environment none = result.map (override environment)) ∧
    (∀ files others before path after,
      searchPaths (environment "XDG_CONFIG_HOME") (environment "HOME") = before ++ path :: after →
      files path ≠ .absent → (∀ p ∈ before ++ [path], others p = files p) →
      load others environment none = load files environment none) ∧
    ∀ files given error, load files environment given = .error error →
      ∃ path, choose files environment given = some path ∧ Names path error := by
  refine ⟨fun files path => ⟨_, readsAs_read files path, load_eq files environment (some path)⟩,
    fun files others path hothers => ?_,
    fun files => ⟨_, selects_find? files _, load_eq files environment none⟩,
    fun files others before path after hpaths hpath hfiles => ?_,
    fun files given error h => ?_⟩
  · simp only [load_eq, choose, select, read, hothers]
  · simp only [load_eq, choose, usualPaths, hpaths, select_find?_congr hpath hfiles]
  · rw [load_eq] at h
    cases hchoose : choose files environment given with
    | none =>
      rw [hchoose] at h
      cases h
    | some path =>
      rw [hchoose, select] at h
      have hread := readsAs_read files path
      cases hresult : read files path with
      | ok configuration =>
        rw [hresult] at h
        cases h
      | error found =>
        rw [hresult] at h hread
        cases h
        exact ⟨path, rfl, hread.names⟩

/-- Only a directory for configurations is known. -/
def directoryEnvironment : Environment := fun name =>
  if name = "XDG_CONFIG_HOME" then some "/x" else none

/-- A directory stands at the first location, and the same at all others. -/
def blockedFiles (others : FileEntry) : FileSystem := fun path =>
  if path = pathIn "/x" then .directory else others

/-- The directory is the only location that matters, and it cannot be read. -/
theorem load_blockedFiles :
    load (blockedFiles (.file "oem = \"a\"".toUTF8)) directoryEnvironment none =
        load (blockedFiles .absent) directoryEnvironment none ∧
      ∃ path, choose (blockedFiles .absent) directoryEnvironment none = some path ∧
        Names path (.unreadable (pathIn "/x")) := by
  have hblocked (others : FileEntry) : blockedFiles others (pathIn "/x") = .directory := if_pos rfl
  have hpaths : searchPaths (directoryEnvironment "XDG_CONFIG_HOME") (directoryEnvironment "HOME") =
      [] ++ pathIn "/x" :: [systemPath] := rfl
  have hchoose : choose (blockedFiles .absent) directoryEnvironment none = some (pathIn "/x") := by
    rw [choose, usualPaths, hpaths, List.nil_append, List.find?_cons_of_pos]
    simp [hblocked, FileEntry.exists]
  obtain ⟨-, -, -, hlater, hfailure⟩ := load_selected directoryEnvironment
  refine ⟨hlater _ _ [] (pathIn "/x") [systemPath] hpaths ?_ ?_, hfailure _ none _ ?_⟩
  · simp [hblocked]
  · simp [hblocked]
  · simp only [load_eq, hchoose, select, read, hblocked]
    rfl

end Configuration

end UpdateProtocol

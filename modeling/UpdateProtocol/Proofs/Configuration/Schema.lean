import Mathlib.Data.List.Nodup
import Mathlib.Tactic.MkIffOfInductiveProp
import UpdateProtocol.Configuration.Load
import UpdateProtocol.Proofs.Lists
import UpdateProtocol.Proofs.Markup.Progress
import UpdateProtocol.Proofs.Toml.Keys

/-!
# The schema of a configuration

A table is a configuration if each of its keys is known and has a value of its type, and then every
field has the value that is written for it or its default (`parse_schema`).  An application is
written as a table of its two entries, but also as an array that begins with its two texts, and
what follows them in the array is ignored (`parse_arrayApp`).
-/

namespace UpdateProtocol

/-! ### Fields -/

namespace Toml

/-- What a table makes of a field: the value that is written for its key, or what it was before. -/
def Gives {α : Type} (entries : Entries) (key : String) (Written : α → Value → Prop)
    (before after : α) : Prop :=
  (entries.lookup key = none ∧ after = before) ∨
    ∃ value, entries.lookup key = some value ∧ Written after value

section Gives

variable {α : Type} {entries : Entries} {key other : String} {value : Value}
  {Written : α → Value → Prop} {before after : α}

@[simp] theorem gives_nil : Gives [] key Written before after ↔ after = before := by
  simp [Gives]

theorem gives_absent (h : key ∉ entries.map Prod.fst) :
    Gives entries key Written before after ↔ after = before := by
  simp [Gives, lookup_eq_none_iff_not_mem.2 h]

theorem gives_cons_self :
    Gives ((key, value) :: entries) key Written before after ↔ Written after value := by
  simp [Gives]

theorem gives_cons_ne (h : key ≠ other) :
    Gives ((other, value) :: entries) key Written before after ↔
      Gives entries key Written before after := by
  simp [Gives, List.lookup_cons, beq_false_of_ne h]

end Gives

/-- The value is this text. -/
def IsString (text : String) (value : Value) : Prop :=
  value = .string text

/-- The value is this truth value. -/
def IsBoolean (flag : Bool) (value : Value) : Prop :=
  value = .boolean flag

theorem Value.asString_eq_ok_iff {value : Value} {text : String} :
    value.asString = .ok text ↔ value = .string text := by
  cases value <;> simp [Value.asString]

theorem Value.asBoolean_eq_ok_iff {value : Value} {flag : Bool} :
    value.asBoolean = .ok flag ↔ value = .boolean flag := by
  cases value <;> simp [Value.asBoolean]

theorem Value.asArray_eq_ok_iff {value : Value} {items : List Value} :
    value.asArray = .ok items ↔ ∃ origin, value = .array origin items := by
  cases value <;> simp [Value.asArray]

end Toml

theorem bind_eq_ok_iff {ε α β : Type} {x : Except ε α} {f : α → Except ε β} {b : β} :
    (x >>= f) = .ok b ↔ ∃ a, x = .ok a ∧ f a = .ok b :=
  ⟨exists_of_bind_ok, fun ⟨_, hx, hf⟩ => by rw [hx]; exact hf⟩

/-- Items are read one by one. -/
theorem mapM_eq_ok_iff {ε α β : Type} {f : α → Except ε β} {items : List α} {found : List β} :
    items.mapM f = .ok found ↔ List.Forall₂ (fun a b => f a = .ok b) items found := by
  induction items generalizing found with
  | nil =>
    rw [List.mapM_nil]
    constructor
    · intro h
      cases h
      exact .nil
    · intro h
      cases h
      rfl
  | cons item items ih =>
    rw [List.mapM_cons]
    constructor
    · intro h
      obtain ⟨first, hfirst, h⟩ := exists_of_bind_ok h
      obtain ⟨rest, hrest, e⟩ := exists_of_bind_ok h
      cases e
      exact .cons hfirst (ih.1 hrest)
    · intro h
      cases h with
      | cons hfirst hrest =>
        rw [hfirst, ih.2 hrest]
        rfl

/-- A state that the entries of a table are added to one by one ends as `Made` says, if that is
what a single entry does to it. -/
theorem foldlM_eq_ok_iff {ε σ : Type} {add : σ → String × Toml.Value → Except ε σ}
    {Made : σ → σ → Toml.Entries → Prop}
    (hnil : ∀ {before after}, Made before after [] ↔ after = before)
    (hcons : ∀ {before after entry entries}, entry.1 ∉ entries.map Prod.fst → entry.2.WellKeyed →
      (Made before after (entry :: entries) ↔
        ∃ middle, add before entry = .ok middle ∧ Made middle after entries))
    {entries : Toml.Entries} (h : entries.WellKeyed) {before after : σ} :
    entries.foldlM add before = .ok after ↔ Made before after entries := by
  obtain ⟨once, values⟩ := h
  induction entries generalizing before with
  | nil =>
    rw [hnil]
    constructor
    · intro h
      cases h
      rfl
    · intro h
      rw [h]
      rfl
  | cons entry entries ih =>
    obtain ⟨hentry, hentries⟩ := List.nodup_cons.1 once
    obtain ⟨hvalue, hvalues⟩ := List.forall_mem_cons.1 values
    simp only [List.foldlM_cons, bind_eq_ok_iff, hcons hentry hvalue, ih hentries hvalues]

/-! ### Applications -/

namespace InstalledApp

/-- How an application may be written: as a table of its two entries, or as an array that begins
with its two texts. -/
inductive WrittenAs (app : InstalledApp) : Toml.Value → Prop
  | table {origin : Toml.TableOrigin} {entries : Toml.Entries}
      (h : entries.Perm [("id", .string app.id), ("version", .string app.version)]) :
      WrittenAs app (.table origin entries)
  | array {origin : Toml.ArrayOrigin} {more : List Toml.Value} :
      WrittenAs app (.array origin (.string app.id :: .string app.version :: more))

/-- The value is a text, namely this one. -/
def IsText (text : Option String) (value : Toml.Value) : Prop :=
  ∃ s, text = some s ∧ value = .string s

/-- What the entries of a table make of an application that has been read in part. -/
@[mk_iff] structure Draft.Filled (before after : Draft) (entries : Toml.Entries) : Prop where
  known : ∀ entry ∈ entries, entry.1 ∈ keys
  id : Toml.Gives entries "id" IsText before.id after.id
  version : Toml.Gives entries "version" IsText before.version after.version

theorem Draft.filled_nil {before after : Draft} : Filled before after [] ↔ after = before := by
  obtain ⟨id, version⟩ := before
  obtain ⟨id', version'⟩ := after
  simp [filled_iff]

theorem Draft.add_unknown (draft : Draft) {entry : String × Toml.Value} (h : entry.1 ∉ keys) :
    draft.add entry = .error (.unknownField entry.1 keys) := by
  unfold add
  split <;> simp_all [keys]

theorem Draft.filled_cons {before after : Draft} {entry : String × Toml.Value}
    {entries : Toml.Entries} (h : entry.1 ∉ entries.map Prod.fst) :
    Filled before after (entry :: entries) ↔
      ∃ draft, before.add entry = .ok draft ∧ Filled draft after entries := by
  by_cases hknown : entry.1 ∈ keys
  · obtain ⟨key, value⟩ := entry
    simp only [keys, List.mem_cons, List.not_mem_nil, or_false] at hknown
    rcases hknown with rfl | rfl
    all_goals
      simp only [filled_iff, List.forall_mem_cons, Toml.gives_cons_self, Toml.gives_absent h, add,
        bind_eq_ok_iff, Toml.Value.asString_eq_ok_iff, ne_eq, String.reduceEq, not_false_eq_true,
        Toml.gives_cons_ne, IsText]
      grind [keys]
  · simp [add_unknown before hknown, filled_iff, hknown]

theorem Draft.finish_eq_ok_iff {draft : Draft} {app : InstalledApp} :
    draft.finish = .ok app ↔ draft = ⟨some app.id, some app.version⟩ := by
  obtain ⟨id, version⟩ := draft
  obtain ⟨id', version'⟩ := app
  cases id <;> cases version <;> simp [finish]

/-- A table makes an application exactly if it consists of the two entries. -/
theorem Draft.filled_iff_perm {entries : Toml.Entries} (once : (entries.map Prod.fst).Nodup)
    {id version : String} :
    Filled {} ⟨some id, some version⟩ entries ↔
      entries.Perm [("id", .string id), ("version", .string version)] := by
  constructor
  · rintro ⟨known, hid, hversion⟩
    simp only [Toml.Gives, IsText, reduceCtorEq, and_false, false_or, Option.some.injEq,
      exists_eq_left', ↓existsAndEq, and_true] at hid hversion
    refine (List.perm_ext_iff_of_nodup once.of_map (by simp)).2 fun ⟨key, value⟩ => ?_
    simp only [keys] at known
    rw [← lookup_eq_some_iff_mem once]
    constructor
    · intro hfound
      have hkey := known _ (Toml.Entries.mem_of_lookup hfound)
      grind
    · intro hmem
      grind
  · intro h
    have hid : entries.lookup "id" = some (.string id) := by
      rw [lookup_perm h (by simp)]
      rfl
    have hversion : entries.lookup "version" = some (.string version) := by
      rw [lookup_perm h (by simp)]
      rfl
    refine ⟨fun entry hentry => ?_, .inr ⟨_, hid, _, rfl, rfl⟩, .inr ⟨_, hversion, _, rfl, rfl⟩⟩
    have hmem := h.mem_iff.1 hentry
    grind [keys]

/-- An application is read from what is written for it, and from nothing else. -/
theorem ofToml_eq_ok_iff {value : Toml.Value} (h : value.WellKeyed) {app : InstalledApp} :
    ofToml value = .ok app ↔ app.WrittenAs value := by
  cases value with
  | table origin entries =>
    have hkeyed := Toml.Value.wellKeyed_table_iff.1 h
    have hfold {draft : Draft} : entries.foldlM Draft.add {} = .ok draft ↔
        Draft.Filled {} draft entries :=
      foldlM_eq_ok_iff Draft.filled_nil (fun hkey _ => Draft.filled_cons hkey) hkeyed
    simp only [ofToml, bind_eq_ok_iff, hfold, Draft.finish_eq_ok_iff, exists_eq_right,
      Draft.filled_iff_perm hkeyed.once]
    exact ⟨.table, fun | .table hperm => hperm⟩
  | array origin items =>
    constructor
    · intro hread
      match items with
      | [] => cases hread
      | [first] =>
        obtain ⟨text, -, hread⟩ := exists_of_bind_ok hread
        cases hread
      | first :: second :: more =>
        obtain ⟨id, hid, hread⟩ := exists_of_bind_ok hread
        obtain ⟨version, hversion, hread⟩ := exists_of_bind_ok hread
        cases hread
        rw [Toml.Value.asString_eq_ok_iff.1 hid, Toml.Value.asString_eq_ok_iff.1 hversion]
        exact .array
    · intro hwritten
      cases hwritten
      rfl
  | _ =>
    constructor
    · intro hread
      cases hread
    · intro hwritten
      cases hwritten

end InstalledApp

/-! ### Configurations -/

namespace Configuration

/-- The value is an array of these applications. -/
def AreApps (apps : List InstalledApp) (value : Toml.Value) : Prop :=
  ∃ origin items, value = .array origin items ∧
    List.Forall₂ (fun item app => app.WrittenAs item) items apps

/-- What the entries of a table make of a configuration that has been read in part: every key is
known, and every field has the value that is written for it or keeps the one that it had. -/
@[mk_iff] structure WrittenOver (before after : Configuration) (entries : Toml.Entries) : Prop where
  known : ∀ entry ∈ entries, entry.1 ∈ keys
  track : Toml.Gives entries "track" Toml.IsString before.track after.track
  machineId : Toml.Gives entries "machine_id" Toml.IsString before.machineId after.machineId
  bootId : Toml.Gives entries "boot_id" Toml.IsString before.bootId after.bootId
  oem : Toml.Gives entries "oem" Toml.IsString before.oem after.oem
  ping : Toml.Gives entries "ping" Toml.IsBoolean before.ping after.ping
  updateCheck : Toml.Gives entries "update_check" Toml.IsBoolean before.updateCheck
    after.updateCheck
  apps : Toml.Gives entries "apps" AreApps before.apps after.apps

/-- How a configuration is written: every key is known, and every field has the value that is
written for it, or its default. -/
def WrittenAs (configuration : Configuration) (entries : Toml.Entries) : Prop :=
  WrittenOver ⟨"", "", "", "", true, true, []⟩ configuration entries

theorem writtenOver_nil {before after : Configuration} :
    WrittenOver before after [] ↔ after = before := by
  obtain ⟨⟩ := before
  obtain ⟨⟩ := after
  simp [writtenOver_iff]

theorem add_unknown (before : Configuration) {entry : String × Toml.Value} (h : entry.1 ∉ keys) :
    before.add entry = .error (.unknownField entry.1 keys) := by
  unfold add
  split <;> simp_all [keys]

theorem areApps_iff {value : Toml.Value} (h : value.WellKeyed) {apps : List InstalledApp} :
    AreApps apps value ↔
      ∃ items, value.asArray = .ok items ∧ items.mapM InstalledApp.ofToml = .ok apps := by
  simp only [Toml.Value.asArray_eq_ok_iff, mapM_eq_ok_iff]
  constructor
  · rintro ⟨origin, items, rfl, hitems⟩
    have hkeyed := Toml.Value.wellKeyed_array_iff.1 h
    exact ⟨items, ⟨origin, rfl⟩, forall₂_of_mem hitems fun item hitem app hwritten =>
      (InstalledApp.ofToml_eq_ok_iff (hkeyed item hitem)).2 hwritten⟩
  · rintro ⟨items, ⟨origin, rfl⟩, hitems⟩
    have hkeyed := Toml.Value.wellKeyed_array_iff.1 h
    exact ⟨origin, items, rfl, forall₂_of_mem hitems fun item hitem app hread =>
      (InstalledApp.ofToml_eq_ok_iff (hkeyed item hitem)).1 hread⟩

theorem writtenOver_cons {before after : Configuration} {entry : String × Toml.Value}
    {entries : Toml.Entries} (h : entry.1 ∉ entries.map Prod.fst) (hvalue : entry.2.WellKeyed) :
    WrittenOver before after (entry :: entries) ↔
      ∃ middle, before.add entry = .ok middle ∧ WrittenOver middle after entries := by
  by_cases hknown : entry.1 ∈ keys
  · obtain ⟨key, value⟩ := entry
    simp only [keys, List.mem_cons, List.not_mem_nil, or_false] at hknown
    rcases hknown with rfl | rfl | rfl | rfl | rfl | rfl | rfl
    all_goals
      simp only [writtenOver_iff, List.forall_mem_cons, Toml.gives_cons_self, Toml.gives_absent h,
        add, bind_eq_ok_iff, Toml.Value.asString_eq_ok_iff, Toml.Value.asBoolean_eq_ok_iff, ne_eq,
        String.reduceEq, not_false_eq_true, Toml.gives_cons_ne, Toml.IsString, Toml.IsBoolean,
        areApps_iff hvalue]
      grind [keys]
  · simp [add_unknown before hknown, writtenOver_iff, hknown]

/-- A configuration is read from what is written for it, and from nothing else. -/
theorem ofToml_eq_ok_iff {entries : Toml.Entries} (h : entries.WellKeyed)
    {configuration : Configuration} :
    ofToml entries = .ok configuration ↔ configuration.WrittenAs entries :=
  foldlM_eq_ok_iff writtenOver_nil writtenOver_cons h

/-- An entry that a configuration may have: a text, a truth value, or an array of applications,
under a key for it. -/
inductive Admits : String × Toml.Value → Prop
  | text {key text : String} (h : key ∈ ["track", "machine_id", "boot_id", "oem"]) :
      Admits (key, .string text)
  | flag {key : String} {flag : Bool} (h : key ∈ ["ping", "update_check"]) :
      Admits (key, .boolean flag)
  | apps {origin : Toml.ArrayOrigin} {items : List Toml.Value}
      (h : ∀ item ∈ items, ∃ app : InstalledApp, app.WrittenAs item) :
      Admits ("apps", .array origin items)

/-- An entry can be read, after whatever has been read before, exactly if it is admitted. -/
theorem exists_add_iff (before : Configuration) {entry : String × Toml.Value}
    (h : entry.2.WellKeyed) : (∃ after, before.add entry = .ok after) ↔ Admits entry := by
  obtain ⟨key, value⟩ := entry
  constructor
  · rintro ⟨after, hadd⟩
    unfold add at hadd
    split at hadd
    case h_1 hkey | h_2 hkey | h_3 hkey | h_4 hkey =>
      obtain ⟨text, htext, -⟩ := exists_of_bind_ok hadd
      obtain rfl : value = .string text := Toml.Value.asString_eq_ok_iff.1 htext
      exact .text (by simp_all)
    case h_5 hkey | h_6 hkey =>
      obtain ⟨flag, hflag, -⟩ := exists_of_bind_ok hadd
      obtain rfl : value = .boolean flag := Toml.Value.asBoolean_eq_ok_iff.1 hflag
      exact .flag (by simp_all)
    case h_7 hkey =>
      obtain ⟨found, hfound, hadd⟩ := exists_of_bind_ok hadd
      obtain ⟨apps, happs, -⟩ := exists_of_bind_ok hadd
      obtain ⟨origin, items, hvalue, hwritten⟩ := (areApps_iff h).2 ⟨found, hfound, happs⟩
      obtain rfl : key = "apps" := hkey
      obtain rfl : value = .array origin items := hvalue
      exact .apps (exists_forall₂_iff.1 ⟨apps, hwritten⟩)
    case h_8 => cases hadd
  · intro hadmits
    cases hadmits with
    | text hkey =>
      simp only [List.mem_cons, List.not_mem_nil, or_false] at hkey
      rcases hkey with rfl | rfl | rfl | rfl
      all_goals exact ⟨_, rfl⟩
    | flag hkey =>
      simp only [List.mem_cons, List.not_mem_nil, or_false] at hkey
      rcases hkey with rfl | rfl
      all_goals exact ⟨_, rfl⟩
    | apps hitems =>
      obtain ⟨apps, hwritten⟩ := exists_forall₂_iff.2 hitems
      obtain ⟨items, hitems, happs⟩ := (areApps_iff h).1 ⟨_, _, rfl, hwritten⟩
      exact ⟨_, bind_eq_ok_iff.2 ⟨items, hitems, bind_eq_ok_iff.2 ⟨apps, happs, rfl⟩⟩⟩

theorem exists_foldlM_add_iff (before : Configuration) {entries : Toml.Entries}
    (h : ∀ entry ∈ entries, entry.2.WellKeyed) :
    (∃ after, entries.foldlM add before = .ok after) ↔ ∀ entry ∈ entries, Admits entry := by
  induction entries generalizing before with
  | nil => exact ⟨fun _ => by simp, fun _ => ⟨before, rfl⟩⟩
  | cons entry entries ih =>
    obtain ⟨hentry, hentries⟩ := List.forall_mem_cons.1 h
    rw [List.forall_mem_cons, ← exists_add_iff before hentry]
    simp only [List.foldlM_cons, bind_eq_ok_iff]
    constructor
    · rintro ⟨after, middle, hmiddle, hafter⟩
      exact ⟨⟨middle, hmiddle⟩, (ih middle hentries).1 ⟨after, hafter⟩⟩
    · rintro ⟨⟨middle, hmiddle⟩, hadmits⟩
      obtain ⟨after, hafter⟩ := (ih middle hentries).2 hadmits
      exact ⟨after, middle, hmiddle, hafter⟩

theorem parse_of_entries {text : String} {entries : Toml.Entries}
    (h : Toml.parse text.toList = some entries) (path : String) :
    parse path text = (ofToml entries).mapError (.invalid path) := by
  rw [parse, h]

theorem parse_eq_ok_iff {text : String} {entries : Toml.Entries}
    (h : Toml.parse text.toList = some entries) (path : String) {configuration : Configuration} :
    parse path text = .ok configuration ↔ ofToml entries = .ok configuration := by
  rw [parse_of_entries h]
  cases ofToml entries with
  | error fault => simp [Except.mapError]
  | ok found => simp [Except.mapError]

/-- The schema is strict, but for what may stand in an application that is an array.  A document
makes a configuration exactly if every entry is admitted; the configuration is the one that the
entries are written for, with every field that has no entry at its default; and any other document
is refused, for a fault in its entries. -/
theorem parse_schema {text : String} {entries : Toml.Entries}
    (h : Toml.parse text.toList = some entries) (path : String) :
    ((∃ configuration, parse path text = .ok configuration) ↔ ∀ entry ∈ entries, Admits entry) ∧
    (∀ configuration : Configuration,
      parse path text = .ok configuration ↔ configuration.WrittenAs entries) ∧
    (¬(∀ entry ∈ entries, Admits entry) →
      ∃ fault, parse path text = .error (.invalid path fault)) := by
  have hkeyed := Toml.wellKeyed_of_parse h
  have hexists : (∃ configuration, parse path text = .ok configuration) ↔
      ∀ entry ∈ entries, Admits entry := by
    simp only [parse_eq_ok_iff h]
    exact exists_foldlM_add_iff _ hkeyed.values
  refine ⟨hexists, fun configuration => ?_, fun hfault => ?_⟩
  · rw [parse_eq_ok_iff h, ofToml_eq_ok_iff hkeyed]
  · rw [← hexists] at hfault
    cases hentries : ofToml entries with
    | ok configuration => exact absurd ⟨configuration, (parse_eq_ok_iff h path).2 hentries⟩ hfault
    | error fault => exact ⟨fault, by rw [parse_of_entries h, hentries]; rfl⟩

/-- A document with a text, a truth value and an application. -/
def sampleText : String :=
  "oem = \"lab\"\nping = false\n[[apps]]\nversion = \"1.2\"\nid = \"a\"\n"

/-- The table of the document. -/
def sampleEntries : Toml.Entries :=
  [("oem", .string "lab"), ("ping", .boolean false),
    ("apps", .array .headers [.table .header [("version", .string "1.2"), ("id", .string "a")]])]

theorem parse_sampleText :
    Toml.parse sampleText.toList = some sampleEntries ∧
    ((∃ configuration, parse "config.toml" sampleText = .ok configuration) ↔
      ∀ entry ∈ sampleEntries, Admits entry) ∧
    (∀ configuration : Configuration,
      parse "config.toml" sampleText = .ok configuration ↔
        configuration.WrittenAs sampleEntries) ∧
    (¬(∀ entry ∈ sampleEntries, Admits entry) →
      ∃ fault, parse "config.toml" sampleText = .error (.invalid "config.toml" fault)) :=
  have h : Toml.parse sampleText.toList = some sampleEntries := by rfl
  ⟨h, parse_schema h "config.toml"⟩

/-- An application may be an array, and of an array only the first two items are looked at: the
third one here is ignored. -/
theorem parse_arrayApp :
    parse "config.toml" "apps = [[\"a\", \"1\", \"x\"]]" = .ok { apps := [⟨"a", "1"⟩] } := by
  rfl

end Configuration

end UpdateProtocol

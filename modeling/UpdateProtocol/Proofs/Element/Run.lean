import UpdateProtocol.Proofs.Element.Reading
import UpdateProtocol.Proofs.Markup.Aside

/-!
# Successful readings

`Run` says what a reading that succeeds does, step by step and without fuel: one constructor for
each of the steps of an element, of its children and of the members of a list.  A reading with
enough fuel succeeds exactly if there is a run (`read_eq_ok_iff`), so what holds of every run by
induction holds of everything that is ever read from a document.
-/

namespace UpdateProtocol

open Markup (Item Source Tag)
open Markup.Source (Taken)

/-- Whether a field may be marked as absent. -/
def Field.isNullable : Field → Bool
  | .attr type => type.nullable
  | .child type => type.isNullable
  | .member _ => false

namespace Element

/-- What is being read: an element whose start tag has been read, the rest of an element of which a
draft has been read, or the rest of a list with what stands between its members set aside. -/
inductive Task where
  | element (type : ElementType) (tag : Tag)
  | children (type : ElementType) (tag : Tag) (draft : Draft)
  | members (part : ElementType) (name : List Char) (members : List Element) (aside : List Item)

/-- The items that have been set aside, the last one first. -/
def Task.aside : Task → List Item
  | element _ _ => []
  | children _ _ _ => []
  | members _ _ _ aside => aside

/-- What is found and what is left by a reading that succeeds. -/
inductive Run : Task → Source → List Element → Source → Prop
  | element {type : ElementType} {tag : Tag} {draft : Draft} {source after : Source}
      {found : List Element} (attributes : readAttributes type {} (tag.attributes true) = .ok draft)
      (rest : Run (.children type tag draft) source found after) :
      Run (.element type tag) source found after
  | text {type : ElementType} {tag : Tag} {draft : Draft} {source middle after : Source}
      {found : List Element} {content : List Char}
      (first : source.next = .ok (.text content, middle))
      (rest : Run (.children type tag draft) middle found after) :
      Run (.children type tag draft) source found after
  | finish {type : ElementType} {tag : Tag} {draft : Draft} {source after : Source}
      {name : List Char} {element : Element} (first : source.next = .ok (.finish name, after))
      (complete : draft.finish type = .ok element) :
      Run (.children type tag draft) source [element] after
  | foreign {type : ElementType} {tag next : Tag} {draft : Draft}
      {source middle later after : Source} {found : List Element}
      (first : source.next = .ok (.start next, middle)) (unknown : type.named? next.name = none)
      (skip : middle.skip next.name = .ok later)
      (rest : Run (.children type tag draft) later found after) :
      Run (.children type tag draft) source found after
  | absent {type : ElementType} {tag next : Tag} {draft met : Draft} {field : Field}
      {source middle later after : Source} {found : List Element}
      (first : source.next = .ok (.start next, middle))
      (known : type.named? next.name = some field) (new : draft.meet field = .ok met)
      (absent : (field.isNullable && isAbsent middle tag next) = true)
      (skip : middle.skip next.name = .ok later)
      (rest : Run (.children type tag met) later found after) :
      Run (.children type tag draft) source found after
  | attr {type : ElementType} {tag next : Tag} {draft met : Draft} {kind : AttributeType}
      {value : Value} {text : List Char} {source middle later after : Source}
      {found : List Element} (first : source.next = .ok (.start next, middle))
      (known : type.named? next.name = some (.attr kind))
      (new : draft.meet (.attr kind) = .ok met)
      (present : (kind.nullable && isAbsent middle tag next) = false)
      (content : readContent next.name middle = .ok (text, later))
      (read : kind.form.read text = .ok value)
      (rest : Run (.children type tag (met.addAttribute kind value)) later found after) :
      Run (.children type tag draft) source found after
  | child {type part : ElementType} {tag next : Tag} {draft met : Draft} {child : Element}
      {source middle later after : Source} {found : List Element}
      (first : source.next = .ok (.start next, middle))
      (known : type.named? next.name = some (.child part))
      (new : draft.meet (.child part) = .ok met)
      (present : (part.isNullable && isAbsent middle tag next) = false)
      (inner : Run (.element part next) middle [child] later)
      (rest : Run (.children type tag (met.addChild child)) later found after) :
      Run (.children type tag draft) source found after
  | list {type part : ElementType} {tag next : Tag} {draft met : Draft} {member : Element}
      {members found : List Element} {source middle later last after : Source}
      (first : source.next = .ok (.start next, middle))
      (known : type.named? next.name = some (.member part))
      (new : draft.meet (.member part) = .ok met)
      (inner : Run (.element part next) middle [member] later)
      (more : Run (.members part next.name [member] []) later members last)
      (rest : Run (.children type tag (met.addChildren members)) last found after) :
      Run (.children type tag draft) source found after
  | ended {part : ElementType} {name found : List Char} {members : List Element}
      {aside : List Item} {source middle : Source}
      (first : source.next = .ok (.finish found, middle)) :
      Run (.members part name members aside) source members
        ⟨aside.reverse ++ .finish found :: middle.replay, middle.unread⟩
  | member {part : ElementType} {name : List Char} {next : Tag} {member : Element}
      {members found : List Element} {aside : List Item} {source middle later after : Source}
      (first : source.next = .ok (.start next, middle)) (same : next.name = name)
      (inner : Run (.element part next) middle [member] later)
      (rest : Run (.members part name (member :: members) aside) later found after) :
      Run (.members part name members aside) source found after
  | aside {part : ElementType} {name : List Char} {next : Tag} {members found : List Element}
      {aside items : List Item} {source middle later after : Source}
      (first : source.next = .ok (.start next, middle)) (other : next.name ≠ name)
      (taken : Taken next.name 0 middle items later)
      (rest : Run (.members part name members (items.reverse ++ .start next :: aside)) later found
        after) :
      Run (.members part name members aside) source found after

/-! ### Progress -/

theorem lift_eq_ok {α : Type} {x : Except Markup.Error α} {a : α}
    (h : (liftM x : Except SchemaError α) = .ok a) : x = .ok a := by
  cases x with
  | error => cases h
  | ok b =>
    cases h
    rfl

/-- The content of an element that holds only text is read up to its end tag. -/
theorem readContent_cases {name text : List Char} {source after : Source}
    (h : readContent name source = .ok (text, after)) :
    (∃ found, source.next = .ok (.finish found, after) ∧ text = []) ∨
      ∃ middle found, source.next = .ok (.text text, middle) ∧
        middle.next = .ok (.finish found, after) := by
  obtain ⟨⟨item, middle⟩, hnext, h⟩ := exists_of_bind_ok h
  cases item with
  | text content =>
    obtain ⟨⟨item, last⟩, hlast, h⟩ := exists_of_bind_ok h
    cases item with
    | finish found =>
      cases h
      exact .inr ⟨middle, found, lift_eq_ok hnext, lift_eq_ok hlast⟩
    | _ => cases h
  | finish found =>
    cases h
    exact .inl ⟨found, lift_eq_ok hnext, rfl⟩
  | _ => cases h

theorem readContent_le {name text : List Char} {source after : Source}
    (h : readContent name source = .ok (text, after)) :
    after.size ≤ source.size ∧ after.replay ⊆ source.replay := by
  rcases readContent_cases h with ⟨found, hnext, -⟩ | ⟨middle, found, htext, hnext⟩
  · have hmarks := Source.next_marks hnext
    exact ⟨Nat.le_of_lt (hmarks.2.1 (by simp)), hmarks.2.2⟩
  · have hfirst := Source.next_marks htext
    have hmarks := Source.next_marks hnext
    have hle := hfirst.2.1 (by simp)
    have hlt := hmarks.2.1 (by simp)
    exact ⟨by omega, List.Subset.trans hmarks.2.2 hfirst.2.2⟩

namespace Run

variable {task : Task} {source after : Source} {found : List Element}

/-- A run leaves no more than was there, but for what had been set aside. -/
theorem size_le (h : Run task source found after) :
    after.size ≤ source.size + task.aside.length := by
  induction h with
  | element _ _ ih => exact ih
  | text first _ ih =>
    have hfirst := (Source.next_marks first).2.1 (by simp)
    exact Nat.le_trans ih (Nat.le_of_lt hfirst)
  | finish first _ => exact Nat.le_of_lt ((Source.next_marks first).2.1 (by simp))
  | foreign first _ skip _ ih =>
    have hfirst := (Source.next_marks first).2.1 (by simp)
    have hskip := (Source.skip_marks skip).2.1
    simp only [Task.aside, List.length_nil] at ih ⊢
    omega
  | absent first _ _ _ skip _ ih =>
    have hfirst := (Source.next_marks first).2.1 (by simp)
    have hskip := (Source.skip_marks skip).2.1
    simp only [Task.aside, List.length_nil] at ih ⊢
    omega
  | attr first _ _ _ content _ _ ih =>
    have hfirst := (Source.next_marks first).2.1 (by simp)
    have hcontent := (readContent_le content).1
    simp only [Task.aside, List.length_nil] at ih ⊢
    omega
  | child first _ _ _ _ _ inner ih =>
    have hfirst := (Source.next_marks first).2.1 (by simp)
    simp only [Task.aside, List.length_nil] at inner ih ⊢
    omega
  | list first _ _ _ _ _ inner more ih =>
    have hfirst := (Source.next_marks first).2.1 (by simp)
    simp only [Task.aside, List.length_nil] at inner more ih ⊢
    omega
  | ended first =>
    have hfirst := (Source.next_marks first).2.1 (by simp)
    simp only [Task.aside, Source.size, List.length_append, List.length_reverse,
      List.length_cons] at hfirst ⊢
    omega
  | member first _ _ _ inner ih =>
    have hfirst := (Source.next_marks first).2.1 (by simp)
    simp only [Task.aside, List.length_nil] at inner ih ⊢
    omega
  | aside first _ taken _ ih =>
    have hfirst := (Source.next_marks first).2.1 (by simp)
    have htaken := taken.size_le
    simp only [Task.aside, List.length_append, List.length_reverse, List.length_cons] at ih ⊢
    omega

/-- A run does not put the end of the document in front again. -/
theorem proper (h : Run task source found after) (hsource : source.Proper)
    (haside : .eof ∉ task.aside) : after.Proper := by
  induction h with
  | element _ _ ih => exact ih hsource haside
  | text first _ ih => exact ih (hsource.next first) haside
  | finish first _ => exact hsource.next first
  | foreign first _ skip _ ih =>
    exact ih (fun hmem => hsource.next first ((Source.skip_marks skip).2.2 hmem)) haside
  | absent first _ _ _ skip _ ih =>
    exact ih (fun hmem => hsource.next first ((Source.skip_marks skip).2.2 hmem)) haside
  | attr first _ _ _ content _ _ ih =>
    exact ih (fun hmem => hsource.next first ((readContent_le content).2 hmem)) haside
  | child first _ _ _ _ _ inner ih => exact ih (inner (hsource.next first) haside) haside
  | list first _ _ _ _ _ inner more ih =>
    exact ih (more (inner (hsource.next first) haside) haside) haside
  | ended first =>
    have hmiddle := hsource.next first
    simp only [Source.Proper, List.mem_append, List.mem_reverse, List.mem_cons] at hmiddle ⊢
    rintro (hmem | hmem | hmem)
    · exact haside hmem
    · cases hmem
    · exact hmiddle hmem
  | member first _ _ _ inner ih =>
    exact ih (inner (hsource.next first) (by simp [Task.aside])) haside
  | aside first _ taken _ ih =>
    refine ih (fun hmem => hsource.next first (taken.proper.2 hmem)) fun hmem => ?_
    simp only [Task.aside, List.mem_append, List.mem_reverse, List.mem_cons] at hmem haside
    rcases hmem with hmem | hmem | hmem
    · exact taken.proper.1 hmem
    · cases hmem
    · exact haside hmem

end Run

/-! ### From readings to runs -/

theorem next_of_peek {source peeked : Source} {item : Item}
    (h : source.peek = .ok (item, peeked)) :
    ∃ after, source.next = .ok (item, after) ∧ peeked = ⟨item :: after.replay, after.unread⟩ := by
  obtain ⟨replay, unread⟩ := source
  cases replay with
  | cons first replay =>
    cases h
    exact ⟨_, rfl, rfl⟩
  | nil =>
    obtain ⟨⟨item, unread'⟩, hnext, h⟩ := exists_of_bind_ok h
    cases h
    refine ⟨⟨[], unread'⟩, ?_, rfl⟩
    rw [Source.next, hnext]
    rfl

/-- Readings with this fuel, if it is enough, are runs. -/
structure Sound (fuel : Nat) : Prop where
  element : ∀ {type : ElementType} {tag : Tag} {source after : Source} {element : Element},
    3 * source.size + 1 ≤ fuel → source.Proper →
      readElement fuel type tag source = .ok (element, after) →
        Run (.element type tag) source [element] after
  children : ∀ {type : ElementType} {tag : Tag} {draft : Draft} {source after : Source}
      {element : Element}, 3 * source.size ≤ fuel → source.Proper →
    readChildren fuel type tag draft source = .ok (element, after) →
      Run (.children type tag draft) source [element] after
  members : ∀ {part : ElementType} {parent : Tag} {name : List Char}
      {members found : List Element} {aside : List Item} {source after : Source},
    3 * source.size ≤ fuel + 1 → source.Proper →
      readMembers fuel part parent name members aside source = .ok (found, after) →
        Run (.members part name members aside) source found after

namespace Sound

variable {fuel : Nat} {type part : ElementType} {tag parent : Tag} {draft : Draft}
  {source after : Source} {element : Element} {name : List Char} {members found : List Element}
  {aside : List Item}

/-- The end of the document is no place to end an element at. -/
theorem not_ended
    (h : readMembers fuel part parent name members aside source = .ok (found, after)) :
    ¬ source.Ended := by
  intro hended
  obtain ⟨last, hnext⟩ := hended.next
  cases fuel with
  | zero => cases h
  | succ fuel =>
    simp only [readMembers, Source.peek_of_next hnext, lift_ok, ok_bind] at h
    cases h

theorem succ_members (h : Sound fuel) (hfuel : 3 * source.size ≤ fuel + 2) (proper : source.Proper)
    (hread : readMembers (fuel + 1) part parent name members aside source = .ok (found, after)) :
    Run (.members part name members aside) source found after := by
  obtain ⟨⟨item, peeked⟩, hpeek, -⟩ := exists_of_bind_ok hread
  obtain ⟨⟨replay, unread⟩, hnext, -⟩ := next_of_peek (lift_eq_ok hpeek)
  cases item with
  | text content =>
    simp only [readMembers, Source.peek_of_next hnext, lift_ok, ok_bind] at hread
    cases hread
  | eof =>
    simp only [readMembers, Source.peek_of_next hnext, lift_ok, ok_bind] at hread
    cases hread
  | finish last =>
    rw [readMembers_finish hnext] at hread
    cases hread
    exact .ended hnext
  | start next =>
    have hsize := (Source.next_marks hnext).2.1 (by simp)
    have hproper := proper.next hnext
    simp only [readMembers, Source.peek_of_next hnext, lift_ok, ok_bind, next_replay] at hread
    split at hread
    · next hname =>
      obtain ⟨⟨member, later⟩, hmember, hread⟩ := exists_of_bind_ok hread
      have hinner := h.element (by omega) hproper hmember
      have hle := hinner.size_le
      simp only [Task.aside, List.length_nil] at hle
      exact .member hnext (eq_of_beq hname) hinner
        (h.members (by omega) (hinner.proper hproper (by simp [Task.aside])) hread)
    · next hname =>
      obtain ⟨⟨all, later⟩, htake, hread⟩ := exists_of_bind_ok hread
      obtain ⟨items, rfl, htaken⟩ | hended :=
        Source.taken_of_takeElement (lift_eq_ok htake) hproper (by omega)
      · have hle := htaken.size_le
        exact .aside hnext (by simpa using hname) htaken
          (h.members (by omega) (fun hmem => hproper (htaken.proper.2 hmem)) hread)
      · exact absurd hended (not_ended hread)

/-- A list is read from its first member, which is looked at before the list begins. -/
theorem list (h : Sound fuel) {next : Tag} {replay : List Item} {unread : Markup.Remainder}
    (hfuel : 3 * (Source.size ⟨replay, unread⟩ + 1) ≤ fuel + 1)
    (proper : Source.Proper ⟨replay, unread⟩)
    (hread : readMembers fuel part parent next.name [] [] ⟨.start next :: replay, unread⟩ =
      .ok (found, after)) :
    ∃ member later, Run (.element part next) ⟨replay, unread⟩ [member] later ∧
      Run (.members part next.name [member] []) later found after := by
  have hsize : Source.size ⟨.start next :: replay, unread⟩ = Source.size ⟨replay, unread⟩ + 1 := by
    simp only [Source.size, List.length_cons]
    omega
  have hproper : Source.Proper ⟨.start next :: replay, unread⟩ := by
    simpa [Source.Proper] using proper
  cases h.members (by omega) hproper hread with
  | ended first => cases first
  | member first _ inner rest =>
    cases first
    exact ⟨_, _, inner, rest⟩
  | aside first other _ _ =>
    cases first
    exact absurd rfl other

theorem succ_children (h : Sound fuel) (hfuel : 3 * source.size ≤ fuel + 1)
    (proper : source.Proper)
    (hread : readChildren (fuel + 1) type tag draft source = .ok (element, after)) :
    Run (.children type tag draft) source [element] after := by
  obtain ⟨⟨item, peeked⟩, hpeek, -⟩ := exists_of_bind_ok hread
  obtain ⟨⟨replay, unread⟩, hnext, -⟩ := next_of_peek (lift_eq_ok hpeek)
  have hproper := proper.next hnext
  cases item with
  | text content =>
    have hsize := (Source.next_marks hnext).2.1 (by simp)
    rw [readChildren_text hnext] at hread
    exact .text hnext (h.children (by omega) hproper hread)
  | eof =>
    simp only [readChildren, Source.peek_of_next hnext, lift_ok, ok_bind] at hread
    cases hread
  | finish last =>
    rw [readChildren_finish hnext] at hread
    obtain ⟨element, hfinish, hread⟩ := exists_of_bind_ok hread
    cases hread
    exact .finish hnext hfinish
  | start next =>
    have hsize := (Source.next_marks hnext).2.1 (by simp)
    simp only [readChildren, Source.peek_of_next hnext, lift_ok, ok_bind, next_replay] at hread
    split at hread
    · next hfield =>
      obtain ⟨later, hskip, hread⟩ := exists_of_bind_ok hread
      have hskip := lift_eq_ok hskip
      have hmarks := Source.skip_marks hskip
      exact .foreign hnext hfield hskip
        (h.children (by omega) (fun hmem => hproper (hmarks.2.2 hmem)) hread)
    · next kind hfield =>
      obtain ⟨met, hmet, hread⟩ := exists_of_bind_ok hread
      split at hread
      · next habsent =>
        obtain ⟨later, hskip, hread⟩ := exists_of_bind_ok hread
        have hskip := lift_eq_ok hskip
        have hmarks := Source.skip_marks hskip
        exact .absent hnext hfield hmet habsent hskip
          (h.children (by omega) (fun hmem => hproper (hmarks.2.2 hmem)) hread)
      · next hpresent =>
        obtain ⟨⟨text, later⟩, hcontent, hread⟩ := exists_of_bind_ok hread
        obtain ⟨value, hvalue, hread⟩ := exists_of_bind_ok hread
        have hle := readContent_le hcontent
        exact .attr hnext hfield hmet (Bool.eq_false_iff.2 hpresent) hcontent hvalue
          (h.children (by omega) (fun hmem => hproper (hle.2 hmem)) hread)
    · next part hfield =>
      obtain ⟨met, hmet, hread⟩ := exists_of_bind_ok hread
      split at hread
      · next habsent =>
        obtain ⟨later, hskip, hread⟩ := exists_of_bind_ok hread
        have hskip := lift_eq_ok hskip
        have hmarks := Source.skip_marks hskip
        exact .absent hnext hfield hmet habsent hskip
          (h.children (by omega) (fun hmem => hproper (hmarks.2.2 hmem)) hread)
      · next hpresent =>
        obtain ⟨⟨child, later⟩, hchild, hread⟩ := exists_of_bind_ok hread
        have hinner := h.element (by omega) hproper hchild
        have hle := hinner.size_le
        simp only [Task.aside, List.length_nil] at hle
        exact .child hnext hfield hmet (Bool.eq_false_iff.2 hpresent) hinner
          (h.children (by omega) (hinner.proper hproper (by simp [Task.aside])) hread)
    · next part hfield =>
      obtain ⟨met, hmet, hread⟩ := exists_of_bind_ok hread
      obtain ⟨⟨members, last⟩, hmembers, hread⟩ := exists_of_bind_ok hread
      obtain ⟨member, later, hinner, hmore⟩ := h.list (by omega) hproper hmembers
      have hle := hinner.size_le
      have hleMore := hmore.size_le
      simp only [Task.aside, List.length_nil] at hle hleMore
      exact .list hnext hfield hmet hinner hmore (h.children (by omega)
        (hmore.proper (hinner.proper hproper (by simp [Task.aside])) (by simp [Task.aside])) hread)

end Sound

theorem sound (fuel : Nat) : Sound fuel := by
  induction fuel with
  | zero =>
    refine ⟨fun hfuel => by omega, fun {_ _ _ source} _ _ hfuel => ?_,
      fun {_ _ _ _ _ _ source} _ hfuel => ?_⟩ <;>
    · simp only [Source.size] at hfuel
      omega
  | succ fuel ih =>
    refine ⟨fun hfuel proper hread => ?_, ih.succ_children, ih.succ_members⟩
    obtain ⟨draft, hattributes, hread⟩ := exists_of_bind_ok hread
    exact .element hattributes (ih.children (by omega) proper hread)

/-! ### From runs to readings -/

/-- Do a task with some fuel, inside of an element with this tag. -/
def Task.read (parent : Tag) (fuel : Nat) (source : Source) :
    Task → Except SchemaError (List Element × Source)
  | element type tag => do
      let found ← readElement fuel type tag source
      .ok ([found.1], found.2)
  | children type tag draft => do
      let found ← readChildren fuel type tag draft source
      .ok ([found.1], found.2)
  | members part name found aside => readMembers fuel part parent name found aside source

/-- How much fuel a task needs at most for a source of some size. -/
def Task.fuel (size : Nat) : Task → Nat
  | element _ _ => 3 * size + 1
  | children _ _ _ => 3 * size
  | members _ _ _ _ => 3 * size - 1

section Read

variable {fuel : Nat} {type : ElementType} {tag parent : Tag} {draft : Draft}
  {source after : Source} {element : Element}

theorem readElement_of_read
    (h : (Task.element type tag).read parent fuel source = .ok ([element], after)) :
    readElement fuel type tag source = .ok (element, after) := by
  obtain ⟨found, hfound, h⟩ := exists_of_bind_ok h
  cases h
  exact hfound

theorem read_children_of_eq {later : Source} {draft' : Draft} {fuel' : Nat}
    (h : readChildren fuel type tag draft source = readChildren fuel' type tag draft' later) :
    (Task.children type tag draft).read parent fuel source =
      (Task.children type tag draft').read parent fuel' later := by
  rw [Task.read, h, Task.read]

/-- A field that has been met was new. -/
theorem meet_eq_ok {field : Field} {met : Draft} (h : draft.meet field = .ok met) :
    field.key ∉ draft.seen ∧ met = { draft with seen := field.key :: draft.seen } := by
  rw [Draft.meet] at h
  split at h
  · cases h
  · next hnew =>
    cases h
    exact ⟨by simpa using hnew, rfl⟩

variable {next : Tag} {later : Source} {met : Draft}

theorem readChildren_absent {field : Field} (h : source.next = .ok (.start next, after))
    (hfield : type.named? next.name = some field) (hmeet : draft.meet field = .ok met)
    (habsent : (field.isNullable && isAbsent after tag next) = true)
    (hskip : after.skip next.name = .ok later) :
    readChildren (fuel + 1) type tag draft source = readChildren fuel type tag met later := by
  have hpeeked : (field.isNullable &&
      isAbsent ⟨.start next :: after.replay, after.unread⟩ tag next) = true := habsent
  rw [ElementType.named?] at hfield
  simp only [readChildren, Source.peek_of_next h, lift_ok, ok_bind, next_replay, hfield]
  cases field with
  | attr kind =>
    rw [Field.isNullable] at hpeeked
    simp only [hmeet, ok_bind, hpeeked, if_true, hskip, lift_ok]
  | child part =>
    rw [Field.isNullable] at hpeeked
    simp only [hmeet, ok_bind, hpeeked, if_true, hskip, lift_ok]
  | member part => cases hpeeked

theorem readChildren_attr {kind : AttributeType} {text : List Char} {value : Value}
    (h : source.next = .ok (.start next, after))
    (hfield : type.named? next.name = some (.attr kind)) (hmeet : draft.meet (.attr kind) = .ok met)
    (hpresent : (kind.nullable && isAbsent after tag next) = false)
    (hcontent : readContent next.name after = .ok (text, later))
    (hread : kind.form.read text = .ok value) :
    readChildren (fuel + 1) type tag draft source =
      readChildren fuel type tag (met.addAttribute kind value) later := by
  have hpeeked : (kind.nullable &&
      isAbsent ⟨.start next :: after.replay, after.unread⟩ tag next) = false := hpresent
  rw [ElementType.named?] at hfield
  simp only [readChildren, Source.peek_of_next h, lift_ok, ok_bind, next_replay, hfield, hmeet,
    hpeeked, hcontent, hread]
  rfl

end Read

/-- A run is a reading, if there is enough fuel. -/
theorem Run.read_eq {task : Task} {source after : Source} {found : List Element}
    (h : Run task source found after) :
    ∀ {parent : Tag} {fuel : Nat}, task.fuel source.size ≤ fuel →
      task.read parent fuel source = .ok (found, after) := by
  induction h with
  | @element type tag draft source after found attributes _ ih =>
    intro parent fuel hfuel
    simp only [Task.fuel] at ih hfuel
    obtain ⟨fuel, rfl⟩ : ∃ less, fuel = less + 1 := ⟨fuel - 1, by omega⟩
    have hstep :
        readElement (fuel + 1) type tag source = readChildren fuel type tag draft source := by
      rw [readElement, attributes, ok_bind]
    simp only [Task.read, hstep]
    exact @ih parent fuel (by omega)
  | text first _ ih =>
    intro parent fuel hfuel
    have hsize := (Source.next_marks first).2.1 (by simp)
    simp only [Task.fuel] at ih hfuel
    obtain ⟨fuel, rfl⟩ : ∃ less, fuel = less + 1 := ⟨fuel - 1, by omega⟩
    rw [read_children_of_eq (readChildren_text first)]
    exact ih (by omega)
  | finish first complete =>
    intro parent fuel hfuel
    have hsize := (Source.next_marks first).2.1 (by simp)
    simp only [Task.fuel] at hfuel
    obtain ⟨fuel, rfl⟩ : ∃ less, fuel = less + 1 := ⟨fuel - 1, by omega⟩
    rw [Task.read, readChildren_finish first, complete]
    rfl
  | foreign first unknown skip _ ih =>
    intro parent fuel hfuel
    have hsize := (Source.next_marks first).2.1 (by simp)
    have hskip := (Source.skip_marks skip).2.1
    simp only [Task.fuel] at ih hfuel
    obtain ⟨fuel, rfl⟩ : ∃ less, fuel = less + 1 := ⟨fuel - 1, by omega⟩
    rw [read_children_of_eq (readChildren_foreign first unknown skip)]
    exact ih (by omega)
  | absent first known new absent skip _ ih =>
    intro parent fuel hfuel
    have hsize := (Source.next_marks first).2.1 (by simp)
    have hskip := (Source.skip_marks skip).2.1
    simp only [Task.fuel] at ih hfuel
    obtain ⟨fuel, rfl⟩ : ∃ less, fuel = less + 1 := ⟨fuel - 1, by omega⟩
    rw [read_children_of_eq (readChildren_absent first known new absent skip)]
    exact ih (by omega)
  | attr first known new present content read _ ih =>
    intro parent fuel hfuel
    have hsize := (Source.next_marks first).2.1 (by simp)
    have hcontent := (readContent_le content).1
    simp only [Task.fuel] at ih hfuel
    obtain ⟨fuel, rfl⟩ : ∃ less, fuel = less + 1 := ⟨fuel - 1, by omega⟩
    rw [read_children_of_eq (readChildren_attr first known new present content read)]
    exact ih (by omega)
  | @child type part tag next draft met child source middle later after found first known new
      present inner rest ihinner ih =>
    intro parent fuel hfuel
    have hsize := (Source.next_marks first).2.1 (by simp)
    have hle := inner.size_le
    simp only [Task.fuel, Task.aside, List.length_nil] at ihinner ih hfuel hle
    obtain ⟨fuel, rfl⟩ : ∃ less, fuel = less + 1 := ⟨fuel - 1, by omega⟩
    obtain ⟨hnew, rfl⟩ := meet_eq_ok new
    have hchild := readElement_of_read (@ihinner tag fuel (by omega))
    rw [read_children_of_eq (readChildren_child first known hnew present hchild)]
    exact ih (by omega)
  | @list type part tag next draft met member members found source middle later last after first
      known new inner more rest ihinner ihmore ih =>
    intro parent fuel hfuel
    have hsize := (Source.next_marks first).2.1 (by simp)
    have hle := inner.size_le
    have hleMore := more.size_le
    have hlater : 0 < later.size := Nat.succ_pos _
    simp only [Task.fuel, Task.aside, List.length_nil] at ihinner ihmore ih hfuel hle hleMore
    obtain ⟨fuel, rfl⟩ : ∃ less, fuel = less + 1 + 1 := ⟨fuel - 2, by omega⟩
    obtain ⟨hnew, rfl⟩ := meet_eq_ok new
    have hmember := readElement_of_read (@ihinner tag fuel (by omega))
    have hmembers : readMembers (fuel + 1) part tag next.name [] []
        ⟨.start next :: middle.replay, middle.unread⟩ = .ok (members, last) := by
      rw [readMembers_member (next_replay _ _ _) rfl hmember]
      exact @ihmore tag fuel (by omega)
    have hstep : readChildren (fuel + 1 + 1) type tag draft source =
        readChildren (fuel + 1) type tag
          (({ draft with seen := part.tag :: draft.seen } : Draft).addChildren members) last := by
      rw [readChildren_member first known hnew, hmembers]
      rfl
    rw [read_children_of_eq hstep]
    exact ih (by omega)
  | ended first =>
    intro parent fuel hfuel
    have hsize := (Source.next_marks first).2.1 (by simp)
    simp only [Task.fuel] at hfuel
    obtain ⟨fuel, rfl⟩ : ∃ less, fuel = less + 1 := ⟨fuel - 1, by omega⟩
    exact readMembers_finish first
  | @member part name next member members found aside source middle later after first same inner
      rest ihinner ih =>
    intro parent fuel hfuel
    have hsize := (Source.next_marks first).2.1 (by simp)
    have hle := inner.size_le
    simp only [Task.fuel, Task.aside, List.length_nil] at ihinner ih hfuel hle
    obtain ⟨fuel, rfl⟩ : ∃ less, fuel = less + 1 := ⟨fuel - 1, by omega⟩
    have hmember := readElement_of_read (@ihinner parent fuel (by omega))
    rw [Task.read, readMembers_member first same hmember]
    exact @ih parent fuel (by omega)
  | @aside part name next members found aside items source middle later after first other taken
      rest ih =>
    intro parent fuel hfuel
    have hsize := (Source.next_marks first).2.1 (by simp)
    have hle := taken.size_le
    simp only [Task.fuel] at ih hfuel
    obtain ⟨fuel, rfl⟩ : ∃ less, fuel = less + 1 := ⟨fuel - 1, by omega⟩
    rw [Task.read, readMembers_aside first other (taken.takeElement_eq (by omega) _)]
    exact @ih parent fuel (by omega)

/-- A document is read as an element exactly if there is a run that finds it. -/
theorem read_eq_ok_iff {type : ElementType} {source : Source} {element : Element}
    (proper : source.Proper) :
    read type source = .ok element ↔ ∃ tag middle after,
      source.next = .ok (.start tag, middle) ∧ Run (.element type tag) middle [element] after := by
  constructor
  · intro h
    obtain ⟨⟨item, middle⟩, hnext, h⟩ := exists_of_bind_ok h
    have hnext := lift_eq_ok hnext
    cases item with
    | start tag =>
      obtain ⟨⟨element, after⟩, helement, h⟩ := exists_of_bind_ok h
      cases h
      exact ⟨tag, middle, after, hnext,
        (sound _).element (by omega) (proper.next hnext) helement⟩
    | _ => cases h
  · rintro ⟨tag, middle, after, hnext, hrun⟩
    have helement := readElement_of_read
      (@Run.read_eq _ _ _ _ hrun tag _ (show 3 * middle.size + 1 ≤ 3 * middle.size + 3 by omega))
    simp only [read, hnext, lift_ok, ok_bind, helement]

end Element

end UpdateProtocol

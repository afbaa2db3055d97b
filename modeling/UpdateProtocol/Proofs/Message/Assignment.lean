import UpdateProtocol.Proofs.Element.Parts
import UpdateProtocol.Proofs.Element.Slot
import UpdateProtocol.Proofs.Message.Building
import UpdateProtocol.Proofs.Message.Valid

/-!
# Assigning a typed attribute of a message

What becomes of a message when the value of a typed attribute is another one, said for each kind of
part by a function on messages (`Request.assign`, `Response.assign`): one field takes the value, and
every other field is as before.  In the element of the message nothing but this attribute changes
(`Assigns`).
-/

namespace UpdateProtocol

/-! ### Parts of messages -/

/-- An event with another code. -/
def Event.assign (event : Event) : Place → Value → Event
  | .attr "eventtype", .text token => { event with eventType := .ofToken token }
  | .attr "eventresult", .text token => { event with result := .ofToken token }
  | _, _ => event

/-- A package with another size or with or without being required. -/
def Package.assign (package : Package) : Place → Value → Package
  | .attr "size", .size bytes => { package with size := bytes }
  | .attr "required", .flag value => { package with required := value }
  | _, _ => package

/-- An action with another truth value. -/
def Action.assign (action : Action) : Place → Value → Action
  | .attr "needsadmin", .flag value => { action with needsAdmin := value }
  | .attr "IsDelta", .flag value => { action with isDelta := value }
  | .attr "DisablePayloadBackoff", .flag value => { action with disablePayloadBackoff := value }
  | _, _ => action

/-- A manifest with a change in one package or action. -/
def Manifest.assign (manifest : Manifest) : Place → Value → Manifest
  | .inside .packages _ (.inside .package i place), value =>
      { manifest with
        packages := manifest.packages.modify i fun package => package.assign place value }
  | .inside .actions _ (.inside .action i place), value =>
      { manifest with actions := manifest.actions.modify i fun action => action.assign place value }
  | _, _ => manifest

/-- An update check with another status or a change in its manifest. -/
def UpdateCheck.assign (check : UpdateCheck) : Place → Value → UpdateCheck
  | .attr "status", .text token => { check with status := some (.ofToken token) }
  | .inside .manifest _ place, value =>
      { check with manifest := check.manifest.map fun manifest => manifest.assign place value }
  | _, _ => check

/-- An application with another status or a change in its update check or one event. -/
def App.assign (app : App) : Place → Value → App
  | .attr "status", .text token => { app with status := some (.ofToken token) }
  | .inside .updateCheck _ place, value =>
      { app with updateCheck := app.updateCheck.map fun check => check.assign place value }
  | .inside .event i place, value =>
      { app with events := app.events.modify i fun event => event.assign place value }
  | _, _ => app

/-! ### Messages -/

/-- A request with a change in one application. -/
def Request.assign (request : Request) : Place → Value → Request
  | .inside .app i place, value =>
      { request with apps := request.apps.modify i fun app => app.assign place value }
  | _, _ => request

/-- A response with a change in one application. -/
def Response.assign (response : Response) : Place → Value → Response
  | .inside .app i place, value =>
      { response with apps := response.apps.modify i fun app => app.assign place value }
  | _, _ => response

/-! ### Canonical form -/

theorem Event.canon_assign (event : Event) (place : Place) (value : Value) :
    (event.assign place value).canon = event.canon.assign place value := by
  unfold assign
  split <;> simp [canon, Code.canon_ofToken]

theorem UpdateCheck.canon_assign (check : UpdateCheck) (place : Place) (value : Value) :
    (check.assign place value).canon = check.canon.assign place value := by
  unfold assign
  split <;> simp [canon, Code.canon_ofToken]

theorem map_modify_of_comm {α : Type} {f g : α → α} (h : ∀ item, g (f item) = f (g item))
    (items : List α) (i : Nat) : (items.modify i f).map g = (items.map g).modify i f := by
  induction items generalizing i with
  | nil => cases i <;> rfl
  | cons item items ih => cases i <;> simp [h, ih]

theorem App.canon_assign (app : App) (place : Place) (value : Value) :
    (app.assign place value).canon = app.canon.assign place value := by
  unfold assign
  split <;> simp [canon, Code.canon_ofToken, Function.comp_def, UpdateCheck.canon_assign,
    map_modify_of_comm (fun event : Event => event.canon_assign _ _)]

theorem Request.canon_assign (request : Request) (place : Place) (value : Value) :
    (request.assign place value).canon = request.canon.assign place value := by
  unfold assign
  split <;> simp [canon, map_modify_of_comm (fun app : App => app.canon_assign _ _)]

theorem Response.canon_assign (response : Response) (place : Place) (value : Value) :
    (response.assign place value).canon = response.canon.assign place value := by
  unfold assign
  split <;> simp [canon, map_modify_of_comm (fun app : App => app.canon_assign _ _)]

/-! ### Attributes in place of one -/

/-- The token of a code is written as it is. -/
theorem codeAttribute_ofToken {κ : Type} [Vocabulary κ] (name token : String) :
    codeAttribute name (some (Code.ofToken token : Code κ)) = [(name, .text token)] := by
  simp [codeAttribute]

/-- What is written for a typed attribute.  The writer leaves one of them out if it is false. -/
def rewritten (name : String) (value : Value) : List (String × Value) :=
  if name = "DisablePayloadBackoff" ∧ value = .flag false then [] else [(name, value)]

/-- Attributes with others in the place of those of a name. -/
def substitute (name : String) (found values : List (String × Value)) : List (String × Value) :=
  values.flatMap fun value => if value.1 = name then found else [value]

section Substitute

variable {name other : String} {found : List (String × Value)}

@[simp] theorem substitute_append (values rest : List (String × Value)) :
    substitute name found (values ++ rest) =
      substitute name found values ++ substitute name found rest :=
  List.flatMap_append

theorem substitute_of_forall_ne {values : List (String × Value)}
    (h : ∀ value ∈ values, value.1 ≠ name) : substitute name found values = values := by
  rw [substitute, List.flatMap_congr fun value hvalue => if_neg (h value hvalue)]
  simp

theorem substitute_of_nodup {old : Value} {before after : List (String × Value)}
    (once : ((before ++ (name, old) :: after).map Prod.fst).Nodup) :
    substitute name found (before ++ (name, old) :: after) = before ++ found ++ after := by
  have hnodup := (List.perm_middle.map Prod.fst).nodup_iff.1 once
  rw [List.map_cons, List.nodup_cons, List.map_append, List.mem_append, not_or] at hnodup
  have hne {values : List (String × Value)} (h : name ∉ values.map Prod.fst) :
      substitute name found values = values :=
    substitute_of_forall_ne fun value hvalue e => h (List.mem_map.2 ⟨value, hvalue, e⟩)
  rw [substitute_append, hne hnodup.1.1, ← List.singleton_append, substitute_append,
    hne hnodup.1.2, List.append_assoc]
  simp [substitute]

@[simp] theorem substitute_textAttribute (text : String) :
    substitute name found (textAttribute name text) = found := by
  simp [substitute, textAttribute]

@[simp] theorem substitute_flagAttribute (value : Bool) :
    substitute name found (flagAttribute name value) = found := by
  simp [substitute, flagAttribute]

@[simp] theorem substitute_markAttribute_true :
    substitute name found (markAttribute name true) = found := by
  simp [substitute, markAttribute]

@[simp] theorem substitute_codeAttribute_some {κ : Type} [Vocabulary κ] (code : Code κ) :
    substitute name found (codeAttribute name (some code)) = found := by
  simp [substitute, codeAttribute]

variable (h : other ≠ name)
include h

@[simp] theorem substitute_textAttribute_ne (text : String) :
    substitute name found (textAttribute other text) = textAttribute other text :=
  substitute_of_forall_ne (by simp [textAttribute, h])

@[simp] theorem substitute_optionalAttribute_ne (text : String) :
    substitute name found (optionalAttribute other text) = optionalAttribute other text := by
  unfold optionalAttribute
  split <;> exact substitute_of_forall_ne (by simp [h])

@[simp] theorem substitute_flagAttribute_ne (value : Bool) :
    substitute name found (flagAttribute other value) = flagAttribute other value :=
  substitute_of_forall_ne (by simp [flagAttribute, h])

@[simp] theorem substitute_markAttribute_ne (value : Bool) :
    substitute name found (markAttribute other value) = markAttribute other value := by
  unfold markAttribute
  split <;> exact substitute_of_forall_ne (by simp [h])

end Substitute

/-! ### Elements without typed attributes -/

/-- No part of an element has a typed attribute. -/
def Element.Untyped : Element → Prop :=
  EachPart fun part => part.type.typed = []

theorem Element.untyped_mk {type : ElementType} {values : List (String × Value)}
    {children : List Element} :
    (mk type values children).Untyped ↔ type.typed = [] ∧ ∀ child ∈ children, child.Untyped :=
  eachPart_mk

theorem Os.untyped (os : Os) : os.toElement.Untyped := by
  simp [toElement, Element.untyped_mk, ElementType.typed]

theorem DayStart.untyped (daystart : DayStart) : daystart.toElement.Untyped := by
  simp [toElement, Element.untyped_mk, ElementType.typed]

theorem Ping.untyped (ping : Ping) : ping.toElement.Untyped := by
  simp [toElement, Element.untyped_mk, ElementType.typed]

theorem Urls.untyped (urls : Urls) : urls.toElement.Untyped := by
  simp [toElement, Url.toElement, Element.untyped_mk, ElementType.typed]

/-! ### Slots of elements -/

namespace Slot

variable {slot : Slot} {name : String} {old : Value} {type : ElementType}
  {values : List (String × Value)} {children : List Element}

theorem exists_part_owner (slot : Slot) (found : List (String × Value)) :
    ∃ part, Element.Part part (slot.fill found) ∧ part.type = slot.owner := by
  induction slot with
  | here => exact ⟨_, .self, rfl⟩
  | inside type values before slot after ih =>
    obtain ⟨part, hpart, htype⟩ := ih
    exact ⟨part, .child (by simp [fill]) hpart, htype⟩

/-- An element without typed attributes has no slot for one. -/
theorem not_typed {elements before after : List Element} {found : List (String × Value)}
    {form : Form} (h : elements = before ++ slot.fill found :: after)
    (untyped : ∀ element ∈ elements, element.Untyped) : (name, form) ∉ slot.owner.typed := by
  obtain ⟨part, hpart, htype⟩ := slot.exists_part_owner found
  rw [← htype, untyped _ (by simp [h]) part hpart]
  exact List.not_mem_nil

/-- A slot that an element fills is a place in its own attributes or in a child. -/
theorem fill_cases (valid : (Element.mk type values children).Valid)
    (h : Element.mk type values children = slot.fill [(name, old)]) :
    (slot.owner = type ∧ slot.place name = .attr name ∧ values.lookup name = some old ∧
      ∀ found, slot.fill found = .mk type (substitute name found values) children) ∨
    ∃ before inner after, slot = .inside type values before inner after ∧
      children = before ++ inner.fill [(name, old)] :: after := by
  cases slot with
  | here other before after others =>
    rw [fill, List.append_assoc, List.singleton_append] at h
    obtain ⟨rfl, rfl, rfl⟩ := Element.mk.inj h
    have once := valid.fits.nodup
    refine .inl ⟨rfl, rfl, (lookup_eq_some_iff_mem once).2 (by simp), fun found => ?_⟩
    rw [fill, substitute_of_nodup once]
  | inside other rest before inner after =>
    obtain ⟨rfl, rfl, rfl⟩ := Element.mk.inj h
    exact .inr ⟨before, inner, after, rfl, rfl⟩

end Slot

/-! ### Assignments in elements -/

section Assigns

variable {α : Type} {toElement : α → Element} {assign : α → Place → Value → α}

/-- Assigning a typed attribute puts its value in the place of the one before. -/
def Assigns (toElement : α → Element) (assign : α → Place → Value → α) : Prop :=
  ∀ ⦃item : α⦄ ⦃slot : Slot⦄ ⦃name : String⦄ ⦃form : Form⦄ ⦃old new : Value⦄,
    toElement item = slot.fill [(name, old)] → (name, form) ∈ slot.owner.typed →
      form.Admits new → toElement (assign item (slot.place name) new) =
        slot.fill (rewritten name new)

/-- One of several parts is assigned. -/
theorem Assigns.map (h : Assigns toElement assign) {part : ElementType}
    (htype : ∀ item, (toElement item).type = part) {items : List α} {before after : List Element}
    {slot : Slot} {name : String} {form : Form} {old new : Value}
    (hitems : items.map toElement = before ++ slot.fill [(name, old)] :: after)
    (typed : (name, form) ∈ slot.owner.typed) (admits : form.Admits new) :
    slot.type = part ∧
      (items.modify (Element.ofType part before).length
        fun item => assign item (slot.place name) new).map toElement =
          before ++ slot.fill (rewritten name new) :: after := by
  obtain ⟨first, rest, rfl, rfl, hrest⟩ := List.map_eq_append_iff.1 hitems
  obtain ⟨item, last, rfl, hitem, rfl⟩ := List.map_eq_cons_iff.1 hrest
  have hlength : first.length = (Element.ofType part (first.map toElement)).length := by
    rw [Element.ofType, Element.ofType_map htype, if_pos rfl, List.length_map]
  refine ⟨by rw [← slot.type_fill [(name, old)], ← hitem, htype], ?_⟩
  rw [modify_append_cons hlength, List.map_append, List.map_cons, h hitem typed admits]

/-- The only part is assigned. -/
theorem Assigns.option (h : Assigns toElement assign) {part : ElementType}
    (htype : ∀ item, (toElement item).type = part) {item : Option α} {before after : List Element}
    {slot : Slot} {name : String} {form : Form} {old new : Value}
    (hitem : item.toList.map toElement = before ++ slot.fill [(name, old)] :: after)
    (typed : (name, form) ∈ slot.owner.typed) (admits : form.Admits new) :
    slot.type = part ∧
      (item.map fun item => assign item (slot.place name) new).toList.map toElement =
        before ++ slot.fill (rewritten name new) :: after := by
  cases item with
  | none => simp at hitem
  | some item =>
    cases before with
    | cons => simp at hitem
    | nil =>
      obtain ⟨hfirst, rfl⟩ := List.cons.inj hitem
      exact ⟨by rw [← slot.type_fill [(name, old)], ← hfirst, htype],
        congrArg (· :: []) (h hfirst typed admits)⟩

/-- A part of a group is assigned. -/
theorem Assigns.group (h : Assigns toElement assign) {group part : ElementType}
    (htype : ∀ item, (toElement item).type = part) (untyped : group.typed = []) {items : List α}
    {slot : Slot} {name : String} {form : Form} {old new : Value}
    (valid : (Element.mk group [] (items.map toElement)).Valid)
    (hgroup : Element.mk group [] (items.map toElement) = slot.fill [(name, old)])
    (typed : (name, form) ∈ slot.owner.typed) (admits : form.Admits new) :
    slot.type = group ∧ ∃ i place, slot.place name = .inside part i place ∧
      Element.mk group [] ((items.modify i fun item => assign item place new).map toElement) =
        slot.fill (rewritten name new) := by
  obtain ⟨howner, -⟩ | ⟨before, inner, after, rfl, hitems⟩ := Slot.fill_cases valid hgroup
  · rw [howner, untyped] at typed
    cases typed
  · obtain ⟨rfl, hassign⟩ := h.map htype hitems typed admits
    exact ⟨rfl, _, _, rfl, by rw [hassign]; rfl⟩

end Assigns

theorem Event.assigns : Assigns Event.toElement Event.assign := by
  intro event slot name form old new h typed admits
  obtain ⟨howner, hplace, -, hfill⟩ | ⟨before, inner, after, -, hchildren⟩ :=
    Slot.fill_cases event.valid_toElement h
  · rw [howner] at typed
    simp only [ElementType.typed, List.mem_cons, Prod.mk.injEq, List.not_mem_nil, or_false] at typed
    rw [hplace, hfill]
    obtain ⟨rfl, rfl⟩ | ⟨rfl, rfl⟩ := typed <;> cases new <;> cases admits <;>
      simp [toElement, assign, rewritten] <;> rfl
  · simp at hchildren

theorem Package.assigns : Assigns Package.toElement Package.assign := by
  intro package slot name form old new h typed admits
  obtain ⟨howner, hplace, -, hfill⟩ | ⟨before, inner, after, -, hchildren⟩ :=
    Slot.fill_cases package.valid_toElement h
  · rw [howner] at typed
    simp only [ElementType.typed, List.mem_cons, Prod.mk.injEq, List.not_mem_nil, or_false] at typed
    rw [hplace, hfill]
    obtain ⟨rfl, rfl⟩ | ⟨rfl, rfl⟩ := typed <;> cases new <;> cases admits <;>
      simp [toElement, assign, rewritten] <;> rfl
  · simp at hchildren

theorem Action.assigns : Assigns Action.toElement Action.assign := by
  intro action slot name form old new h typed admits
  obtain ⟨howner, hplace, hold, hfill⟩ | ⟨before, inner, after, -, hchildren⟩ :=
    Slot.fill_cases action.valid_toElement h
  · rw [howner] at typed
    simp only [ElementType.typed, List.mem_cons, Prod.mk.injEq, List.not_mem_nil, or_false] at typed
    rw [hplace, hfill]
    obtain ⟨rfl, rfl⟩ | ⟨rfl, rfl⟩ | ⟨rfl, rfl⟩ := typed <;> cases new <;> cases admits
    · simp [toElement, assign, rewritten]
      rfl
    · simp [toElement, assign, rewritten]
      rfl
    · have hmark : action.disablePayloadBackoff = true := by
        by_contra hfalse
        simp [List.lookup_append, hfalse] at hold
      next value =>
      cases value <;> simp [toElement, assign, rewritten, hmark] <;> rfl
  · simp at hchildren

/-! ### Parts with parts -/

/-- An element among those of two lists is in the first or in the second. -/
theorem append_eq_append_cons {α : Type} {first second before after : List α} {a : α}
    (h : first ++ second = before ++ a :: after) :
    (∃ rest, first = before ++ a :: rest ∧ after = rest ++ second) ∨
      ∃ front, before = first ++ front ∧ second = front ++ a :: after := by
  obtain ⟨front, rfl, rfl⟩ | ⟨rest, rfl, hrest⟩ := List.append_eq_append_iff.1 h
  · exact .inr ⟨front, rfl, rfl⟩
  · cases rest with
    | nil => exact .inr ⟨[], by simp, hrest.symm⟩
    | cons b rest =>
      obtain ⟨rfl, rfl⟩ := List.cons.inj hrest
      exact .inl ⟨rest, rfl, rfl⟩

/-- Elements of other types do not count. -/
theorem length_ofType_append {part : ElementType} {first : List Element}
    (h : ∀ child ∈ first, child.type ≠ part) (front : List Element) :
    (Element.ofType part (first ++ front)).length = (Element.ofType part front).length := by
  have hnone : Element.ofType part first = [] :=
    List.filter_eq_nil_iff.2 fun child hchild => by simpa using h child hchild
  rw [Element.ofType, List.filter_append, ← Element.ofType, hnone, List.nil_append, Element.ofType]

theorem singleton_eq_append_cons {α : Type} {before after : List α} {a b : α}
    (h : [a] = before ++ b :: after) : before = [] ∧ b = a ∧ after = [] := by
  cases before with
  | nil => exact ⟨rfl, (List.cons.inj h).1.symm, (List.cons.inj h).2.symm⟩
  | cons => simp at h

theorem Manifest.assigns : Assigns Manifest.toElement Manifest.assign := by
  intro manifest slot name form old new h typed admits
  obtain ⟨howner, -⟩ | ⟨before, inner, after, rfl, hchildren⟩ :=
    Slot.fill_cases manifest.valid_toElement h
  · rw [howner] at typed
    cases typed
  have hsplit : [Element.mk .packages [] (manifest.packages.map Package.toElement)] ++
      [Element.mk .actions [] (manifest.actions.map Action.toElement)] =
        before ++ inner.fill [(name, old)] :: after := hchildren
  obtain ⟨rest, hfirst, rfl⟩ | ⟨front, rfl, hsecond⟩ := append_eq_append_cons hsplit
  · obtain ⟨rfl, hgroup, rfl⟩ := singleton_eq_append_cons hfirst
    have valid := valid_list .packages Package.valid_toElement Package.type_toElement rfl .nil
      manifest.packages
    obtain ⟨hpart, i, place, hplace, hassign⟩ :=
      Package.assigns.group Package.type_toElement rfl valid hgroup.symm typed admits
    rw [Slot.place, hpart, hplace, Slot.fill, ← hassign]
    rfl
  · obtain ⟨rfl, hgroup, rfl⟩ := singleton_eq_append_cons hsecond
    have valid := valid_list .actions Action.valid_toElement Action.type_toElement rfl .nil
      manifest.actions
    obtain ⟨hpart, i, place, hplace, hassign⟩ :=
      Action.assigns.group Action.type_toElement rfl valid hgroup.symm typed admits
    rw [Slot.place, hpart, hplace, Slot.fill, ← hassign]
    rfl

theorem UpdateCheck.assigns : Assigns UpdateCheck.toElement UpdateCheck.assign := by
  intro check slot name form old new h typed admits
  obtain ⟨howner, hplace, hold, hfill⟩ | ⟨before, inner, after, rfl, hchildren⟩ :=
    Slot.fill_cases check.valid_toElement h
  · rw [howner] at typed
    simp only [ElementType.typed, List.mem_singleton, Prod.mk.injEq] at typed
    obtain ⟨rfl, rfl⟩ := typed
    rw [hplace, hfill]
    cases hstatus : check.status with
    | none => simp [List.lookup_append, hstatus] at hold
    | some code =>
      cases new <;> cases admits
      simp [toElement, assign, rewritten, codeAttribute_ofToken]
  change (name, form) ∈ inner.owner.typed at typed
  obtain ⟨rest, hurls, rfl⟩ | ⟨front, rfl, hmanifest⟩ := append_eq_append_cons hchildren
  · exact absurd typed (Slot.not_typed hurls (List.forall_mem_map.2 fun urls _ => urls.untyped))
  · obtain ⟨hpart, hassign⟩ :=
      Manifest.assigns.option Manifest.type_toElement hmanifest typed admits
    rw [Slot.place, hpart, Slot.fill, List.append_assoc, ← hassign]
    rfl

theorem App.assigns : Assigns App.toElement App.assign := by
  intro app slot name form old new h typed admits
  obtain ⟨howner, hplace, hold, hfill⟩ | ⟨before, inner, after, rfl, hchildren⟩ :=
    Slot.fill_cases app.valid_toElement h
  · rw [howner] at typed
    simp only [ElementType.typed, List.mem_singleton, Prod.mk.injEq] at typed
    obtain ⟨rfl, rfl⟩ := typed
    rw [hplace, hfill]
    cases hstatus : app.status with
    | none => simp [List.lookup_append, hstatus] at hold
    | some code =>
      cases new <;> cases admits
      simp [toElement, assign, rewritten, codeAttribute_ofToken]
  change (name, form) ∈ inner.owner.typed at typed
  obtain ⟨rest, hsingles, rfl⟩ | ⟨front, rfl, hevents⟩ := append_eq_append_cons hchildren
  · obtain ⟨rest, hping, rfl⟩ | ⟨front, rfl, hcheck⟩ := append_eq_append_cons hsingles
    · exact absurd typed (Slot.not_typed hping (List.forall_mem_map.2 fun ping _ => ping.untyped))
    · obtain ⟨hpart, hassign⟩ :=
        UpdateCheck.assigns.option UpdateCheck.type_toElement hcheck typed admits
      have hwhole : app.ping.toList.map Ping.toElement ++
          (app.updateCheck.map fun check => check.assign (inner.place name) new).toList.map
            UpdateCheck.toElement ++ app.events.map Event.toElement =
          app.ping.toList.map Ping.toElement ++ front ++ inner.fill (rewritten name new) ::
            (rest ++ app.events.map Event.toElement) := by
        rw [hassign]
        simp
      rw [Slot.place, hpart, Slot.fill, ← hwhole]
      rfl
  · obtain ⟨hpart, hassign⟩ := Event.assigns.map Event.type_toElement hevents typed admits
    have hothers : ∀ child ∈ app.ping.toList.map Ping.toElement ++
        app.updateCheck.toList.map UpdateCheck.toElement, child.type ≠ .event := by
      simp only [List.forall_mem_append, List.forall_mem_map]
      exact ⟨fun _ _ => by simp, fun _ _ => by simp⟩
    rw [Slot.place, hpart, length_ofType_append hothers, Slot.fill, List.append_assoc _ front,
      ← hassign]
    rfl

theorem Request.assigns : Assigns Request.toElement Request.assign := by
  intro request slot name form old new h typed admits
  obtain ⟨howner, -⟩ | ⟨before, inner, after, rfl, hchildren⟩ :=
    Slot.fill_cases request.valid_toElement h
  · rw [howner] at typed
    cases typed
  change (name, form) ∈ inner.owner.typed at typed
  obtain ⟨rest, hos, rfl⟩ | ⟨front, rfl, happs⟩ := append_eq_append_cons hchildren
  · exact absurd typed (Slot.not_typed hos (List.forall_mem_map.2 fun os _ => os.untyped))
  · obtain ⟨hpart, hassign⟩ := App.assigns.map App.type_toElement happs typed admits
    have hothers : ∀ child ∈ request.os.toList.map Os.toElement, child.type ≠ .app :=
      List.forall_mem_map.2 fun _ _ => by simp
    rw [Slot.place, hpart, length_ofType_append hothers, Slot.fill, List.append_assoc _ front,
      ← hassign]
    rfl

theorem Response.assigns : Assigns Response.toElement Response.assign := by
  intro response slot name form old new h typed admits
  obtain ⟨howner, -⟩ | ⟨before, inner, after, rfl, hchildren⟩ :=
    Slot.fill_cases response.valid_toElement h
  · rw [howner] at typed
    cases typed
  change (name, form) ∈ inner.owner.typed at typed
  have hsplit : [response.daystart].map DayStart.toElement ++ response.apps.map App.toElement =
      before ++ inner.fill [(name, old)] :: after := hchildren
  obtain ⟨rest, hdaystart, rfl⟩ | ⟨front, rfl, happs⟩ := append_eq_append_cons hsplit
  · refine absurd typed (Slot.not_typed hdaystart (List.forall_mem_map.2 fun daystart _ => ?_))
    exact daystart.untyped
  · obtain ⟨hpart, hassign⟩ := App.assigns.map App.type_toElement happs typed admits
    have hothers : ∀ child ∈ [response.daystart].map DayStart.toElement, child.type ≠ .app :=
      List.forall_mem_map.2 fun _ _ => by simp
    rw [Slot.place, hpart, length_ofType_append hothers, Slot.fill, List.append_assoc _ front,
      ← hassign]
    rfl

end UpdateProtocol

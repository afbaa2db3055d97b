import UpdateProtocol.Message.Build
import UpdateProtocol.Proofs.Element.Parts
import UpdateProtocol.Proofs.Message.Wire

/-!
# Attributes without a value

Most attributes of a message are left out when they have no value, but not all.  The ones in
`ElementType.always` are in every element of their type, with whatever text they have, and a status
is written whenever there is one, even if its token is empty (`empty_attributes`).
-/

namespace UpdateProtocol

open Markup (HasAttribute HasTag)

/-- The attributes of a type that are written even if their text is empty. -/
def ElementType.always : ElementType → List String
  | request => ["protocol"]
  | response => ["protocol", "server"]
  | daystart => ["elapsed_seconds"]
  | url => ["codebase"]
  | event => ["eventtype", "eventresult"]
  | manifest => ["version"]
  | package => ["hash", "name"]
  | action => ["event"]
  | _ => []

attribute [simp] ElementType.always

theorem ElementType.tag_inj {type other : ElementType} : type.tag = other.tag ↔ type = other := by
  constructor
  · intro h
    cases type <;> cases other <;> first | rfl | exact absurd h (by decide)
  · rintro rfl
    rfl

/-! ### Attributes with a given text -/

section Attributes

variable {name other text : String}

@[simp] theorem mem_textAttribute {value : Value} {content : String} :
    (other, value) ∈ textAttribute name content ↔ other = name ∧ value = .text content := by
  simp [textAttribute]

@[simp] theorem not_mem_optionalAttribute {content : String} :
    (other, .text "") ∉ optionalAttribute name content := by
  unfold optionalAttribute
  split_ifs with h
  · exact List.not_mem_nil
  · rintro hmem
    simp_all

@[simp] theorem mem_codeAttribute {κ : Type} [Vocabulary κ] {code : Option (Code κ)} :
    (other, .text text) ∈ codeAttribute name code ↔
      other = name ∧ code.map Code.token = some text := by
  cases code <;> simp [codeAttribute, eq_comm]

@[simp] theorem not_mem_flagAttribute {value : Bool} :
    (other, .text text) ∉ flagAttribute name value := by
  simp [flagAttribute]

@[simp] theorem not_mem_markAttribute {value : Bool} :
    (other, .text text) ∉ markAttribute name value := by
  cases value <;> simp [markAttribute]

end Attributes

/-! ### Where an element has empty texts -/

/-- The attributes that are always written are there, and the only ones with the empty text as their
value are those allowed. -/
def Element.EmptyOnly (allowed : ElementType → String → Prop) : Element → Prop :=
  EachPart fun part => (∀ name ∈ part.type.always, ∃ value, (name, value) ∈ part.attributes) ∧
    ∀ name, (name, .text "") ∈ part.attributes → allowed part.type name

theorem Element.EmptyOnly.mono {allowed more : ElementType → String → Prop} {element : Element}
    (h : element.EmptyOnly allowed) (hle : ∀ type name, allowed type name → more type name) :
    element.EmptyOnly more :=
  EachPart.mono h fun _ => And.imp_right fun hpart name hname => hle _ name (hpart name hname)

/-- Empty texts are only where they are always written. -/
def Element.EmptyAlways (element : Element) : Prop :=
  element.EmptyOnly fun type name => name ∈ type.always

theorem Element.emptyAlways_mk {type : ElementType} {values : List (String × Value)}
    {children : List Element} :
    (mk type values children).EmptyAlways ↔
      ((∀ name ∈ type.always, ∃ value, (name, value) ∈ values) ∧
        ∀ name, (name, .text "") ∈ values → name ∈ type.always) ∧
        ∀ child ∈ children, child.EmptyAlways :=
  eachPart_mk

theorem Os.emptyAlways (os : Os) : os.toElement.EmptyAlways := by
  simp [toElement, Element.emptyAlways_mk]

theorem DayStart.emptyAlways (daystart : DayStart) : daystart.toElement.EmptyAlways := by
  simp +contextual [toElement, Element.emptyAlways_mk]

theorem Ping.emptyAlways (ping : Ping) : ping.toElement.EmptyAlways := by
  simp [toElement, Element.emptyAlways_mk]

theorem Event.emptyAlways (event : Event) : event.toElement.EmptyAlways := by
  simp +contextual [toElement, Element.emptyAlways_mk, or_imp]

theorem Url.emptyAlways (url : Url) : url.toElement.EmptyAlways := by
  simp +contextual [toElement, Element.emptyAlways_mk]

theorem Urls.emptyAlways (urls : Urls) : urls.toElement.EmptyAlways := by
  simp [toElement, Element.emptyAlways_mk, Url.emptyAlways]

theorem Package.emptyAlways (package : Package) : package.toElement.EmptyAlways := by
  simp +contextual [toElement, Element.emptyAlways_mk, or_imp]

theorem Action.emptyAlways (action : Action) : action.toElement.EmptyAlways := by
  simp +contextual [toElement, Element.emptyAlways_mk]

theorem Manifest.emptyAlways (manifest : Manifest) : manifest.toElement.EmptyAlways := by
  simp +contextual [toElement, Element.emptyAlways_mk, Package.emptyAlways,
    Action.emptyAlways]

/-! ### Statuses -/

/-- The attributes of an application and its update check that are written for an empty token. -/
inductive App.BlankStatus (app : App) : ElementType → String → Prop
  | app (h : app.status.map Code.token = some "") : BlankStatus app .app "status"
  | updateCheck {check : UpdateCheck} (hcheck : app.updateCheck = some check)
      (h : check.status.map Code.token = some "") : BlankStatus app .updateCheck "status"

/-- Empty texts are only where they are always written, or where an application of a list has an
empty status. -/
def BlankAt (apps : List App) (type : ElementType) (name : String) : Prop :=
  name ∈ type.always ∨ ∃ app ∈ apps, app.BlankStatus type name

theorem Element.EmptyAlways.blankAt {element : Element} (h : element.EmptyAlways)
    (apps : List App) : element.EmptyOnly (BlankAt apps) :=
  h.mono fun _ _ => .inl

theorem UpdateCheck.emptyOnly {app : App} {check : UpdateCheck}
    (hcheck : app.updateCheck = some check) : check.toElement.EmptyOnly (BlankAt [app]) := by
  refine Element.eachPart_mk.2 ⟨⟨?_, fun name hname => ?_⟩, fun child hchild => ?_⟩
  · simp
  · simp only [Element.attributes_mk, List.mem_append, not_mem_optionalAttribute, mem_codeAttribute,
      false_or] at hname
    obtain ⟨rfl, hstatus⟩ := hname
    exact .inr ⟨app, List.mem_singleton_self app, .updateCheck hcheck hstatus⟩
  · simp only [List.mem_append, List.mem_map] at hchild
    obtain ⟨urls, -, rfl⟩ | ⟨manifest, -, rfl⟩ := hchild
    · exact urls.emptyAlways.blankAt _
    · exact manifest.emptyAlways.blankAt _

theorem App.emptyOnly (app : App) : app.toElement.EmptyOnly (BlankAt [app]) := by
  refine Element.eachPart_mk.2 ⟨⟨?_, fun name hname => ?_⟩, fun child hchild => ?_⟩
  · simp
  · simp only [Element.attributes_mk, List.mem_append, not_mem_optionalAttribute, mem_codeAttribute,
      false_or, or_false] at hname
    obtain ⟨rfl, hstatus⟩ := hname
    exact .inr ⟨app, List.mem_singleton_self app, .app hstatus⟩
  · simp only [List.mem_append, List.mem_map, Option.mem_toList] at hchild
    obtain (⟨ping, -, rfl⟩ | ⟨check, hcheck, rfl⟩) | ⟨event, -, rfl⟩ := hchild
    · exact ping.emptyAlways.blankAt _
    · exact UpdateCheck.emptyOnly hcheck
    · exact event.emptyAlways.blankAt _

/-- A status with the empty token is written. -/
theorem App.BlankStatus.exists_part {app : App} {type : ElementType} {name : String}
    (h : app.BlankStatus type name) :
    ∃ part, Element.Part part app.toElement ∧ part.type = type ∧
      (name, .text "") ∈ part.attributes := by
  cases h with
  | app h => exact ⟨app.toElement, .self, rfl, by simp [App.toElement, h]⟩
  | @updateCheck check hcheck h =>
    refine ⟨check.toElement, .child ?_ .self, rfl, by simp [UpdateCheck.toElement, h]⟩
    simp [App.toElement, hcheck]

/-! ### Messages -/

namespace Message

variable {μ : Type} [Message μ] (message : μ) {apps : List App} {tag key : List Char}

/-- If the elements of applications are the only children of a message that have empty texts
elsewhere than where they are always written, attributes without a value are there or statuses of
the applications. -/
theorem hasAttribute_nil (h : (toElement message).EmptyOnly (BlankAt apps))
    (hattr : HasAttribute (encode message) tag ⟨key, []⟩) :
    ∃ type name, tag = type.tag.toList ∧ key = name.toList ∧ BlankAt apps type name := by
  obtain ⟨part, hpart, htag, name, hkey, hname⟩ :=
    (Element.hasAttribute_render_nil (valid_toElement message)).1 hattr
  exact ⟨part.type, name, htag, hkey, (h part hpart).2 name hname⟩

/-- What is always written is in every start tag. -/
theorem exists_attribute (h : (toElement message).EmptyOnly (BlankAt apps)) {tag : Markup.Tag}
    (htag : HasTag (encode message) tag) {type : ElementType} (hname : tag.name = type.tag.toList)
    {name : String} (halways : name ∈ type.always) :
    ∃ value, .ok ⟨name.toList, value⟩ ∈ tag.attributes true := by
  obtain ⟨part, hpart, rfl⟩ := (Element.hasTag_render (valid_toElement message)).1 htag
  have hpartValid := hpart.valid (valid_toElement message)
  rw [Element.name_tagLayout, String.toList_inj, ElementType.tag_inj] at hname
  subst hname
  obtain ⟨value, hvalue⟩ := (h part hpart).1 name halways
  rw [Element.attributes_tagLayout hpartValid]
  refine ⟨(Element.attributeLayout (name, value)).value, List.mem_map.2 ⟨_, hvalue, ?_⟩⟩
  rw [Markup.AttributeLayout.attribute, Element.attributeLayout,
    Markup.Name.chars_ofString (hpartValid.fits.plainName hvalue)]

/-- An empty status of an application in a message is written as an attribute without a value. -/
theorem hasAttribute_status {app : App} (happ : app.toElement ∈ (toElement message).children)
    {type : ElementType} {name : String} (h : app.BlankStatus type name) :
    HasAttribute (encode message) type.tag.toList ⟨name.toList, []⟩ := by
  obtain ⟨part, hpart, rfl, hname⟩ := h.exists_part
  exact (Element.hasAttribute_render_nil (valid_toElement message)).2
    ⟨part, .child happ hpart, rfl, name, rfl, hname⟩

end Message

theorem App.emptyOnly_of_mem {apps : List App} {app : App} (happ : app ∈ apps) :
    app.toElement.EmptyOnly (BlankAt apps) :=
  app.emptyOnly.mono fun _ _ => Or.imp_right fun ⟨_, hother, h⟩ =>
    ⟨app, happ, List.mem_singleton.1 hother ▸ h⟩

theorem Request.emptyOnly (request : Request) :
    request.toElement.EmptyOnly (BlankAt request.apps) := by
  refine Element.eachPart_mk.2 ⟨⟨?_, fun name hname => ?_⟩, fun child hchild => ?_⟩
  · simp
  · simp only [Element.attributes_mk, List.mem_append, mem_textAttribute, not_mem_optionalAttribute,
      or_false] at hname
    exact .inl (List.mem_singleton.2 hname.1)
  · simp only [List.mem_append, List.mem_map] at hchild
    obtain ⟨os, -, rfl⟩ | ⟨app, happ, rfl⟩ := hchild
    · exact os.emptyAlways.blankAt _
    · exact App.emptyOnly_of_mem happ

theorem Response.emptyOnly (response : Response) :
    response.toElement.EmptyOnly (BlankAt response.apps) := by
  refine Element.eachPart_mk.2 ⟨⟨?_, fun name hname => ?_⟩, fun child hchild => ?_⟩
  · simp
  · simp only [Element.attributes_mk, List.mem_append, mem_textAttribute] at hname
    exact .inl (List.mem_pair.2 (hname.imp And.left And.left))
  · obtain rfl | hchild := List.mem_cons.1 hchild
    · exact response.daystart.emptyAlways.blankAt _
    · obtain ⟨app, happ, rfl⟩ := List.mem_map.1 hchild
      exact App.emptyOnly_of_mem happ

/-- An attribute is written without a value only if every element of its kind is written with it or
it is a status with the empty token, which is written like any other. -/
theorem empty_attributes {element key : List Char} :
    (∀ request : Request,
      (HasAttribute request.encode element ⟨key, []⟩ → ∃ type name,
        element = type.tag.toList ∧ key = name.toList ∧ BlankAt request.apps type name) ∧
      (∀ tag, HasTag request.encode tag → ∀ type : ElementType, tag.name = type.tag.toList →
        ∀ name ∈ type.always, ∃ value, .ok ⟨name.toList, value⟩ ∈ tag.attributes true) ∧
      ∀ app ∈ request.apps, ∀ type name, app.BlankStatus type name →
        HasAttribute request.encode type.tag.toList ⟨name.toList, []⟩) ∧
    (∀ response : Response,
      (HasAttribute response.encode element ⟨key, []⟩ → ∃ type name,
        element = type.tag.toList ∧ key = name.toList ∧ BlankAt response.apps type name) ∧
      (∀ tag, HasTag response.encode tag → ∀ type : ElementType, tag.name = type.tag.toList →
        ∀ name ∈ type.always, ∃ value, .ok ⟨name.toList, value⟩ ∈ tag.attributes true) ∧
      ∀ app ∈ response.apps, ∀ type name, app.BlankStatus type name →
        HasAttribute response.encode type.tag.toList ⟨name.toList, []⟩) := by
  refine ⟨fun request => ⟨Message.hasAttribute_nil request request.emptyOnly,
      fun tag htag type hname name => Message.exists_attribute request request.emptyOnly htag hname,
      fun app happ type name h => ?_⟩,
    fun response => ⟨Message.hasAttribute_nil response response.emptyOnly,
      fun tag htag type hname name =>
        Message.exists_attribute response response.emptyOnly htag hname,
      fun app happ type name h => ?_⟩⟩
  · have hchild : app.toElement ∈ request.toElement.children := by
      rw [Request.toElement]
      exact List.mem_append_right _ (List.mem_map_of_mem happ)
    exact Message.hasAttribute_status request hchild h
  · have hchild : app.toElement ∈ response.toElement.children := by
      rw [Response.toElement]
      exact List.mem_cons_of_mem _ (List.mem_map_of_mem happ)
    exact Message.hasAttribute_status response hchild h

/-- A response whose only application has an update check with an empty status. -/
def unsettledResponse : Response where
  apps := [({} : App).addUpdateCheck fun check => { check with status := some (.ofToken "") }]

/-- The status is written, and the id of the application is not. -/
theorem empty_unsettledResponse :
    HasAttribute unsettledResponse.encode "updatecheck".toList ⟨"status".toList, []⟩ ∧
    ¬ HasAttribute unsettledResponse.encode "app".toList ⟨"appid".toList, []⟩ := by
  constructor
  · refine ((@empty_attributes [] []).2 unsettledResponse).2.2 _ (List.mem_singleton_self _) _ _
      (.updateCheck rfl ?_)
    decide
  · intro h
    obtain ⟨type, name, htag, hkey, hblank⟩ := (empty_attributes.2 unsettledResponse).1 h
    obtain halways | ⟨app, -, hstatus⟩ := hblank
    · obtain rfl := String.toList_injective hkey
      obtain rfl : type = .app := by
        cases type <;> first | rfl | exact absurd htag (by decide)
      cases halways
    · cases hstatus <;> exact absurd hkey (by decide)

/-- A request whose only application has an empty status. -/
def unsettledRequest : Request where
  apps := [{ status := some (.other "") }]

set_option maxRecDepth 2000 in
/-- The request is read from a document and written again, with an attribute without a value that is
not always written. -/
theorem decode_unsettledRequest :
    unsettledRequest.encode = "<request protocol=\"\"><app status=\"\"/></request>" ∧
    Request.decode unsettledRequest.encode.toUTF8 = .ok unsettledRequest ∧
    HasAttribute unsettledRequest.encode "app".toList ⟨"status".toList, []⟩ ∧
    "status" ∉ ElementType.app.always := by
  have hsize : ("" ++ unsettledRequest.encode).toUTF8.size ≤ maxDocumentSize := by decide
  have hdecode := Message.decode_header_encode unsettledRequest (.inl rfl) hsize
  refine ⟨by decide, ?_, ?_, by decide⟩
  · rwa [String.empty_append] at hdecode
  · exact Message.hasAttribute_status unsettledRequest (List.mem_singleton_self _) (.app rfl)

end UpdateProtocol

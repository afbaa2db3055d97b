import UpdateProtocol.Proofs.Element.Alike

/-!
# What a message is read back as

Two things about a message leave no trace in its element: an empty group of download locations, and
whether a known token was written as a token or as its code.  `canon` settles both, and the message
found in the element of a message is its canonical form (`Request.ofElement_toElement`,
`Response.ofElement_toElement`).
-/

namespace UpdateProtocol

/-! ### Codes -/

/-- A vocabulary in which every code is found under its token. -/
class Vocabulary.Lawful (κ : Type) [Vocabulary κ] : Prop where
  find?_token : ∀ code : κ,
    (Vocabulary.all : List κ).find? (fun other => Vocabulary.token other == Vocabulary.token code) =
      some code

instance : Vocabulary.Lawful AppStatus := ⟨fun code => by cases code <;> decide⟩

instance : Vocabulary.Lawful UpdateStatus := ⟨fun code => by cases code <;> decide⟩

instance : Vocabulary.Lawful EventType := ⟨fun code => by cases code <;> decide⟩

instance : Vocabulary.Lawful EventResult := ⟨fun code => by cases code <;> decide⟩

namespace Code

variable {κ : Type} [Vocabulary κ]

/-- A token of the vocabulary stands for its code. -/
def canon : Code κ → Code κ
  | known code => known code
  | other token => ofToken token

theorem ofToken_token [Vocabulary.Lawful κ] (code : Code κ) :
    (ofToken code.token : Code κ) = code.canon := by
  cases code with
  | known code => rw [token_known, ofToken, Vocabulary.Lawful.find?_token, canon]
  | other token => rfl

end Code

/-! ### Canonical messages -/

/-- An event with its codes in canonical form. -/
def Event.canon (event : Event) : Event :=
  { event with eventType := event.eventType.canon, result := event.result.canon }

/-- An update check without an empty group of download locations. -/
def UpdateCheck.canon (check : UpdateCheck) : UpdateCheck :=
  { check with
    status := check.status.map Code.canon
    urls := check.urls.filter (fun urls => !urls.urls.isEmpty) }

/-- An application with all its parts in canonical form. -/
def App.canon (app : App) : App :=
  { app with
    status := app.status.map Code.canon
    updateCheck := app.updateCheck.map UpdateCheck.canon
    events := app.events.map Event.canon }

/-- A request with its applications in canonical form. -/
def Request.canon (request : Request) : Request :=
  { request with apps := request.apps.map App.canon }

/-- A response with its applications in canonical form. -/
def Response.canon (response : Response) : Response :=
  { response with apps := response.apps.map App.canon }

/-! ### Attributes by name -/

section Attributes

variable {name other : String}

@[simp] theorem lookup_textAttribute (text : String) :
    (textAttribute name text).lookup name = some (.text text) := by
  simp [textAttribute]

@[simp] theorem lookup_optionalAttribute (text : String) :
    (optionalAttribute name text).lookup name = if text = "" then none else some (.text text) := by
  unfold optionalAttribute
  split <;> simp_all

@[simp] theorem lookup_codeAttribute {κ : Type} [Vocabulary κ] (code : Option (Code κ)) :
    (codeAttribute name code).lookup name = code.map (fun code => .text code.token) := by
  cases code <;> simp [codeAttribute]

@[simp] theorem lookup_flagAttribute (value : Bool) :
    (flagAttribute name value).lookup name = some (.flag value) := by
  simp [flagAttribute]

@[simp] theorem lookup_markAttribute (value : Bool) :
    (markAttribute name value).lookup name = if value then some (.flag true) else none := by
  cases value <;> simp [markAttribute]

variable (h : other ≠ name)
include h

@[simp] theorem lookup_textAttribute_ne (text : String) :
    (textAttribute name text).lookup other = none := by
  simp [textAttribute, h]

@[simp] theorem lookup_optionalAttribute_ne (text : String) :
    (optionalAttribute name text).lookup other = none := by
  unfold optionalAttribute
  split <;> simp [h]

@[simp] theorem lookup_codeAttribute_ne {κ : Type} [Vocabulary κ] (code : Option (Code κ)) :
    (codeAttribute name code).lookup other = none := by
  cases code <;> simp [codeAttribute, h]

@[simp] theorem lookup_flagAttribute_ne (value : Bool) :
    (flagAttribute name value).lookup other = none := by
  simp [flagAttribute, h]

@[simp] theorem lookup_markAttribute_ne (value : Bool) :
    (markAttribute name value).lookup other = none := by
  cases value <;> simp [markAttribute, h]

end Attributes

/-- The text of a value that may be missing. -/
def Value.textOf : Option Value → String
  | some (.text content) => content
  | _ => ""

@[simp] theorem Value.textOf_text (text : String) : textOf (some (.text text)) = text := rfl

/-- An optional text is read back, an absent one as the empty text. -/
@[simp] theorem Value.textOf_optional (text : String) :
    textOf (if text = "" then none else some (.text text)) = text := by
  split_ifs with h
  · exact h.symm
  · rfl

/-- The truth value of a value that may be missing. -/
def Value.flagOf : Option Value → Bool
  | some (.flag value) => value
  | _ => false

@[simp] theorem Value.flagOf_flag (value : Bool) : flagOf (some (.flag value)) = value := rfl

@[simp] theorem Value.flagOf_mark (value : Bool) :
    flagOf (if value then some (.flag true) else none) = value := by
  cases value <;> rfl

namespace Element

variable {type part t : ElementType} {attributes rest : List (String × Value)}
  {children : List Element} {name : String} {α : Type}

@[simp] theorem type_mk : (mk type attributes children).type = type := rfl

@[simp] theorem attributes_mk : (mk type attributes children).attributes = attributes := rfl

@[simp] theorem children_mk : (mk type attributes children).children = children := rfl

theorem text_eq_textOf (element : Element) (name : String) :
    element.text name = Value.textOf (element.value? name) := by
  rw [text, text?]
  cases element.value? name with
  | none => rfl
  | some value => cases value <;> rfl

theorem flag_eq_flagOf (element : Element) (name : String) :
    element.flag name = Value.flagOf (element.value? name) := by
  rw [flag]
  cases element.value? name with
  | none => rfl
  | some value => cases value <;> rfl

/-- A code is read back in canonical form. -/
theorem code?_of_value? {κ : Type} [Vocabulary κ] [Vocabulary.Lawful κ] {element : Element}
    {code : Option (Code κ)}
    (h : element.value? name = code.map (fun code => .text code.token)) :
    element.code? name = code.map Code.canon := by
  rw [code?, text?, h]
  cases code with
  | none => rfl
  | some code => exact congrArg some code.ofToken_token

theorem code_of_value? {κ : Type} [Vocabulary κ] [Vocabulary.Lawful κ] {element : Element}
    {code : Code κ} (h : element.value? name = some (.text code.token)) :
    element.code name = code.canon := by
  rw [Element.code, text_eq_textOf, h]
  exact code.ofToken_token

/-! ### Children by type -/

theorem ofType_map {f : α → Element} (h : ∀ a, (f a).type = part) (items : List α)
    (t : ElementType) :
    (items.map f).filter (fun child => child.type == t) = if part = t then items.map f else [] := by
  split_ifs with ht
  · exact List.filter_eq_self.2 fun child hchild => by
      obtain ⟨a, -, rfl⟩ := List.mem_map.1 hchild
      simp [h, ht]
  · exact List.filter_eq_nil_iff.2 fun child hchild => by
      obtain ⟨a, -, rfl⟩ := List.mem_map.1 hchild
      simp [h, ht]

end Element

/-! ### Parts of messages -/

@[simp] theorem Os.type_toElement (os : Os) : os.toElement.type = .os := rfl

@[simp] theorem DayStart.type_toElement (daystart : DayStart) :
    daystart.toElement.type = .daystart := rfl

@[simp] theorem Ping.type_toElement (ping : Ping) : ping.toElement.type = .ping := rfl

@[simp] theorem Event.type_toElement (event : Event) : event.toElement.type = .event := rfl

@[simp] theorem Url.type_toElement (url : Url) : url.toElement.type = .url := rfl

@[simp] theorem Urls.type_toElement (urls : Urls) : urls.toElement.type = .urls := rfl

@[simp] theorem Package.type_toElement (package : Package) :
    package.toElement.type = .package := rfl

@[simp] theorem Action.type_toElement (action : Action) : action.toElement.type = .action := rfl

@[simp] theorem Manifest.type_toElement (manifest : Manifest) :
    manifest.toElement.type = .manifest := rfl

@[simp] theorem UpdateCheck.type_toElement (check : UpdateCheck) :
    check.toElement.type = .updateCheck := rfl

@[simp] theorem App.type_toElement (app : App) : app.toElement.type = .app := rfl

theorem Os.ofElement_toElement (os : Os) : Os.ofElement os.toElement = os := by
  simp [Os.ofElement, Os.toElement, Element.text_eq_textOf, Element.value?, List.lookup_append]

theorem DayStart.ofElement_toElement (daystart : DayStart) :
    DayStart.ofElement daystart.toElement = daystart := by
  simp [DayStart.ofElement, DayStart.toElement, Element.text_eq_textOf, Element.value?]

theorem Ping.ofElement_toElement (ping : Ping) : Ping.ofElement ping.toElement = ping := by
  simp [Ping.ofElement, Ping.toElement, Element.text_eq_textOf, Element.value?, List.lookup_append]

theorem Url.ofElement_toElement (url : Url) : Url.ofElement url.toElement = url := by
  simp [Url.ofElement, Url.toElement, Element.text_eq_textOf, Element.value?, Element.attributes]

theorem Event.ofElement_toElement (event : Event) :
    Event.ofElement event.toElement = event.canon := by
  simp only [Event.ofElement, Event.canon, Event.mk.injEq, Element.text_eq_textOf]
  refine ⟨Element.code_of_value? ?_, Element.code_of_value? ?_, ?_, ?_, ?_⟩ <;>
    simp [Event.toElement, Element.value?, List.lookup_append]

theorem Package.ofElement_toElement (package : Package) :
    Package.ofElement package.toElement = package := by
  simp [Package.ofElement, Package.toElement, Element.text_eq_textOf, Element.flag_eq_flagOf,
    Element.size, Element.value?, List.lookup_append, List.lookup_cons]

theorem Action.ofElement_toElement (action : Action) :
    Action.ofElement action.toElement = action := by
  simp [Action.ofElement, Action.toElement, Element.text_eq_textOf, Element.flag_eq_flagOf,
    Element.value?, List.lookup_append]

theorem Urls.ofElement_toElement (urls : Urls) : Urls.ofElement urls.toElement = urls := by
  simp [Urls.ofElement, Urls.toElement, Element.members, Element.ofType_map Url.type_toElement,
    Function.comp_def, Url.ofElement_toElement]

theorem Manifest.ofElement_toElement (manifest : Manifest) :
    Manifest.ofElement manifest.toElement = manifest := by
  simp [Manifest.ofElement, Manifest.toElement, Element.groupMembers, Element.child?,
    Element.members, Element.text_eq_textOf, Element.value?,
    Element.ofType_map Package.type_toElement, Element.ofType_map Action.type_toElement,
    Function.comp_def, Package.ofElement_toElement, Action.ofElement_toElement]

theorem UpdateCheck.members_toElement (check : UpdateCheck) (t : ElementType) :
    check.toElement.members t =
      (if .urls = t then
        (check.urls.toList.filter (fun urls => !urls.urls.isEmpty)).map Urls.toElement else []) ++
        (if .manifest = t then check.manifest.toList.map Manifest.toElement else []) := by
  rw [Element.members, UpdateCheck.toElement, Element.children_mk, List.filter_append,
    Element.ofType_map Urls.type_toElement, Element.ofType_map Manifest.type_toElement]

theorem UpdateCheck.ofElement_toElement (check : UpdateCheck) :
    UpdateCheck.ofElement check.toElement = check.canon := by
  simp only [UpdateCheck.ofElement, UpdateCheck.canon, UpdateCheck.mk.injEq,
    Element.Alike.child?_eq_head?, UpdateCheck.members_toElement]
  refine ⟨?_, Element.code?_of_value? ?_, ?_, ?_⟩
  case refine_3 =>
    cases check.urls with
    | none => simp
    | some urls =>
      by_cases hempty : urls.urls = [] <;>
        simp [hempty, Option.filter_some, Urls.ofElement_toElement]
  case refine_4 => cases check.manifest <;> simp [Manifest.ofElement_toElement]
  all_goals
    simp [UpdateCheck.toElement, Element.text_eq_textOf, Element.value?, List.lookup_append]

theorem App.members_toElement (app : App) (t : ElementType) : app.toElement.members t =
    (if .ping = t then app.ping.toList.map Ping.toElement else []) ++
      (if .updateCheck = t then app.updateCheck.toList.map UpdateCheck.toElement else []) ++
        (if .event = t then app.events.map Event.toElement else []) := by
  rw [Element.members, App.toElement, Element.children_mk, List.filter_append, List.filter_append,
    Element.ofType_map Ping.type_toElement, Element.ofType_map UpdateCheck.type_toElement,
    Element.ofType_map Event.type_toElement]

theorem App.ofElement_toElement (app : App) : App.ofElement app.toElement = app.canon := by
  simp only [App.ofElement, App.canon, App.mk.injEq, Element.text_eq_textOf,
    Element.Alike.child?_eq_head?, App.members_toElement]
  refine ⟨?_, ?_, ?_, ?_, ?_, ?_, Element.code?_of_value? ?_, ?_, ?_, ?_, ?_, ?_, ?_, ?_, ?_⟩
  case refine_13 => cases app.ping <;> simp [Ping.ofElement_toElement]
  case refine_14 => cases app.updateCheck <;> simp [UpdateCheck.ofElement_toElement]
  case refine_15 => simp [Function.comp_def, Event.ofElement_toElement]
  all_goals
    simp [App.toElement, Element.value?, List.lookup_append]

/-! ### Messages -/

theorem Request.members_toElement (request : Request) (t : ElementType) :
    request.toElement.members t =
      (if .os = t then request.os.toList.map Os.toElement else []) ++
        (if .app = t then request.apps.map App.toElement else []) := by
  rw [Element.members, Request.toElement, Element.children_mk, List.filter_append,
    Element.ofType_map Os.type_toElement, Element.ofType_map App.type_toElement]

/-- The request in the element of a request is its canonical form. -/
theorem Request.ofElement_toElement (request : Request) :
    Request.ofElement request.toElement = request.canon := by
  simp only [Request.ofElement, Request.canon, Request.mk.injEq, Element.text_eq_textOf,
    Element.Alike.child?_eq_head?, Request.members_toElement]
  refine ⟨?_, ?_, ?_, ?_, ?_, ?_, ?_, ?_, ?_, ?_, ?_⟩
  case refine_10 => cases request.os <;> simp [Os.ofElement_toElement]
  case refine_11 => simp [Function.comp_def, App.ofElement_toElement]
  all_goals
    simp [Request.toElement, Element.value?, List.lookup_append]

theorem Response.members_toElement (response : Response) (t : ElementType) :
    response.toElement.members t =
      (if .daystart = t then [response.daystart.toElement] else []) ++
        (if .app = t then response.apps.map App.toElement else []) := by
  have hchildren : response.daystart.toElement :: response.apps.map App.toElement =
      [response.daystart].map DayStart.toElement ++ response.apps.map App.toElement := rfl
  rw [Element.members, Response.toElement, Element.children_mk, hchildren, List.filter_append,
    Element.ofType_map DayStart.type_toElement, Element.ofType_map App.type_toElement]
  rfl

/-- The response in the element of a response is its canonical form. -/
theorem Response.ofElement_toElement (response : Response) :
    Response.ofElement response.toElement = response.canon := by
  simp only [Response.ofElement, Response.canon, Response.mk.injEq, Element.text_eq_textOf,
    Element.Alike.child?_eq_head?, Response.members_toElement]
  refine ⟨?_, ?_, ?_, ?_⟩
  case refine_3 => simp [DayStart.ofElement_toElement]
  case refine_4 => simp [Function.comp_def, App.ofElement_toElement]
  all_goals
    simp [Response.toElement, Element.value?, List.lookup_append]

end UpdateProtocol

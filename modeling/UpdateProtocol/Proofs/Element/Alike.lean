import UpdateProtocol.Message.Element
import UpdateProtocol.Proofs.Element.Valid
import UpdateProtocol.Proofs.Lists

/-!
# Elements that hold the same message

The order of attributes does not matter to a message, and of the order of children only the order
among children of one type.  Elements are `Alike` if they agree up to this.  What is found in them by
name is then the same, and elements in which the same is found (`Agrees`) hold equal parts of
messages.
-/

namespace UpdateProtocol

namespace Element

/-- The elements of a type in a list. -/
def ofType (type : ElementType) (elements : List Element) : List Element :=
  elements.filter (fun element => element.type == type)

/-- Elements that agree up to the order of attributes and of children of different types. -/
inductive Alike : Element → Element → Prop
  | intro {e e' : Element} (type_eq : e'.type = e.type)
      (value_eq : ∀ name, e'.value? name = e.value? name)
      (children : ∀ type, List.Forall₂ Alike (ofType type e.children) (ofType type e'.children)) :
      Alike e e'

/-- Elements in which the same is found.  A false truth value may be there or not. -/
inductive Agrees : Element → Element → Prop
  | intro {e e' : Element} (type_eq : e'.type = e.type)
      (text?_eq : ∀ name, e'.text? name = e.text? name)
      (flag_eq : ∀ name, e'.flag name = e.flag name)
      (size_eq : ∀ name, e'.size name = e.size name)
      (children : ∀ type, List.Forall₂ Agrees (ofType type e.children) (ofType type e'.children)) :
      Agrees e e'

theorem map_groupMembers_eq {α : Type} (element : Element) (group member : ElementType)
    (f : Element → α) : (element.groupMembers group member).map f =
      ((element.child? group).map (fun found => (found.members member).map f)).getD [] := by
  rw [groupMembers]
  cases element.child? group <;> rfl

namespace Alike

variable {e e' : Element}

theorem type_eq (h : Alike e e') : e'.type = e.type := by
  cases h
  assumption

theorem child?_eq_head? (element : Element) (type : ElementType) :
    element.child? type = (element.members type).head? := by
  rw [child?, Element.members, List.head?_filter]

/-- In elements that are alike the same is found. -/
theorem agrees (e : Element) : ∀ e', Alike e e' → Agrees e e' := by
  induction e using Element.induct with
  | step e ih =>
  rintro e' ⟨type_eq, value_eq, children⟩
  refine .intro type_eq (fun name => ?_) (fun name => ?_) (fun name => ?_) fun type => ?_
  · rw [text?, value_eq, text?]
  · rw [flag, value_eq, flag]
  · rw [size, value_eq, size]
  · exact forall₂_of_mem (children type) fun child hchild other h =>
      ih child (List.mem_of_mem_filter hchild) other h

end Alike

namespace Agrees

variable {e e' : Element} {α : Type}

theorem refl (e : Element) : Agrees e e := by
  induction e using Element.induct with
  | step e ih =>
  exact .intro rfl (fun _ => rfl) (fun _ => rfl) (fun _ => rfl) fun type =>
    List.forall₂_same.2 fun child hchild => ih child (List.mem_of_mem_filter hchild)

/-- A child may be replaced by one in which the same is found. -/
theorem replace_child {type : ElementType} {values : List (String × Value)}
    {before after : List Element} (h : Agrees e e') (htype : e'.type = e.type) :
    Agrees (mk type values (before ++ e :: after)) (mk type values (before ++ e' :: after)) := by
  have hrefl (elements : List Element) : List.Forall₂ Agrees elements elements :=
    List.forall₂_same.2 fun child _ => refl child
  refine .intro rfl (fun _ => rfl) (fun _ => rfl) (fun _ => rfl) fun type => ?_
  simp only [children, ofType, List.filter_append, List.filter_cons, htype]
  refine List.rel_append (hrefl _) ?_
  split_ifs
  · exact .cons h (hrefl _)
  · exact hrefl _

theorem text?_eq (h : Agrees e e') (name : String) : e'.text? name = e.text? name := by
  cases h with
  | intro _ text?_eq => exact text?_eq name

theorem text_eq (h : Agrees e e') (name : String) : e'.text name = e.text name := by
  rw [text, h.text?_eq, text]

theorem flag_eq (h : Agrees e e') (name : String) : e'.flag name = e.flag name := by
  cases h with
  | intro _ _ flag_eq => exact flag_eq name

theorem size_eq (h : Agrees e e') (name : String) : e'.size name = e.size name := by
  cases h with
  | intro _ _ _ size_eq => exact size_eq name

theorem members (h : Agrees e e') (type : ElementType) :
    List.Forall₂ Agrees (e.members type) (e'.members type) := by
  cases h with
  | intro _ _ _ _ children => exact children type

theorem code_eq {κ : Type} [Vocabulary κ] (h : Agrees e e') (name : String) :
    (e'.code name : Code κ) = e.code name := by
  rw [code, h.text_eq, code]

theorem code?_eq {κ : Type} [Vocabulary κ] (h : Agrees e e') (name : String) :
    (e'.code? name : Option (Code κ)) = e.code? name := by
  rw [code?, h.text?_eq, code?]

/-- What is found in the children of a type is found in the same order. -/
theorem map_members (h : Agrees e e') (type : ElementType) {f : Element → α}
    (hf : ∀ {a a'}, Agrees a a' → f a' = f a) :
    (e'.members type).map f = (e.members type).map f :=
  map_eq_of_forall₂ (h.members type) hf

theorem map_child? (h : Agrees e e') (type : ElementType) {f : Element → α}
    (hf : ∀ {a a'}, Agrees a a' → f a' = f a) :
    (e'.child? type).map f = (e.child? type).map f := by
  rw [Alike.child?_eq_head?, Alike.child?_eq_head?, ← List.head?_map, ← List.head?_map,
    h.map_members type hf]

theorem map_groupMembers (h : Agrees e e') (group member : ElementType) {f : Element → α}
    (hf : ∀ {a a'}, Agrees a a' → f a' = f a) :
    (e'.groupMembers group member).map f = (e.groupMembers group member).map f := by
  rw [map_groupMembers_eq, map_groupMembers_eq,
    h.map_child? group fun hgroup => hgroup.map_members member hf]

end Agrees

end Element

/-! ### Parts of messages -/

open Element (Agrees Alike)

variable {e e' : Element}

theorem Os.ofElement_agrees (h : Agrees e e') : Os.ofElement e' = Os.ofElement e := by
  simp only [Os.ofElement, h.text_eq]

theorem DayStart.ofElement_agrees (h : Agrees e e') :
    DayStart.ofElement e' = DayStart.ofElement e := by
  simp only [DayStart.ofElement, h.text_eq]

theorem Ping.ofElement_agrees (h : Agrees e e') : Ping.ofElement e' = Ping.ofElement e := by
  simp only [Ping.ofElement, h.text_eq]

theorem Event.ofElement_agrees (h : Agrees e e') : Event.ofElement e' = Event.ofElement e := by
  simp only [Event.ofElement, h.text_eq, h.code_eq]

theorem Url.ofElement_agrees (h : Agrees e e') : Url.ofElement e' = Url.ofElement e := by
  simp only [Url.ofElement, h.text_eq]

theorem Urls.ofElement_agrees (h : Agrees e e') : Urls.ofElement e' = Urls.ofElement e := by
  simp only [Urls.ofElement, h.map_members _ Url.ofElement_agrees]

theorem Package.ofElement_agrees (h : Agrees e e') :
    Package.ofElement e' = Package.ofElement e := by
  simp only [Package.ofElement, h.text_eq, h.size_eq, h.flag_eq]

theorem Action.ofElement_agrees (h : Agrees e e') : Action.ofElement e' = Action.ofElement e := by
  simp only [Action.ofElement, h.text_eq, h.flag_eq]

theorem Manifest.ofElement_agrees (h : Agrees e e') :
    Manifest.ofElement e' = Manifest.ofElement e := by
  simp only [Manifest.ofElement, h.text_eq, h.map_groupMembers _ _ Package.ofElement_agrees,
    h.map_groupMembers _ _ Action.ofElement_agrees]

theorem UpdateCheck.ofElement_agrees (h : Agrees e e') :
    UpdateCheck.ofElement e' = UpdateCheck.ofElement e := by
  simp only [UpdateCheck.ofElement, h.text_eq, h.code?_eq, h.map_child? _ Urls.ofElement_agrees,
    h.map_child? _ Manifest.ofElement_agrees]

theorem App.ofElement_agrees (h : Agrees e e') : App.ofElement e' = App.ofElement e := by
  simp only [App.ofElement, h.text_eq, h.code?_eq, h.map_child? _ Ping.ofElement_agrees,
    h.map_child? _ UpdateCheck.ofElement_agrees, h.map_members _ Event.ofElement_agrees]

theorem Request.ofElement_agrees (h : Agrees e e') :
    Request.ofElement e' = Request.ofElement e := by
  simp only [Request.ofElement, h.text_eq, h.map_child? _ Os.ofElement_agrees,
    h.map_members _ App.ofElement_agrees]

theorem Response.ofElement_agrees (h : Agrees e e') :
    Response.ofElement e' = Response.ofElement e := by
  simp only [Response.ofElement, h.text_eq, h.map_child? _ DayStart.ofElement_agrees,
    h.map_members _ App.ofElement_agrees]

/-- Elements that are alike hold the same request. -/
theorem Request.ofElement_alike (h : Alike e e') : Request.ofElement e' = Request.ofElement e :=
  Request.ofElement_agrees (h.agrees e e')

/-- Elements that are alike hold the same response. -/
theorem Response.ofElement_alike (h : Alike e e') :
    Response.ofElement e' = Response.ofElement e :=
  Response.ofElement_agrees (h.agrees e e')

end UpdateProtocol

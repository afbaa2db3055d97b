import UpdateProtocol.Proofs.Element.Acceptance
import UpdateProtocol.Proofs.Element.Layout
import UpdateProtocol.Proofs.Message.Canonical

/-!
# Deleting from an element

An attribute or a child is deleted from the text of an element (`Element.Deleted`).  Unless the
attribute is mandatory, what is left is the text of a valid element, and it differs from the one
before in what has been deleted only (`Deleted.value?_eq`, `Deleted.get_child?`,
`Deleted.map_members`).  Without a mandatory attribute it describes no element of its type
(`Deleted.not_describes`).
-/

namespace UpdateProtocol

open Markup (AttributeLayout Name Node)

/-! ### Mandatory attributes -/

/-- The names of the attributes that an element of a type must not lack. -/
def ElementType.mandatory : ElementType → List String
  | event => ["eventtype", "eventresult"]
  | manifest => ["version"]
  | package => ["hash", "name", "size"]
  | action => ["event"]
  | _ => []

/-- They are those that the table requires. -/
theorem ElementType.mandatory_eq (type : ElementType) :
    type.mandatory =
      (type.attributes.filter AttributeType.required).map AttributeType.name := by
  cases type <;> rfl

/-- Something in an element: an attribute, a child with all that is in it, or something in a child.
Children are numbered among those of their type. -/
inductive Place where
  | attr (name : String)
  | child (type : ElementType) (index : Nat)
  | inside (type : ElementType) (index : Nat) (place : Place)
  deriving DecidableEq, Repr

/-- Whether a place in an element of a type is a mandatory attribute. -/
def Place.isMandatory (type : ElementType) : Place → Bool
  | attr name => type.mandatory.contains name
  | child _ _ => false
  | inside part _ place => place.isMandatory part

namespace Place

variable {α : Type}

/-- A text, which becomes empty if its attribute is deleted. -/
def resetText (place : Place) (name text : String) : String :=
  if place = .attr name then "" else text

/-- A mandatory attribute is not deleted where none is. -/
theorem ne_attr {type : ElementType} {place : Place} (optional : place.isMandatory type = false)
    {name : String} (hname : name ∈ type.mandatory) : place ≠ .attr name := by
  rintro rfl
  simp [isMandatory, hname] at optional

theorem resetText_eq {place : Place} {name : String} (hname : place ≠ .attr name) (text : String) :
    place.resetText name text = text :=
  if_neg hname

/-- A truth value, which becomes false if its attribute is deleted. -/
def resetFlag (place : Place) (name : String) (value : Bool) : Bool :=
  if place = .attr name then false else value

/-- An optional code, which goes if its attribute is deleted. -/
def resetCode {κ : Type} (place : Place) (name : String) (code : Option (Code κ)) :
    Option (Code κ) :=
  if place = .attr name then none else code

/-- What stands in the only child of a type: it takes the value for an absent child if that child is
deleted, and is itself reset if something is deleted in the child. -/
def resetPart (place : Place) (type : ElementType) (absent : α) (reset : α → Place → α) (item : α) :
    α :=
  match place with
  | attr _ => item
  | child found _ => if found = type then absent else item
  | inside found _ inner => if found = type then reset item inner else item

/-- What stands in the only child of a type, if there is one. -/
def resetOption (place : Place) (type : ElementType) (reset : α → Place → α) (item : Option α) :
    Option α :=
  place.resetPart type none (fun item inner => item.map (fun item => reset item inner)) item

/-- What stands in the children of a type, in order: one of them goes if its child is deleted, and
is itself reset if something is deleted in its child. -/
def resetList (place : Place) (type : ElementType) (reset : α → Place → α) (items : List α) :
    List α :=
  match place with
  | attr _ => items
  | child found i => if found = type then items.eraseIdx i else items
  | inside found i inner =>
      if found = type then items.modify i (fun item => reset item inner) else items

end Place

namespace Element

/-! ### What is left -/

/-- What is left of an element when something is deleted from its text, as an element and as a node.
An element keeps both of its tags when its only child is deleted. -/
inductive Deleted : Element → Place → Element → Node → Prop
  | attr {type : ElementType} {value : String × Value} {before after : List (String × Value)}
      {children : List Element} :
      Deleted (mk type (before ++ value :: after) children) (.attr value.1)
        (mk type (before ++ after) children) (mk type (before ++ after) children).layout
  | child {type : ElementType} {values : List (String × Value)} {child : Element}
      {before after : List Element} :
      Deleted (mk type values (before ++ child :: after))
        (.child child.type (ofType child.type before).length) (mk type values (before ++ after))
        (.paired {} (tagLayout type values) ((before ++ after).map layout) {})
  | inside {type : ElementType} {values : List (String × Value)} {child left : Element}
      {before after : List Element} {place : Place} {node : Node}
      (inner : Deleted child place left node) :
      Deleted (mk type values (before ++ child :: after))
        (.inside child.type (ofType child.type before).length place)
        (mk type values (before ++ left :: after))
        (.paired {} (tagLayout type values) (before.map layout ++ node :: after.map layout) {})

namespace Deleted

variable {element left : Element} {place : Place} {node : Node}

theorem type_eq (h : Deleted element place left node) : left.type = element.type := by
  cases h <;> rfl

/-! ### Texts -/

/-- A deletion cuts one part out of the text. -/
theorem exists_write (h : Deleted element place left node) :
    ∃ first item rest, element.layout.write = first ++ item ++ rest ∧
      node.write = first ++ rest := by
  induction h with
  | @attr type value before after children =>
    obtain ⟨rest, hrest⟩ := exists_write_layout type children
    refine ⟨['<'] ++ (Name.ofString type.tag).chars ++
      (before.map attributeLayout).flatMap AttributeLayout.write, (attributeLayout value).write,
      (after.map attributeLayout).flatMap AttributeLayout.write ++ rest, ?_, ?_⟩ <;>
    simp [hrest]
  | @child type values child before after =>
    refine ⟨['<'] ++ (tagLayout type values).write ++ ['>'] ++
      Node.writeAll (before.map layout), child.layout.write,
      Node.writeAll (after.map layout) ++ ['<', '/'] ++ (tagLayout type values).name.chars ++ ['>'],
      ?_, ?_⟩ <;>
    simp [layout_mk_append, Node.write, Node.writeAll_eq]
  | @inside type values child left before after place node inner ih =>
    obtain ⟨first, item, rest, hchild, hnode⟩ := ih
    refine ⟨['<'] ++ (tagLayout type values).write ++ ['>'] ++
      Node.writeAll (before.map layout) ++ first, item,
      rest ++ Node.writeAll (after.map layout) ++ ['<', '/'] ++
        (tagLayout type values).name.chars ++ ['>'], ?_, ?_⟩ <;>
    simp [layout_mk_append, Node.write, Node.writeAll_eq, hchild, hnode]

/-! ### Validity -/

/-- What is left is valid unless a mandatory attribute is missing. -/
theorem valid (h : Deleted element place left node) (valid : element.Valid)
    (optional : place.isMandatory element.type = false) : left.Valid := by
  induction h with
  | @attr type value before after children =>
    cases valid with
    | intro fits known compatible valid =>
    refine .intro (fits.erase fun attr hattr hname => ?_) known
      compatible valid
    by_contra hrequired
    rw [Bool.not_eq_false] at hrequired
    rw [Place.isMandatory, ElementType.mandatory_eq, List.contains_eq_mem,
      decide_eq_false_iff_not] at optional
    exact optional (List.mem_map.2 ⟨attr, List.mem_filter.2 ⟨hattr, hrequired⟩, hname⟩)
  | @child type values child before after =>
    cases valid with
    | intro fits known compatible valid =>
    have hsublist : List.Sublist (before ++ after) (before ++ child :: after) :=
      (List.sublist_cons_self child after).append_left before
    exact .intro fits (fun other hmem => known other (hsublist.subset hmem))
      (compatible.sublist hsublist) fun other hmem => valid other (hsublist.subset hmem)
  | @inside type values child left before after place node inner ih =>
    exact valid.replace_child inner.type_eq (ih valid.child.1 optional)

/-! ### The node of what is left -/

/-- The node spells what is left, valid or not, and is read without a fault. -/
theorem spelled_calm (h : Deleted element place left node) (valid : element.Valid) :
    Spelled left node ∧ node.Calm := by
  have layouts {elements : List Element} (valid : ∀ element ∈ elements, element.Valid) :
      List.Forall₂ (fun element child => Spelled element child ∧ child.Calm) elements
        (elements.map layout) :=
    List.forall₂_map_right_iff.2
      (List.forall₂_same.2 fun element hmem => spelled_calm_layout (valid element hmem))
  induction h with
  | @attr type value before after children =>
    cases valid with
    | intro fits known compatible valid =>
    refine spelled_calm_of_tag (lead_layout _) (trail_layout _) (tag_layout _)
      (fun other hmem => fits.plainName ?_) ?_
    · exact List.mem_append.2 ((List.mem_append.1 hmem).imp_right (List.mem_cons_of_mem _))
    · rw [children_layout]
      exact layouts valid
  | @child type values child before after =>
    cases valid with
    | intro fits known compatible valid =>
    refine spelled_calm_of_tag rfl rfl rfl (fun value => fits.plainName)
      (layouts fun other hmem => valid other ?_)
    exact ((List.sublist_cons_self child after).append_left before).subset hmem
  | @inside type values child left before after place node inner ih =>
    cases valid with
    | intro fits known compatible valid =>
    simp only [List.forall_mem_append, List.forall_mem_cons] at valid
    exact spelled_calm_of_tag rfl rfl rfl (fun value => fits.plainName)
      (List.rel_append (layouts valid.1) (.cons (ih valid.2.1) (layouts valid.2.2)))

/-- Without a mandatory attribute the node describes no element of its type. -/
theorem not_describes (h : Deleted element place left node) (valid : element.Valid)
    (mandatory : place.isMandatory element.type = true) :
    ∀ found, Describes node found → found.type ≠ element.type := by
  induction h with
  | @attr type value before after children =>
    intro found describe htype
    cases valid with
    | intro fits known compatible valid =>
    rw [Place.isMandatory, ElementType.mandatory_eq, List.contains_eq_mem,
      decide_eq_true_eq] at mandatory
    obtain ⟨attr, hattr, hname⟩ := List.mem_map.1 mandatory
    obtain ⟨hattr, hrequired⟩ := List.mem_filter.1 hattr
    have honce : ((before ++ value :: after).map Prod.fst).Nodup :=
      fits.nodup
    cases describe with
    | intro distinct attributes perm once complete _ _ =>
    cases htype
    have hmem := (perm.map Prod.fst).mem_iff.2 (complete attr hattr hrequired)
    obtain ⟨written, hwritten, known, hfield, hknown⟩ := attributes.exists_of_mem hmem
    obtain ⟨layout, hlayout, rfl⟩ := List.mem_map.1 hwritten
    rw [tag_layout] at hlayout
    obtain ⟨other, hother, rfl⟩ := List.mem_map.1 hlayout
    have hmiddle : other ∈ before ++ value :: after :=
      List.mem_append.2 ((List.mem_append.1 hother).imp_right (List.mem_cons_of_mem _))
    obtain ⟨found, hfound, hotherName, -⟩ := fits.exists_of_mem hmiddle
    rw [AttributeLayout.attribute, attributeLayout, Name.chars_ofString (fits.plainName hmiddle),
      hotherName, type.field?_attribute found hfound] at hfield
    cases hfield
    -- the attribute that is found has the name of the deleted one
    have hdeleted := (List.nodup_cons.1 ((List.perm_middle.map Prod.fst).nodup_iff.1 honce)).1
    exact hdeleted (List.mem_map.2 ⟨other, hother, by rw [hotherName, hknown, hname]⟩)
  | child => cases mandatory
  | @inside type values child left before after place node inner ih =>
    cases valid with
    | intro fits known compatible valid =>
    simp only [List.forall_mem_append, List.forall_mem_cons] at known valid
    have hname : node.name = child.type.tag.toList := by
      rw [(inner.spelled_calm valid.2.1).1.name_eq, inner.type_eq]
    exact not_describes_of_child (List.mem_append_right _ List.mem_cons_self) hname known.2.1
      (ih valid.2.1 mandatory)

/-! ### What is found in what is left -/

section Values

variable (h : Deleted element place left node) (valid : element.Valid) (name : String)

include h valid

/-- Only a deleted attribute is not found any more. -/
theorem value?_eq :
    left.value? name = if place = .attr name then none else element.value? name := by
  cases h with
  | @attr type value before after children =>
    cases valid with
    | intro fits known compatible valid =>
    rw [value?, attributes_mk, lookup_append fits.nodup]
    simp [value?, eq_comm]
  | child => rw [if_neg (by simp)]; rfl
  | inside => rw [if_neg (by simp)]; rfl

theorem text_eq : left.text name = place.resetText name (element.text name) := by
  rw [text_eq_textOf, text_eq_textOf, h.value?_eq valid, Place.resetText]
  split_ifs <;> rfl

theorem flag_eq : left.flag name = place.resetFlag name (element.flag name) := by
  rw [flag_eq_flagOf, flag_eq_flagOf, h.value?_eq valid, Place.resetFlag]
  split_ifs <;> rfl

theorem code?_eq {κ : Type} [Vocabulary κ] :
    (left.code? name : Option (Code κ)) = place.resetCode name (element.code? name) := by
  rw [code?, code?, text?, text?, h.value?_eq valid, Place.resetCode]
  split_ifs <;> rfl

theorem size_eq (hname : place ≠ .attr name) : left.size name = element.size name := by
  rw [size, h.value?_eq valid, if_neg hname, size]

end Values

end Deleted

variable {α : Type} {f : Element → α} {reset : α → Place → α}

/-- Deleting something in the elements of a type resets what is found in them. -/
def Resets (type : ElementType) (f : Element → α) (reset : α → Place → α) : Prop :=
  ∀ ⦃element : Element⦄ ⦃place : Place⦄ ⦃left : Element⦄ ⦃node : Node⦄,
    Deleted element place left node → element.Valid → element.type = type →
      place.isMandatory type = false → f left = reset (f element) place

namespace Deleted

variable {element left : Element} {place : Place} {node : Node} {part : ElementType}
  (h : Deleted element place left node) (valid : element.Valid)
  (optional : place.isMandatory element.type = false)

include h valid optional

/-- A child that stands once is missing, or something in it is, or it is as before. -/
theorem get_child? (get : Option Element → α)
    (hreset : Resets part (fun child => get (some child)) reset)
    (hpart : part ∈ element.type.children) :
    get (left.child? part) = place.resetPart part (get none) reset (get (element.child? part)) := by
  cases h with
  | attr => rfl
  | @child type values child before after =>
    cases valid with
    | intro fits known compatible valid =>
    simp only [child?, children_mk, List.find?_append, List.find?_cons, Place.resetPart]
    by_cases htype : child.type = part
    · subst htype
      obtain ⟨hbefore, hafter⟩ := find?_of_once compatible hpart
      simp [hbefore, hafter]
    · simp [htype, beq_false_of_ne htype]
  | @inside type values child left before after place node inner =>
    cases valid with
    | intro fits known compatible valid =>
    simp only [List.forall_mem_append, List.forall_mem_cons] at valid
    simp only [child?, children_mk, List.find?_append, List.find?_cons, Place.resetPart,
      inner.type_eq]
    by_cases htype : child.type = part
    · subst htype
      obtain ⟨hbefore, -⟩ := find?_of_once compatible hpart
      have hinner := hreset inner valid.2.1 rfl optional
      simpa [hbefore] using hinner
    · simp [htype, beq_false_of_ne htype]

/-- An optional child is missing, or something in it is, or it is as before. -/
theorem map_child? (hreset : Resets part f reset) (hpart : part ∈ element.type.children) :
    (left.child? part).map f = place.resetOption part reset ((element.child? part).map f) :=
  h.get_child? valid optional (Option.map f)
    (fun _ _ _ _ inner hvalid htype hinner => congrArg some (hreset inner hvalid htype hinner))
    hpart

/-- A member of a list is missing, or something in it is, or all are as before. -/
theorem map_members (hreset : Resets part f reset) :
    (left.members part).map f = place.resetList part reset ((element.members part).map f) := by
  cases h with
  | attr => rfl
  | @child type values child before after =>
    simp only [members, children_mk, List.filter_append, List.filter_cons, Place.resetList]
    by_cases htype : child.type = part
    · subst htype
      simp only [beq_self_eq_true, if_true, List.map_append, List.map_cons, ofType]
      rw [eraseIdx_append_cons (List.length_map f)]
    · simp [htype]
  | @inside type values child left before after place node inner =>
    cases valid with
    | intro fits known compatible valid =>
    simp only [List.forall_mem_append, List.forall_mem_cons] at valid
    simp only [members, children_mk, List.filter_append, List.filter_cons, Place.resetList,
      inner.type_eq]
    by_cases htype : child.type = part
    · subst htype
      simp only [beq_self_eq_true, if_true, List.map_append, List.map_cons, ofType]
      rw [modify_append_cons (List.length_map f), hreset inner valid.2.1 rfl optional]
    · simp [htype]

/-- The members of a group, which are none if the group is deleted. -/
theorem map_groupMembers {group : ElementType} (hreset : Resets part f reset)
    (hgroup : group ∈ element.type.children) :
    (left.groupMembers group part).map f = place.resetPart group []
      (fun items inner => inner.resetList part reset items)
      ((element.groupMembers group part).map f) := by
  rw [map_groupMembers_eq, map_groupMembers_eq]
  refine h.get_child? valid optional
    (fun found => (found.map (fun found => (found.members part).map f)).getD []) ?_ hgroup
  intro child place less node inner hvalid htype hinner
  exact inner.map_members hvalid (by rwa [htype]) hreset

end Deleted

end Element

end UpdateProtocol

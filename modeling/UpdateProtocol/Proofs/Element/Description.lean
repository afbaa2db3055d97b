import UpdateProtocol.Element.Read
import UpdateProtocol.Proofs.Markup.Lexing

/-!
# What a node says

A node describes an element of some type: its attributes and children say what the element has, in
the same order, except for those whose names the type does not know.  `Describes` relates the two
without a reader; it only demands what a reader would refuse a document for, and that the members
of a list have one full name and no text after them in their parent.
-/

namespace UpdateProtocol

open Markup (Attribute Gap Node)

theorem ok_bind {ε α β : Type} (a : α) (f : α → Except ε β) : (Except.ok a >>= f) = f a := rfl

theorem lift_ok {α : Type} (a : α) :
    (liftM (.ok a : Except Markup.Error α) : Except SchemaError α) = .ok a := rfl

/-! ### Fields by name -/

/-- The field that elements of a name are. -/
def ElementType.named? (type : ElementType) (name : List Char) : Option Field :=
  type.field? (String.ofList (Markup.localName name))

/-- Whether elements of a name are members of the list of a type. -/
def ElementType.isMember (type : ElementType) (name : List Char) : Bool :=
  match type.named? name with
  | some (.member _) => true
  | _ => false

theorem ElementType.mem_of_field? {type : ElementType} {key : String} {field : Field}
    (h : type.field? key = some field) : field ∈ type.fields ∧ field.key = key :=
  ⟨List.mem_of_find?_eq_some h, by simpa using List.find?_some h⟩

/-- A type has one field under a key. -/
theorem ElementType.named?_inj {type : ElementType} {name other : List Char} {field found : Field}
    (h : type.named? name = some field) (hother : type.named? other = some found)
    (hkey : found.key = field.key) : found = field := by
  have hname := (mem_of_field? h).2
  have hfound := (mem_of_field? hother).2
  rw [named?, ← hname] at h
  rw [named?, ← hfound, hkey, h] at hother
  exact (Option.some_inj.1 hother).symm

theorem ElementType.isMember_iff {type : ElementType} {name : List Char} :
    type.isMember name = true ↔ ∃ part, type.named? name = some (.member part) := by
  unfold isMember
  split
  · next part h => simp [h]
  · next h => simpa using fun part e => h part e

/-- A type has one kind of members. -/
theorem ElementType.member?_of_named? {type part : ElementType} {name : List Char}
    (h : type.named? name = some (.member part)) : type.member? = some part := by
  have hmem := (mem_of_field? h).1
  simp only [fields, List.mem_append, List.mem_map, Option.mem_toList] at hmem
  rcases hmem with (⟨_, _, e⟩ | ⟨_, _, e⟩) | ⟨_, hpart, e⟩
  · cases e
  · cases e
  · cases e
    exact hpart

theorem ElementType.mem_children_of_named? {type part : ElementType} {name : List Char}
    (h : type.named? name = some (.child part)) : part ∈ type.children := by
  have hmem := (mem_of_field? h).1
  simp only [fields, List.mem_append, List.mem_map, Option.mem_toList] at hmem
  rcases hmem with (⟨_, _, e⟩ | ⟨_, hpart, e⟩) | ⟨_, _, e⟩
  · cases e
  · cases e
    exact hpart
  · cases e

/-- Elements that may stand only once are not members of a list. -/
theorem ElementType.not_mem_children {type part : ElementType} (h : type.member? = some part) :
    part ∉ type.children := by
  cases type <;> cases h <;> decide

/-! ### Descriptions -/

/-- Attributes that give these values to an element of the type. -/
inductive AttributesDescribe (type : ElementType) : List Attribute → List (String × Value) → Prop
  | nil : AttributesDescribe type [] []
  | foreign {attr : Attribute} {attributes : List Attribute} {values : List (String × Value)}
      (unknown : ∀ known, type.field? (Element.attributeKey attr.name) ≠ some (.attr known))
      (rest : AttributesDescribe type attributes values) :
      AttributesDescribe type (attr :: attributes) values
  | known {attr : Attribute} {attributes : List Attribute} {values : List (String × Value)}
      {known : AttributeType} {value : Value}
      (field : type.field? (Element.attributeKey attr.name) = some (.attr known))
      (read : known.form.readAttribute attr.value = .ok value)
      (rest : AttributesDescribe type attributes values) :
      AttributesDescribe type (attr :: attributes) ((known.name, value) :: values)

theorem AttributesDescribe.exists_of_mem {type : ElementType}
    {attributes : List Markup.Attribute} {values : List (String × Value)}
    (h : AttributesDescribe type attributes values) {name : String}
    (hname : name ∈ values.map Prod.fst) : ∃ attr ∈ attributes, ∃ known : AttributeType,
      type.field? (Element.attributeKey attr.name) = some (.attr known) ∧ known.name = name := by
  induction h with
  | nil => cases hname
  | foreign _ _ ih =>
    obtain ⟨attr, hattr, hknown⟩ := ih hname
    exact ⟨attr, List.mem_cons_of_mem _ hattr, hknown⟩
  | known field _ _ ih =>
    rcases List.mem_cons.1 hname with e | hname
    · exact ⟨_, List.mem_cons_self, _, field, e.symm⟩
    · obtain ⟨attr, hattr, hknown⟩ := ih hname
      exact ⟨attr, List.mem_cons_of_mem _ hattr, hknown⟩

/-- Nodes that give children to an element of a type, if `Describe` says what one node gives. -/
inductive ChildrenDescribe (Describe : Node → Element → Prop) :
    List Node → ElementType → List Element → Prop
  | nil {type : ElementType} : ChildrenDescribe Describe [] type []
  | foreign {type : ElementType} {node : Node} {nodes : List Node} {elements : List Element}
      (unknown : type.named? node.name = none)
      (rest : ChildrenDescribe Describe nodes type elements) :
      ChildrenDescribe Describe (node :: nodes) type elements
  | child {type : ElementType} {node : Node} {nodes : List Node} {element : Element}
      {elements : List Element}
      (field : type.named? node.name = some (.child element.type))
      (describe : Describe node element) (rest : ChildrenDescribe Describe nodes type elements) :
      ChildrenDescribe Describe (node :: nodes) type (element :: elements)
  | member {type : ElementType} {node : Node} {nodes : List Node} {element : Element}
      {elements : List Element}
      (field : type.named? node.name = some (.member element.type))
      (describe : Describe node element) (rest : ChildrenDescribe Describe nodes type elements) :
      ChildrenDescribe Describe (node :: nodes) type (element :: elements)

/-- What a node demands of one that stands after it in the same parent. -/
structure Follows (type : ElementType) (node later : Node) : Prop where
  once : ∀ part, type.named? node.name = some (.child part) →
    type.named? later.name ≠ some (.child part)
  same : type.isMember node.name = true → type.isMember later.name = true →
    later.name = node.name
  silent : type.isMember node.name = true → later.lead.IsBlank

/-- Children that stand together in one parent. -/
structure Orderly (type : ElementType) (nodes : List Node) (trail : Gap) : Prop where
  follows : nodes.Pairwise (Follows type)
  silent : ∀ node ∈ nodes, type.isMember node.name = true → trail.IsBlank

/-- A node that describes an element, with the attributes in any order. -/
inductive Describes : Node → Element → Prop
  | intro {node : Node} {type : ElementType} {values found : List (String × Value)}
      {elements : List Element}
      (distinct : (node.tag.attributes.map (fun attr => attr.name.chars)).Nodup)
      (attributes : AttributesDescribe type
        (node.tag.attributes.map Markup.AttributeLayout.attribute) found)
      (perm : found.Perm values)
      (once : (values.map Prod.fst).Nodup)
      (complete : ∀ attr ∈ type.attributes, attr.required = true → attr.name ∈ values.map Prod.fst)
      (children : ChildrenDescribe Describes node.children type elements)
      (orderly : Orderly type node.children node.trail) :
      Describes node (.mk type values elements)

namespace ChildrenDescribe

variable {Describe : Node → Element → Prop} {type : ElementType} {nodes : List Node}
  {elements : List Element}

/-- The children without the members of the list. -/
theorem filter_not_member (h : ChildrenDescribe Describe nodes type elements) {part : ElementType}
    (hpart : type.member? = some part) :
    ChildrenDescribe Describe (nodes.filter (fun node => !type.isMember node.name)) type
      (elements.filter (fun element => !(element.type == part))) := by
  induction h with
  | nil => exact .nil
  | @foreign type node _ _ unknown _ ih =>
    have hnode : type.isMember node.name = false := by rw [ElementType.isMember, unknown]
    rw [List.filter_cons_of_pos (by simp [hnode])]
    exact .foreign unknown (ih hpart)
  | @child type node _ element _ field describe _ ih =>
    have hnode : type.isMember node.name = false := by rw [ElementType.isMember, field]
    have hne : element.type ≠ part := by
      rintro rfl
      exact ElementType.not_mem_children hpart (ElementType.mem_children_of_named? field)
    rw [List.filter_cons_of_pos (by simp [hnode]), List.filter_cons_of_pos (by simp [hne])]
    exact .child field describe (ih hpart)
  | @member type node _ element _ field describe _ ih =>
    have hnode : type.isMember node.name = true := ElementType.isMember_iff.2 ⟨_, field⟩
    have he : element.type = part := by
      have h := ElementType.member?_of_named? field
      rw [hpart] at h
      cases h
      rfl
    rw [List.filter_cons_of_neg (by simp [hnode]), List.filter_cons_of_neg (by simp [he])]
    exact ih hpart

end ChildrenDescribe

/-- No field of children has the key of an attribute. -/
theorem ElementType.tag_ne (type : ElementType) (name : String) : type.tag ≠ "@" ++ name := by
  intro h
  have hlist := congrArg String.toList h
  cases type <;> simp [tag] at hlist

theorem ChildrenDescribe.key_ne {Describe : Node → Element → Prop} {type : ElementType}
    {nodes : List Node} {elements : List Element}
    (h : ChildrenDescribe Describe nodes type elements) {node : Node} (hnode : node ∈ nodes)
    {field : Field} (hfield : type.named? node.name = some field) (name : String) :
    field.key ≠ "@" ++ name := by
  induction h with
  | nil => cases hnode
  | foreign unknown _ ih =>
    rcases List.mem_cons.1 hnode with rfl | hnode
    · rw [unknown] at hfield
      cases hfield
    · exact ih hnode hfield
  | child found _ _ ih =>
    rcases List.mem_cons.1 hnode with rfl | hnode
    · rw [found] at hfield
      cases hfield
      exact ElementType.tag_ne _ name
    · exact ih hnode hfield
  | member found _ _ ih =>
    rcases List.mem_cons.1 hnode with rfl | hnode
    · rw [found] at hfield
      cases hfield
      exact ElementType.tag_ne _ name
    · exact ih hnode hfield

end UpdateProtocol

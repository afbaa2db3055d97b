import UpdateProtocol.Proofs.Element.Description

/-!
# Elements that follow the table

An element is valid if its attributes stand in the order of the table, nothing required is missing,
every child is one that its type knows, and no child stands twice that may stand once.  The names
in the table are plain: a reader who looks one up finds the field that it was written for.
-/

namespace UpdateProtocol

open Markup (Gap Node)

/-! ### The table -/

/-- A plain name has no qualifier and declares nothing. -/
structure PlainName (name : String) : Prop where
  isName : Markup.isName name.toList = true
  localName_eq : Markup.localName name.toList = name.toList
  undeclared : Markup.Scope.declared? name.toList = none

instance (name : String) : Decidable (PlainName name) :=
  decidable_of_iff (Markup.isName name.toList = true ∧ Markup.localName name.toList = name.toList ∧
    Markup.Scope.declared? name.toList = none)
    ⟨fun ⟨h, h', h''⟩ => ⟨h, h', h''⟩, fun ⟨h, h', h''⟩ => ⟨h, h', h''⟩⟩

namespace ElementType

theorem plainName_tag (type : ElementType) : PlainName type.tag := by
  cases type <;> decide

theorem plainName_attribute (type : ElementType) :
    ∀ attr ∈ type.attributes, PlainName attr.name := by
  cases type <;> decide

theorem nodup_attributes (type : ElementType) :
    (type.attributes.map AttributeType.name).Nodup := by
  cases type <;> decide

/-- An attribute is found under its name. -/
theorem field?_attribute (type : ElementType) : ∀ attr ∈ type.attributes,
    type.field? (Element.attributeKey attr.name.toList) = some (.attr attr) := by
  cases type <;> decide

/-- A child is found under the name of its type. -/
theorem named?_child (type : ElementType) :
    ∀ part ∈ type.children, type.named? part.tag.toList = some (.child part) := by
  cases type <;> decide

theorem named?_member (type : ElementType) :
    ∀ part ∈ type.member?, type.named? part.tag.toList = some (.member part) := by
  cases type <;> decide

/-- Among the elements that a type knows, the members of its list have one name. -/
theorem member?_of_isMember {type part : ElementType}
    (known : part ∈ type.children ∨ type.member? = some part)
    (h : type.isMember part.tag.toList = true) : type.member? = some part := by
  rcases known with hchild | hmember
  · rw [isMember, type.named?_child part hchild] at h
    cases h
  · exact hmember

end ElementType

/-! ### Attributes -/

/-- Whether a value is of a form. -/
def Form.Admits : Form → Value → Prop
  | .text, .text _ | .flag, .flag _ | .size, .size _ => True
  | _, _ => False

/-- Values for attributes in their order, with all that are required. -/
inductive Fits : List AttributeType → List (String × Value) → Prop
  | nil : Fits [] []
  | absent {attr : AttributeType} {attributes : List AttributeType}
      {values : List (String × Value)} (optional : attr.required = false)
      (rest : Fits attributes values) : Fits (attr :: attributes) values
  | present {attr : AttributeType} {attributes : List AttributeType} {value : Value}
      {values : List (String × Value)} (admits : attr.form.Admits value)
      (rest : Fits attributes values) : Fits (attr :: attributes) ((attr.name, value) :: values)

namespace Fits

variable {attributes : List AttributeType} {values : List (String × Value)}

theorem sublist (h : Fits attributes values) :
    List.Sublist (values.map Prod.fst) (attributes.map AttributeType.name) := by
  induction h with
  | nil => exact .slnil
  | absent _ _ ih => exact ih.cons _
  | present _ _ ih => exact ih.cons_cons _

theorem exists_of_mem (h : Fits attributes values) {value : String × Value}
    (hvalue : value ∈ values) :
    ∃ attr ∈ attributes, value.1 = attr.name ∧ attr.form.Admits value.2 := by
  induction h with
  | nil => cases hvalue
  | absent _ _ ih =>
    obtain ⟨attr, hattr, h⟩ := ih hvalue
    exact ⟨attr, List.mem_cons_of_mem _ hattr, h⟩
  | present admits _ ih =>
    rcases List.mem_cons.1 hvalue with rfl | hvalue
    · exact ⟨_, List.mem_cons_self, rfl, admits⟩
    · obtain ⟨attr, hattr, h⟩ := ih hvalue
      exact ⟨attr, List.mem_cons_of_mem _ hattr, h⟩

theorem complete (h : Fits attributes values) {attr : AttributeType} (hattr : attr ∈ attributes)
    (required : attr.required = true) : attr.name ∈ values.map Prod.fst := by
  induction h with
  | nil => cases hattr
  | absent optional _ ih =>
    rcases List.mem_cons.1 hattr with rfl | hattr
    · rw [optional] at required
      cases required
    · exact ih hattr
  | present _ _ ih =>
    rcases List.mem_cons.1 hattr with rfl | hattr
    · exact List.mem_cons_self
    · exact List.mem_cons_of_mem _ (ih hattr)

/-- An attribute that is not required may be missing. -/
theorem erase {value : String × Value} {before after : List (String × Value)}
    (h : Fits attributes (before ++ value :: after))
    (optional : ∀ attr ∈ attributes, attr.name = value.1 → attr.required = false) :
    Fits attributes (before ++ after) := by
  induction attributes generalizing before with
  | nil => cases before <;> cases h
  | cons attr attributes ih =>
    obtain ⟨hattr, hattributes⟩ := List.forall_mem_cons.1 optional
    generalize hvalues : before ++ value :: after = values at h
    cases h with
    | absent hrequired rest =>
      subst hvalues
      exact .absent hrequired (ih rest hattributes)
    | present admits rest =>
      cases before with
      | nil =>
        obtain ⟨rfl, rfl⟩ := List.cons.inj hvalues
        exact .absent (hattr rfl) rest
      | cons first before =>
        obtain ⟨rfl, rfl⟩ := List.cons.inj hvalues
        exact .present admits (ih rest hattributes)

/-- The value of an attribute may be any one of its form. -/
theorem replace {name : String} {old new : Value} {before after : List (String × Value)}
    (h : Fits attributes (before ++ (name, old) :: after))
    (admits : ∀ attr ∈ attributes, attr.name = name → attr.form.Admits new) :
    Fits attributes (before ++ (name, new) :: after) := by
  induction attributes generalizing before with
  | nil => cases before <;> cases h
  | cons attr attributes ih =>
    obtain ⟨hattr, hattributes⟩ := List.forall_mem_cons.1 admits
    generalize hvalues : before ++ (name, old) :: after = values at h
    cases h with
    | absent hrequired rest =>
      subst hvalues
      exact .absent hrequired (ih rest hattributes)
    | present hvalue rest =>
      cases before with
      | nil =>
        obtain ⟨hname, rfl⟩ := List.cons.inj hvalues
        obtain ⟨rfl, -⟩ := Prod.mk.inj hname
        exact .present (hattr rfl) rest
      | cons first before =>
        obtain ⟨rfl, rfl⟩ := List.cons.inj hvalues
        exact .present hvalue (ih rest hattributes)

theorem plainName {type : ElementType} (h : Fits type.attributes values) {value : String × Value}
    (hvalue : value ∈ values) : PlainName value.1 := by
  obtain ⟨attr, hattr, hname, -⟩ := h.exists_of_mem hvalue
  rw [hname]
  exact type.plainName_attribute attr hattr

/-- No name is given twice. -/
theorem nodup {type : ElementType} (h : Fits type.attributes values) :
    (values.map Prod.fst).Nodup :=
  h.sublist.nodup type.nodup_attributes

theorem nodup_chars {type : ElementType} (h : Fits type.attributes values) :
    (values.map (fun value => value.1.toList)).Nodup :=
  List.pairwise_map.2
    ((List.pairwise_map.1 h.nodup).imp fun hne e => hne (String.toList_inj.1 e))

end Fits

/-! ### Elements -/

namespace Element

/-- What holds of an element if it holds of all its children holds of every element. -/
@[elab_as_elim]
theorem induct {motive : Element → Prop}
    (step : ∀ element, (∀ child ∈ element.children, motive child) → motive element)
    (element : Element) : motive element :=
  match element with
  | mk type attributes elements => step _ fun child _ => induct step child
decreasing_by
  have := List.sizeOf_lt_of_mem ‹child ∈ children _›
  simp only [children, mk.sizeOf_spec] at this ⊢
  omega

/-- Whether two children may stand in one parent. -/
def Compatible (type : ElementType) (child other : Element) : Prop :=
  child.type ∈ type.children → other.type ≠ child.type

theorem Compatible.symm {type : ElementType} {child other : Element}
    (h : Compatible type child other) : Compatible type other child :=
  fun hmem e => h (e ▸ hmem) e.symm

/-- No child of the same type stands beside one that stands once. -/
theorem find?_of_once {type : ElementType} {child : Element} {before after : List Element}
    (compatible : (before ++ child :: after).Pairwise (Compatible type))
    (honce : child.type ∈ type.children) :
    before.find? (fun other => other.type == child.type) = none ∧
      after.find? (fun other => other.type == child.type) = none := by
  obtain ⟨-, hafter, hbefore⟩ := List.pairwise_append.1 compatible
  simp only [List.find?_eq_none, beq_iff_eq]
  refine ⟨fun other hother e => ?_, fun other hother => ?_⟩
  · exact hbefore other hother child List.mem_cons_self (e ▸ honce) e.symm
  · exact (List.pairwise_cons.1 hafter).1 other hother honce

/-- An element that follows the table. -/
inductive Valid : Element → Prop
  | intro {type : ElementType} {attributes : List (String × Value)} {children : List Element}
      (fits : Fits type.attributes attributes)
      (known : ∀ child ∈ children,
        child.type ∈ type.children ∨ type.member? = some child.type)
      (compatible : children.Pairwise (Compatible type))
      (valid : ∀ child ∈ children, Valid child) : Valid (mk type attributes children)

theorem Valid.fits {element : Element} (h : element.Valid) :
    Fits element.type.attributes element.attributes := by
  cases h with
  | intro fits known compatible valid => exact fits

/-- A child may be replaced by a valid one of its type. -/
theorem Valid.replace_child {type : ElementType} {values : List (String × Value)}
    {before after : List Element} {child other : Element}
    (h : (mk type values (before ++ child :: after)).Valid) (htype : other.type = child.type)
    (hother : other.Valid) : (mk type values (before ++ other :: after)).Valid := by
  cases h with
  | intro fits known compatible valid =>
  have hmap : ((before ++ child :: after).map Element.type).Pairwise
      (fun a b => a ∈ type.children → b ≠ a) := List.pairwise_map.2 compatible
  have htypes : (before ++ other :: after).map Element.type =
      (before ++ child :: after).map Element.type := by simp [htype]
  rw [← htypes] at hmap
  refine .intro fits ?_ ((List.pairwise_map (f := Element.type)).1 hmap) ?_
  all_goals simp only [List.forall_mem_append, List.forall_mem_cons] at known valid ⊢
  · exact ⟨known.1, htype ▸ known.2.1, known.2.2⟩
  · exact ⟨valid.1, hother, valid.2.2⟩

/-- A child of a valid element is valid, and the type of the element knows it. -/
theorem Valid.child {type : ElementType} {values : List (String × Value)}
    {before after : List Element} {child : Element}
    (h : (mk type values (before ++ child :: after)).Valid) :
    child.Valid ∧ (child.type ∈ type.children ∨ type.member? = some child.type) := by
  cases h with
  | intro fits known compatible valid =>
  exact ⟨valid child (by simp), known child (by simp)⟩

theorem Valid.others {type : ElementType} {values : List (String × Value)}
    {before after : List Element} {child : Element}
    (h : (mk type values (before ++ child :: after)).Valid) :
    (∀ other ∈ before, other.Valid) ∧ ∀ other ∈ after, other.Valid := by
  cases h with
  | intro fits known compatible valid =>
  simp only [List.forall_mem_append, List.forall_mem_cons] at valid
  exact ⟨valid.1, valid.2.2⟩

end Element

/-! ### Nodes of valid elements -/

namespace ChildrenDescribe

variable {Describe : Node → Element → Prop} {type : ElementType} {nodes : List Node}
  {elements : List Element}

theorem exists_of_child (h : ChildrenDescribe Describe nodes type elements) {node : Node}
    (hnode : node ∈ nodes) {part : ElementType}
    (hpart : type.named? node.name = some (.child part)) :
    ∃ element ∈ elements, element.type = part := by
  induction h with
  | nil => cases hnode
  | foreign unknown _ ih =>
    rcases List.mem_cons.1 hnode with rfl | hnode
    · rw [unknown] at hpart
      cases hpart
    · exact ih hnode hpart
  | @child _ _ _ element _ field _ _ ih =>
    rcases List.mem_cons.1 hnode with rfl | hnode
    · rw [field] at hpart
      cases hpart
      exact ⟨element, List.mem_cons_self, rfl⟩
    · obtain ⟨element, hmem, htype⟩ := ih hnode hpart
      exact ⟨element, List.mem_cons_of_mem _ hmem, htype⟩
  | member field _ _ ih =>
    rcases List.mem_cons.1 hnode with rfl | hnode
    · rw [field] at hpart
      cases hpart
    · obtain ⟨element, hmem, htype⟩ := ih hnode hpart
      exact ⟨element, List.mem_cons_of_mem _ hmem, htype⟩

/-- Of compatible children, those that may stand once stand once. -/
theorem once (h : ChildrenDescribe Describe nodes type elements)
    (compatible : elements.Pairwise (Element.Compatible type)) :
    nodes.Pairwise (fun node later => ∀ part, type.named? node.name = some (.child part) →
      type.named? later.name ≠ some (.child part)) := by
  induction h with
  | nil => exact .nil
  | foreign unknown _ ih =>
    refine .cons (fun later _ part hpart => ?_) (ih compatible)
    rw [unknown] at hpart
    cases hpart
  | @child type node nodes element elements field _ rest ih =>
    obtain ⟨hfirst, hcompatible⟩ := List.pairwise_cons.1 compatible
    refine .cons (fun later hlater part hpart hother => ?_) (ih hcompatible)
    rw [field] at hpart
    cases hpart
    obtain ⟨other, hmem, htype⟩ := rest.exists_of_child hlater hother
    exact hfirst other hmem (ElementType.mem_children_of_named? field) htype
  | member field _ _ ih =>
    refine .cons (fun later _ part hpart => ?_) (ih (List.pairwise_cons.1 compatible).2)
    rw [field] at hpart
    cases hpart

/-- Nodes of compatible children without texts between them may stand together. -/
theorem orderly (h : ChildrenDescribe Describe nodes type elements)
    (compatible : elements.Pairwise (Element.Compatible type))
    (same : ∀ node ∈ nodes, ∀ later ∈ nodes, type.isMember node.name = true →
      type.isMember later.name = true → later.name = node.name)
    (leads : ∀ node ∈ nodes, node.lead.IsBlank) {trail : Gap} (htrail : trail.IsBlank) :
    Orderly type nodes trail where
  follows := (h.once compatible).imp_of_mem fun hnode hlater honce =>
    ⟨honce, same _ hnode _ hlater, fun _ => leads _ hlater⟩
  silent _ _ _ := htrail

end ChildrenDescribe

end UpdateProtocol

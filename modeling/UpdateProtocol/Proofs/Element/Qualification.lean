import UpdateProtocol.Proofs.Element.Layout

/-!
# Qualified names

Every name in the text of an element may have a qualifier that nothing declares
(`Element.Qualified`).  Names are compared without their qualifiers, except that the members of one
list have to agree in theirs, so the text describes the same element (`Qualified.describes`).
-/

namespace UpdateProtocol

open Markup (AttributeLayout Name Node TagLayout)

namespace Markup

/-! ### Qualifiers -/

/-- What may stand before a plain name: nothing, or a name that is not reserved and a colon. -/
inductive IsQualifier : List Char → Prop
  | absent : IsQualifier []
  | present {word : List Char} (name : isName word = true) (single : ':' ∉ word)
      (free : word ≠ "xml".toList ∧ word ≠ "xmlns".toList) : IsQualifier (word ++ [':'])

/-- A name that is a plain one after a qualifier. -/
def Name.Qualifies (name : Name) (plain : String) : Prop :=
  ∃ qualifier, IsQualifier qualifier ∧ name.chars = qualifier ++ plain.toList

/-- A qualifier of a name is not looked at. -/
theorem Name.Qualifies.localName_eq {name : Name} {plain : String} (h : name.Qualifies plain)
    (hplain : PlainName plain) : localName name.chars = plain.toList := by
  obtain ⟨qualifier, hqualifier, hname⟩ := h
  rw [hname]
  cases hqualifier with
  | absent => exact hplain.localName_eq
  | present _ single _ =>
    rw [localName, List.append_assoc, List.singleton_append, dropWhile_word single]

/-- A qualified name declares nothing. -/
theorem Name.Qualifies.undeclared {name : Name} {plain : String} (h : name.Qualifies plain)
    (hplain : PlainName plain) : Scope.declared? name.chars = none := by
  obtain ⟨qualifier, hqualifier, hname⟩ := h
  rw [hname]
  cases hqualifier with
  | absent => exact hplain.undeclared
  | @present word _ single free =>
    rw [Scope.declared?, if_neg]
    intro h
    obtain ⟨rest, hrest⟩ := List.isPrefixOf_iff_prefix.1 h
    -- the word before the first colon is the same on both sides
    have hword := congrArg (List.takeWhile (· != ':')) hrest
    rw [List.append_assoc, List.singleton_append, takeWhile_word single,
      show "xmlns:".toList ++ rest = "xmlns".toList ++ ':' :: rest from rfl,
      takeWhile_word (by decide)] at hword
    exact free.2 hword.symm

theorem Name.Qualifies.sublist {name : Name} {plain : String} (h : name.Qualifies plain) :
    List.Sublist plain.toList name.chars := by
  obtain ⟨qualifier, -, hname⟩ := h
  rw [hname]
  exact List.sublist_append_right _ _

/-! ### Compact nodes -/

/-- A node without gaps: one tag, or two if it has children. -/
def Node.compact (tag : TagLayout) : List Node → Node
  | [] => .selfClosed {} tag
  | nodes => .paired {} tag nodes {}

namespace Node

variable (tag : TagLayout) (nodes : List Node)

@[simp] theorem lead_compact : (compact tag nodes).lead = {} := by
  cases nodes <;> rfl

@[simp] theorem trail_compact : (compact tag nodes).trail = {} := by
  cases nodes <;> rfl

@[simp] theorem tag_compact : (compact tag nodes).tag = tag := by
  cases nodes <;> rfl

@[simp] theorem children_compact : (compact tag nodes).children = nodes := by
  cases nodes <;> rfl

/-- The text of a compact node has that of another as a part if its names and children have. -/
theorem sublist_write_compact {tag other : TagLayout} {nodes others : List Node}
    (name : List.Sublist tag.name.chars other.name.chars)
    (write : List.Sublist tag.write other.write)
    (each : List.Forall₂ (fun node other => List.Sublist (Node.write node) (Node.write other))
      nodes others) : List.Sublist (compact tag nodes).write (compact other others).write := by
  cases each with
  | nil => exact (write.append_left _).append_right _
  | cons first rest =>
    have hall {nodes others : List Node} (each : List.Forall₂
        (fun node other => List.Sublist (Node.write node) (Node.write other)) nodes others) :
        List.Sublist (writeAll nodes) (writeAll others) := by
      induction each with
      | nil => exact .slnil
      | cons first _ ih =>
        rw [writeAll, writeAll]
        exact first.append ih
    have hnodes := hall (.cons first rest)
    simp only [compact, Node.write, Gap.write_empty, List.nil_append, List.append_nil]
    exact ((((write.append_left _).append_right _).append hnodes).append_right _ |>.append
      name).append_right _

end Node

end Markup

namespace Element

theorem layout_eq_compact (type : ElementType) (values : List (String × Value))
    (children : List Element) : (mk type values children).layout =
      .compact (tagLayout type values) (children.map layout) := by
  cases children with
  | nil => rw [layout]; rfl
  | cons child children => rw [layout, layoutAll_eq]; rfl

/-- The attribute of a value as it is written, except for a qualifier. -/
def QualifiedAttribute (value : String × Value) (attr : AttributeLayout) : Prop :=
  ∃ name : Name, name.Qualifies value.1 ∧ attr = { attributeLayout value with name := name }

/-- An element as it is written, except for qualifiers.  Those of the members of one list are the
same. -/
inductive Qualified : Element → Node → Prop
  | intro {type : ElementType} {values : List (String × Value)} {children : List Element}
      {tag : TagLayout} {nodes : List Node} (name : tag.name.Qualifies type.tag)
      (attributes : List.Forall₂ QualifiedAttribute values tag.attributes)
      (closed : tag.after = .empty) (qualified : List.Forall₂ Qualified children nodes)
      (same : ∀ node ∈ nodes, ∀ later ∈ nodes, type.isMember node.name = true →
        type.isMember later.name = true → later.name = node.name) :
      Qualified (mk type values children) (.compact tag nodes)

/-! ### Attributes -/

namespace QualifiedAttribute

variable {value : String × Value} {attr : AttributeLayout} (h : QualifiedAttribute value attr)
  (plain : PlainName value.1)

include h plain

theorem localName_eq : Markup.localName attr.name.chars = value.1.toList := by
  obtain ⟨name, hname, rfl⟩ := h
  exact hname.localName_eq plain

theorem undeclared : Markup.Scope.declared? attr.name.chars = none := by
  obtain ⟨name, hname, rfl⟩ := h
  exact hname.undeclared plain

/-- A qualified attribute is looked up as the plain one. -/
theorem attributeKey_eq : attributeKey attr.name.chars = attributeKey value.1.toList := by
  rw [Element.attributeKey_eq (h.undeclared plain), h.localName_eq plain,
    Element.attributeKey_eq plain.undeclared, plain.localName_eq]

theorem sublist_write : List.Sublist (attributeLayout value).write attr.write := by
  obtain ⟨name, hname, rfl⟩ := h
  have hsublist := hname.sublist
  rw [← Name.chars_ofString plain] at hsublist
  simp only [AttributeLayout.write, List.append_assoc]
  exact .append_left (hsublist.append_right _) _

end QualifiedAttribute

section Attributes

variable {type : ElementType} {values : List (String × Value)} {attributes : List AttributeLayout}
  (h : List.Forall₂ QualifiedAttribute values attributes)

include h

theorem sublist_write_attributes (plain : ∀ value ∈ values, PlainName value.1) :
    List.Sublist ((values.map attributeLayout).flatMap AttributeLayout.write)
      (attributes.flatMap AttributeLayout.write) := by
  induction h with
  | nil => exact .slnil
  | cons first _ ih =>
    obtain ⟨hvalue, hvalues⟩ := List.forall_mem_cons.1 plain
    rw [List.map_cons, List.flatMap_cons, List.flatMap_cons]
    exact (first.sublist_write hvalue).append (ih hvalues)

/-- Attributes describe the values that they are written for. -/
theorem describe_attributes (known : ∀ value ∈ values,
    ∃ attr ∈ type.attributes, value.1 = attr.name ∧ attr.form.Admits value.2) :
    AttributesDescribe type (attributes.map AttributeLayout.attribute) values := by
  induction h with
  | nil => exact .nil
  | @cons value attr values attributes first _ ih =>
    obtain ⟨⟨found, hmem, hname, admits⟩, hrest⟩ := List.forall_mem_cons.1 known
    obtain ⟨name, value⟩ := value
    subst hname
    refine .known ?_ ?_ (ih hrest)
    · rw [AttributeLayout.attribute, first.attributeKey_eq (type.plainName_attribute found hmem)]
      exact type.field?_attribute found hmem
    · obtain ⟨_, -, rfl⟩ := first
      exact (spelledValue_escape value).readAttribute admits

/-- Names that differ without their qualifiers differ with them. -/
theorem distinct_attributes (fits : Fits type.attributes values) :
    (attributes.map (fun attr => attr.name.chars)).Nodup := by
  have hlocal : attributes.map (fun attr => Markup.localName attr.name.chars) =
      values.map (fun value => value.1.toList) :=
    map_eq_of_forall₂ (forall₂_of_mem h fun value hvalue attr hattr =>
      hattr.localName_eq (fits.plainName hvalue)) id
  have honce := fits.nodup_chars
  rw [← hlocal] at honce
  exact List.pairwise_map.2 ((List.pairwise_map.1 honce).imp fun hne e => hne (by rw [e]))

end Attributes

/-! ### Elements -/

namespace Qualified

theorem localName_eq {element : Element} {node : Node} (h : Qualified element node) :
    Markup.localName node.name = element.type.tag.toList := by
  cases h with
  | @intro type _ _ _ _ name =>
    rw [Node.name, Node.tag_compact]
    exact name.localName_eq type.plainName_tag

theorem lead_eq {element : Element} {node : Node} (h : Qualified element node) :
    node.lead = {} := by
  cases h
  exact Node.lead_compact _ _

/-- A qualified node is found under the name of its element. -/
theorem named?_eq {element : Element} {node : Node} (h : Qualified element node)
    (type : ElementType) : type.named? node.name = type.named? element.type.tag.toList := by
  rw [ElementType.named?, ElementType.named?, h.localName_eq,
    element.type.plainName_tag.localName_eq]

theorem describe_children {type : ElementType} {children : List Element} {nodes : List Node}
    (h : List.Forall₂ (fun child node => Qualified child node ∧ Describes node child)
      children nodes)
    (known : ∀ child ∈ children, child.type ∈ type.children ∨ type.member? = some child.type) :
    ChildrenDescribe Describes nodes type children := by
  induction h with
  | nil => exact .nil
  | @cons child node children nodes first _ ih =>
    obtain ⟨hchild, hchildren⟩ := List.forall_mem_cons.1 known
    rcases hchild with hchild | hmember
    · refine .child ?_ first.2 (ih hchildren)
      rw [first.1.named?_eq, type.named?_child _ hchild]
    · refine .member ?_ first.2 (ih hchildren)
      rw [first.1.named?_eq, type.named?_member _ hmember]

/-- A qualified node of a valid element describes it. -/
theorem describes (element : Element) :
    ∀ node, element.Valid → Qualified element node → Describes node element := by
  induction element using Element.induct with
  | step element ih =>
  intro node valid h
  cases h with
  | @intro type values children tag nodes name attributes closed qualified same =>
  cases valid with
  | intro fits known compatible valid =>
  have children := describe_children (forall₂_of_mem qualified fun child hchild node hnode =>
    ⟨hnode, ih child hchild node (valid child hchild) hnode⟩) known
  refine .intro ?_ ?_ (.refl _) fits.nodup
    (fun attr hattr => fits.complete hattr) ?_ ?_
  · rw [Node.tag_compact]
    exact distinct_attributes attributes fits
  · rw [Node.tag_compact]
    exact describe_attributes attributes fun value => fits.exists_of_mem
  · rwa [Node.children_compact]
  · rw [Node.children_compact, Node.trail_compact]
    refine children.orderly compatible same (fun node hnode => ?_) Markup.Gap.isBlank_empty
    obtain ⟨child, -, hchild⟩ := exists_of_forall₂ qualified hnode
    rw [hchild.lead_eq]
    exact Markup.Gap.isBlank_empty

/-- A qualified node of a valid element declares nothing. -/
theorem calm (element : Element) :
    ∀ node, element.Valid → Qualified element node → node.Calm := by
  induction element using Element.induct with
  | step element ih =>
  intro node valid h
  cases h with
  | @intro type values children tag nodes name attributes closed qualified same =>
  cases valid with
  | intro fits known compatible valid =>
  refine Node.calm_of ?_ ?_ ?_ ?_
  · rw [Node.lead_compact]
    exact Markup.Gap.calm_empty
  · rw [Node.tag_compact]
    intro attr hattr
    obtain ⟨value, hvalue, h⟩ := exists_of_forall₂ attributes hattr
    exact h.undeclared (fits.plainName hvalue)
  · rw [Node.children_compact]
    intro node hnode
    obtain ⟨child, hchild, h⟩ := exists_of_forall₂ qualified hnode
    exact ih child hchild node (valid child hchild) h
  · rw [Node.trail_compact]
    exact Markup.Gap.calm_empty

/-- The text of an element is a part of every text with qualifiers. -/
theorem sublist_write (element : Element) :
    ∀ node, element.Valid → Qualified element node →
      List.Sublist element.layout.write node.write := by
  induction element using Element.induct with
  | step element ih =>
  intro node valid h
  cases h with
  | @intro type values children tag nodes name attributes closed qualified same =>
  cases valid with
  | intro fits known compatible valid =>
  have hname : List.Sublist (tagLayout type values).name.chars tag.name.chars := by
    rw [tagLayout, Name.chars_ofString type.plainName_tag]
    exact name.sublist
  rw [layout_eq_compact]
  refine Node.sublist_write_compact hname ?_ (List.forall₂_map_left_iff.2 ?_)
  · rw [TagLayout.write, TagLayout.write, closed]
    exact (hname.append (sublist_write_attributes attributes
      fun value => fits.plainName)).append_right _
  · exact forall₂_of_mem qualified fun child hchild node hnode =>
      ih child hchild node (valid child hchild) hnode

end Qualified

end Element

end UpdateProtocol

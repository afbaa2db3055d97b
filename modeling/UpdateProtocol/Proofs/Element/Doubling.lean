import UpdateProtocol.Proofs.Element.Acceptance
import UpdateProtocol.Proofs.Element.Layout
import UpdateProtocol.Proofs.Element.Repetition
import UpdateProtocol.Proofs.Markup.Fragment

/-!
# Doubling a part of an element

In the text of an element an attribute, or a child that may stand once, is written a second time, at
any place and with any value or content (`Element.Doubled`).  Nothing is read from such a text.  A
second attribute is found by what nodes describe; a second child need not be what any node is, so it
is found in the tree of elements (`Doubled.exists_node_or_tree`).
-/

namespace UpdateProtocol

open Markup (AttributeLayout Fragment Name Node TagLayout TagTree)
open Markup.Lexer (Finds)

theorem ElementType.attribute_ne_nil (type : ElementType) :
    ∀ attr ∈ type.attributes, attr.name ≠ "nil" := by
  cases type <;> decide

/-- An element of two tags with any text between them. -/
def Markup.TagLayout.enclose (tag : TagLayout) (content : List Char) : List Char :=
  ['<'] ++ tag.write ++ ['>'] ++ content ++ ['<', '/'] ++ tag.name.chars ++ ['>']

namespace Element

/-- The node of an element whose start tag is another one. -/
def layoutWith (tag : TagLayout) : List Element → Node
  | [] => .selfClosed {} tag
  | children => .paired {} tag (children.map layout) {}

section LayoutWith

variable (tag : TagLayout) (children : List Element)

@[simp] theorem lead_layoutWith : (layoutWith tag children).lead = {} := by
  cases children <;> rfl

@[simp] theorem trail_layoutWith : (layoutWith tag children).trail = {} := by
  cases children <;> rfl

@[simp] theorem tag_layoutWith : (layoutWith tag children).tag = tag := by
  cases children <;> rfl

@[simp] theorem children_layoutWith :
    (layoutWith tag children).children = children.map layout := by
  cases children <;> rfl

end LayoutWith

/-- The text of an element in which an attribute or a child that may stand once is doubled. -/
inductive Doubled : Element → List Char → Prop
  | attr {type : ElementType} {values : List (String × Value)} {children : List Element}
      {value : String × Value} {before after : List AttributeLayout} {attr : AttributeLayout}
      (mem : value ∈ values) (same : attr.name.chars = value.1.toList)
      (place : values.map attributeLayout = before ++ after) :
      Doubled (mk type values children)
        (layoutWith { tagLayout type values with attributes := before ++ attr :: after }
          children).write
  | child {type : ElementType} {values : List (String × Value)} {child : Element}
      {before after : List Element} {second : Fragment} {tag : TagLayout}
      (mem : child ∈ before ++ after) (once : child.type ∈ type.children)
      (element : second.tag? = some tag)
      (same : Markup.localName tag.name.chars = child.type.tag.toList) :
      Doubled (mk type values (before ++ after)) ((tagLayout type values).enclose
        (Node.writeAll (before.map layout) ++ second.write ++ Node.writeAll (after.map layout)))
  | inside {type : ElementType} {values : List (String × Value)} {child : Element}
      {before after : List Element} {text : List Char} (inner : Doubled child text) :
      Doubled (mk type values (before ++ child :: after)) ((tagLayout type values).enclose
        (Node.writeAll (before.map layout) ++ text ++ Node.writeAll (after.map layout)))

section Parts

variable {type : ElementType} {values : List (String × Value)}

/-! ### A second attribute -/

/-- A node with a second attribute describes nothing. -/
theorem not_describes_of_second {value : String × Value} {before after : List AttributeLayout}
    {attr : AttributeLayout} (plain : PlainName value.1) (mem : value ∈ values)
    (same : attr.name.chars = value.1.toList) (place : values.map attributeLayout = before ++ after)
    {node : Node} (hnode : node.tag.attributes = before ++ attr :: after) (element : Element) :
    ¬ Describes node element := by
  intro describe
  cases describe with
  | intro distinct =>
  rw [hnode, (List.perm_middle.map _).nodup_iff, List.map_cons, ← place] at distinct
  refine (List.nodup_cons.1 distinct).1 (List.mem_map.2 ⟨attributeLayout value, ?_, ?_⟩)
  · exact List.mem_map_of_mem mem
  · rw [attributeLayout, Name.chars_ofString plain, same]

/-- A node whose attributes have the names of values declares nothing. -/
theorem calm_of_names (fits : Fits type.attributes values) {node : Node} (lead : node.lead = {})
    (trail : node.trail = {}) (names : ∀ attr ∈ node.tag.attributes,
      ∃ value ∈ values, attr.name.chars = value.1.toList)
    (children : ∀ child ∈ node.children, child.Calm) : node.Calm := by
  refine Node.calm_of (lead ▸ Markup.Gap.calm_empty) (fun attr hattr => ?_) children
    (trail ▸ Markup.Gap.calm_empty)
  obtain ⟨value, hvalue, hname⟩ := names attr hattr
  rw [hname]
  exact (fits.plainName hvalue).undeclared

theorem exists_name_of_mem (fits : Fits type.attributes values) {attr : AttributeLayout}
    (h : attr ∈ values.map attributeLayout) :
    ∃ value ∈ values, attr.name.chars = value.1.toList := by
  obtain ⟨value, hvalue, rfl⟩ := List.mem_map.1 h
  exact ⟨value, hvalue, Name.chars_ofString (fits.plainName hvalue)⟩

theorem calm_layout {children : List Element} (valid : ∀ child ∈ children, child.Valid) :
    ∀ node ∈ children.map layout, node.Calm :=
  List.forall_mem_map.2 fun child hchild => (spelled_calm_layout (valid child hchild)).2

/-- A second attribute declares nothing either. -/
theorem calm_second {children : List Element} {value : String × Value}
    {before after : List AttributeLayout} {attr : AttributeLayout}
    (fits : Fits type.attributes values) (valid : ∀ child ∈ children, child.Valid)
    (mem : value ∈ values) (same : attr.name.chars = value.1.toList)
    (place : values.map attributeLayout = before ++ after) :
    (layoutWith { tagLayout type values with attributes := before ++ attr :: after }
      children).Calm := by
  refine calm_of_names fits (lead_layoutWith _ _) (trail_layoutWith _ _) ?_
    (by rw [children_layoutWith]; exact calm_layout valid)
  rw [tag_layoutWith]
  intro other hother
  rcases List.mem_cons.1 (List.perm_middle.mem_iff.1 hother) with rfl | hother
  · exact ⟨value, mem, same⟩
  · exact exists_name_of_mem fits (place ▸ hother)

/-! ### A second child -/

/-- The tag of a valid element does not mark it as absent. -/
theorem not_namesNil_tagLayout (fits : Fits type.attributes values) :
    ¬ (tagLayout type values).tag.NamesNil := by
  rintro ⟨attr, hattr, hnil⟩
  rw [TagLayout.attributes_tag _ fun _ => nodup_tagLayout fits] at hattr
  obtain ⟨layout, hlayout, e⟩ := List.mem_map.1 hattr
  cases e
  obtain ⟨value, hvalue, rfl⟩ := List.mem_map.1 hlayout
  have plain := fits.plainName hvalue
  rw [AttributeLayout.attribute, attributeLayout, Name.chars_ofString plain,
    plain.localName_eq] at hnil
  obtain ⟨known, hknown, hname, -⟩ := fits.exists_of_mem hvalue
  rw [hname] at hnil
  exact type.attribute_ne_nil known hknown (String.toList_inj.1 hnil)

theorem finds_enclose (tag : TagLayout) {content : List Char} {trees : List TagTree}
    (h : Finds content (TagTree.marksAll trees)) :
    Finds (tag.enclose content) (TagTree.node tag.tag trees).marks := by
  have hpaired := Finds.paired tag .empty h
  rwa [Markup.Blanks.chars_empty, List.append_nil] at hpaired

/-- The trees of elements as they are written, with one more among them. -/
theorem finds_among {text : List Char} {tree : TagTree} (before after : List Element)
    (h : Finds text tree.marks) :
    Finds (Node.writeAll (before.map layout) ++ text ++ Node.writeAll (after.map layout))
      (TagTree.marksAll (before.map (fun child => child.layout.tree) ++
        tree :: after.map (fun child => child.layout.tree))) := by
  have each (children : List Element) : Finds (Node.writeAll (children.map layout))
      (TagTree.marksAll (children.map fun child => child.layout.tree)) := by
    have hall := Node.finds_writeAll (children.map layout)
    rwa [Node.treeAll_eq, List.map_map] at hall
  have hall := ((each before).append h).append (each after)
  rwa [List.append_assoc (TagTree.marksAll _), ← TagTree.marksAll_cons,
    ← TagTree.marksAll_append] at hall

theorem name_tree_layout (element : Element) :
    element.layout.tree.name = element.type.tag.toList := by
  rw [TagTree.name, Node.tag_tree, tag_layout, name_tagLayout]

/-- Trees with a second child repeat it. -/
theorem not_unrepeated_of_second {child : Element} {before after : List Element} {tag : Markup.Tag}
    {second : TagTree} (mem : child ∈ before ++ after) (once : child.type ∈ type.children)
    (same : Markup.localName second.name = child.type.tag.toList) :
    ¬ Unrepeated type (.node tag (before.map (fun child => child.layout.tree) ++
      second :: after.map (fun child => child.layout.tree))) := by
  intro h
  cases h with
  | intro apart =>
  have hsecond : type.named? second.name = some (.child child.type) := by
    have h := type.named?_child child.type once
    rwa [ElementType.named?, child.type.plainName_tag.localName_eq, ← same] at h
  have hchild : type.named? child.layout.tree.name = some (.child child.type) := by
    rw [name_tree_layout]
    exact type.named?_child child.type once
  obtain ⟨-, hafter, hbefore⟩ := List.pairwise_append.1 apart
  rcases List.mem_append.1 mem with hmem | hmem
  · exact hbefore _ (List.mem_map_of_mem hmem) second List.mem_cons_self _ hchild hsecond
  · exact (List.pairwise_cons.1 hafter).1 _ (List.mem_map_of_mem hmem) _ hsecond hchild

/-- Trees with one that repeats something repeat it as well. -/
theorem not_unrepeated_of_inner {child : Element} {before after : List Element}
    {trees : List TagTree} (fits : Fits type.attributes values) (valid : child.Valid)
    (known : child.type ∈ type.children ∨ type.member? = some child.type)
    (h : ¬ Unrepeated child.type (.node (tagLayout child.type child.attributes).tag trees)) :
    ¬ Unrepeated type (.node (tagLayout type values).tag
      (before.map (fun child => child.layout.tree) ++
        .node (tagLayout child.type child.attributes).tag trees ::
          after.map (fun child => child.layout.tree))) := by
  intro houter
  cases houter with
  | intro _ inner =>
  cases valid with
  | intro childFits =>
  refine h (inner (not_namesNil_tagLayout fits) _ (List.mem_append_right _ List.mem_cons_self)
    (not_namesNil_tagLayout childFits) _ ?_)
  rw [TagTree.name_node, name_tagLayout]
  exact known.imp (type.named?_child _) (type.named?_member _)

end Parts

/-! ### Doubled texts -/

namespace Doubled

variable {element : Element} {text : List Char}

/-- A doubled text begins with the tag of its element. -/
theorem exists_cons (h : Doubled element text) : ∃ rest, text = '<' :: rest := by
  cases h with
  | @attr type values children =>
    cases children <;> exact ⟨_, rfl⟩
  | child => exact ⟨_, rfl⟩
  | inside => exact ⟨_, rfl⟩

/-- A doubled text is that of a node that describes no element of its type, or the tree of elements
in it repeats a child. -/
theorem exists_node_or_tree (h : Doubled element text) (valid : element.Valid) :
    (∃ node : Node, text = node.write ∧ node.lead = {} ∧
      node.name = element.type.tag.toList ∧ node.Calm ∧
        ∀ found, Describes node found → found.type ≠ element.type) ∨
    ∃ trees, Finds text (TagTree.node (tagLayout element.type element.attributes).tag trees).marks ∧
      ¬ Unrepeated element.type
        (.node (tagLayout element.type element.attributes).tag trees) := by
  induction h with
  | @attr type values children value before after attr mem same place =>
    cases valid with
    | intro fits known compatible valid =>
    refine .inl ⟨_, rfl, lead_layoutWith _ _, ?_, ?_, fun found describe => ?_⟩
    · rw [Node.name, tag_layoutWith]
      exact Name.chars_ofString type.plainName_tag
    · exact calm_second fits valid mem same place
    · exact absurd describe (not_describes_of_second (fits.plainName mem) mem same place
        (by rw [tag_layoutWith]) found)
  | @child type values child before after second tag mem once element same =>
    obtain ⟨tree, htrees, htag⟩ := Fragment.exists_trees_eq element
    have hsecond := second.finds_write
    rw [htrees, TagTree.marksAll_cons, TagTree.marksAll, List.append_nil] at hsecond
    refine .inr ⟨_, finds_enclose _ (finds_among before after hsecond),
      not_unrepeated_of_second mem once ?_⟩
    rw [TagTree.name, htag, TagLayout.name_tag, same]
  | @inside type values child before after text inner ih =>
    cases valid with
    | intro fits known compatible valid =>
    simp only [List.forall_mem_append, List.forall_mem_cons] at known valid
    rcases ih valid.2.1 with ⟨node, rfl, lead, name, calm, hnot⟩ | ⟨trees, hfinds, hnot⟩
    · refine .inl ⟨.paired {} (tagLayout type values)
        (before.map layout ++ node :: after.map layout) {}, ?_, rfl,
          Name.chars_ofString type.plainName_tag, ?_,
          not_describes_of_child (List.mem_append_right _ List.mem_cons_self) name known.2.1 hnot⟩
      · simp [TagLayout.enclose, Node.write, Node.writeAll_eq]
      · refine calm_of_names fits rfl rfl (fun attr => exists_name_of_mem fits) ?_
        exact List.forall_mem_append.2 ⟨calm_layout valid.1,
          List.forall_mem_cons.2 ⟨calm, calm_layout valid.2.2⟩⟩
    · exact .inr ⟨_, finds_enclose _ (finds_among before after hfinds),
        not_unrepeated_of_inner fits valid.2.1 known.2.1 hnot⟩

end Doubled

end Element

end UpdateProtocol

import UpdateProtocol.Proofs.Element.Spelling

/-!
# How elements are written

The writer's choice among the spellings of an element: `Element.layout` is the node whose text is
the element as it is written (`toList_write`).
-/

namespace UpdateProtocol

open Markup (AttributeLayout Name Node TagLayout)

/-- A text as a name.  What is no name becomes an underscore. -/
def Markup.Name.ofString (text : String) : Name :=
  if valid : Markup.isName text.toList = true then ⟨text.toList, valid⟩ else ⟨['_'], by decide⟩

theorem Markup.Name.chars_ofString {text : String} (h : PlainName text) :
    (Name.ofString text).chars = text.toList := by
  rw [Name.ofString, dif_pos h.isName]

namespace Element

/-! ### Layouts -/

/-- An attribute after a single space, its value escaped. -/
def attributeLayout (value : String × Value) : AttributeLayout where
  before := .space
  name := .ofString value.1
  value := value.2.spelling.toList.flatMap (fun c => (Markup.escapeChar c).toList)
  separated := Markup.Blanks.space_ne_nil
  unquoted := Markup.quote_not_mem_escape _

/-- A start tag without blanks at its end. -/
def tagLayout (type : ElementType) (attributes : List (String × Value)) : TagLayout where
  name := .ofString type.tag
  attributes := attributes.map attributeLayout

theorem name_tagLayout (type : ElementType) (values : List (String × Value)) :
    (tagLayout type values).tag.name = type.tag.toList := by
  rw [TagLayout.name_tag, tagLayout, Name.chars_ofString type.plainName_tag]

section Tags

variable {type : ElementType} {values : List (String × Value)} (fits : Fits type.attributes values)

include fits

theorem names_tagLayout : (tagLayout type values).attributes.map (fun attr => attr.name.chars) =
    values.map (fun value => value.1.toList) := by
  rw [tagLayout, List.map_map]
  exact List.map_congr_left fun value hvalue => Name.chars_ofString (fits.plainName hvalue)

theorem nodup_tagLayout :
    ((tagLayout type values).attributes.map (fun attr => attr.name.chars)).Nodup := by
  rw [names_tagLayout fits]
  exact fits.nodup_chars

/-- The tag of a valid element declares nothing. -/
theorem undeclared_tagLayout : ∀ attr ∈ (tagLayout type values).attributes,
    Markup.Scope.declared? attr.name.chars = none := by
  refine List.forall_mem_map.2 fun value hvalue => ?_
  rw [attributeLayout, Name.chars_ofString (fits.plainName hvalue)]
  exact (fits.plainName hvalue).undeclared

end Tags

mutual

/-- The node of an element.  Without children it is a single tag. -/
def layout : Element → Node
  | mk type attributes [] => .selfClosed {} (tagLayout type attributes)
  | mk type attributes (child :: children) =>
      .paired {} (tagLayout type attributes) (layout child :: layoutAll children) {}

/-- The nodes of elements that follow each other. -/
def layoutAll : List Element → List Node
  | [] => []
  | child :: children => layout child :: layoutAll children

end

theorem layoutAll_eq (elements : List Element) : layoutAll elements = elements.map layout := by
  induction elements with
  | nil => rw [layoutAll]; rfl
  | cons element elements ih => rw [layoutAll, ih, List.map_cons]

theorem lead_layout (element : Element) : element.layout.lead = {} := by
  obtain ⟨type, attributes, _ | _⟩ := element <;> rw [layout] <;> rfl

theorem trail_layout (element : Element) : element.layout.trail = {} := by
  obtain ⟨type, attributes, _ | _⟩ := element <;> rw [layout] <;> rfl

theorem tag_layout (element : Element) :
    element.layout.tag = tagLayout element.type element.attributes := by
  obtain ⟨type, attributes, _ | _⟩ := element <;> rw [layout] <;> rfl

theorem name_layout (element : Element) : element.layout.name = element.type.tag.toList := by
  rw [Node.name, tag_layout]
  exact Name.chars_ofString element.type.plainName_tag

theorem children_layout (element : Element) :
    element.layout.children = element.children.map layout := by
  obtain ⟨type, attributes, _ | ⟨child, children⟩⟩ := element
  · rw [layout]
    rfl
  · rw [layout, layoutAll_eq]
    rfl

theorem layout_mk_append (type : ElementType) (values : List (String × Value))
    (before after : List Element) (child : Element) :
    (mk type values (before ++ child :: after)).layout = .paired {} (tagLayout type values)
      (before.map layout ++ child.layout :: after.map layout) {} := by
  cases before <;> simp [layout, layoutAll_eq]

/-- What is written after the attributes of an element does not depend on them. -/
theorem exists_write_layout (type : ElementType) (children : List Element) :
    ∃ rest, ∀ values, (mk type values children).layout.write =
      ['<'] ++ (Name.ofString type.tag).chars ++
        (values.map attributeLayout).flatMap AttributeLayout.write ++ rest := by
  cases children with
  | nil =>
    refine ⟨['/', '>'], fun values => ?_⟩
    simp [layout, Node.write, TagLayout.write, tagLayout]
  | cons child children =>
    refine ⟨['>'] ++ Node.writeAll (layout child :: layoutAll children) ++ ['<', '/'] ++
      (Name.ofString type.tag).chars ++ ['>'], fun values => ?_⟩
    simp [layout, Node.write, TagLayout.write, tagLayout]

/-! ### Spellings -/

theorem escape_digits {digits : List Char} (h : ∀ c ∈ digits, c.isDigit = true) :
    digits.flatMap (fun c => (Markup.escapeChar c).toList) = digits := by
  induction digits with
  | nil => rfl
  | cons c digits ih =>
    obtain ⟨hc, hdigits⟩ := List.forall_mem_cons.1 h
    have hescape : (Markup.escapeChar c).toList = [c] := by
      unfold Markup.escapeChar
      split <;> first | (exfalso; revert hc; decide) | simp
    rw [List.flatMap_cons, hescape, ih hdigits]
    rfl

/-- The writer's spelling of a value is one of its spellings. -/
theorem spelledValue_escape (value : Value) :
    SpelledValue value (value.spelling.toList.flatMap (fun c => (Markup.escapeChar c).toList)) := by
  cases value with
  | text content => exact .text (Markup.spells_escape _)
  | flag value => cases value <;> exact .flag (by decide) (Markup.spells_escape _)
  | size bytes =>
    have hdigits : (toString bytes.toNat).toList = Nat.toDigits 10 bytes.toNat := Nat.toList_repr
    rw [Value.spelling, escape_digits]
    · exact .size bytes
    · rw [hdigits]
      exact fun c hc => Nat.isDigit_of_mem_toDigits (by decide) (by decide) hc

theorem spelledAttribute_layout {value : String × Value} (h : PlainName value.1) :
    SpelledAttribute value (attributeLayout value) :=
  ⟨Name.chars_ofString h, spelledValue_escape value.2⟩

/-- A node of an element as it is written, with foreign attributes between those of its tags and
foreign nodes between its children. -/
inductive Extended : Element → Node → Prop
  | intro {type : ElementType} {values : List (String × Value)} {children : List Element}
      {node : Node} (lead : node.lead = {}) (name : node.name = type.tag.toList)
      (attributes : AttributesSpelled (fun value attr => attr = attributeLayout value) type values
        node.tag.attributes)
      (extended : ChildrenSpelled Extended children type node.children)
      (trail : node.trail = {}) : Extended (.mk type values children) node

/-- An extended node of a valid element spells the element. -/
theorem Extended.spelled (node : Node) :
    ∀ element : Element, element.Valid → Extended element node → Spelled element node := by
  induction node using Node.induct with
  | step node ih =>
  intro element valid h
  cases h with
  | @intro type values children _ lead name attributes extended trail =>
  cases valid with
  | intro fits known compatible valid =>
  refine .intro lead name (.refl _) (attributes.mono fun value hvalue attr hattr => ?_)
    (extended.mono fun child hchild node hnode => ih node hnode child (valid child hchild)) trail
  rw [hattr]
  exact spelledAttribute_layout (fits.plainName hvalue)

/-- The layout of a valid element extends it by nothing. -/
theorem extended_layout (element : Element) : element.Valid → Extended element element.layout := by
  induction element using Element.induct with
  | step element ih =>
  intro valid
  obtain ⟨type, attributes, children⟩ := element
  cases valid with
  | intro fits known compatible valid =>
  refine .intro (lead_layout _) ?_ (.of_forall₂ ?_) (.of_forall₂ ?_) (trail_layout _)
  · rw [Node.name, tag_layout]
    exact Name.chars_ofString type.plainName_tag
  · rw [tag_layout]
    exact List.forall₂_map_right_iff.2 (List.forall₂_same.2 fun _ _ => rfl)
  · rw [children_layout]
    exact List.forall₂_map_right_iff.2
      (List.forall₂_same.2 fun child hchild => ih child hchild (valid child hchild))

/-- The layout of a valid element is one of its spellings. -/
theorem spelled_layout {element : Element} (valid : element.Valid) :
    Spelled element element.layout :=
  (extended_layout element valid).spelled _ _ valid

theorem spelled_calm_layout {element : Element} (valid : element.Valid) :
    Spelled element element.layout ∧ element.layout.Calm :=
  ⟨spelled_layout valid, (spelled_layout valid).calm _ _ valid⟩

/-- A node whose tag is written for some values spells them, whether or not they are all that the
type requires. -/
theorem spelled_calm_of_tag {type : ElementType} {values : List (String × Value)}
    {children : List Element} {node : Node} (lead : node.lead = {}) (trail : node.trail = {})
    (tag : node.tag = tagLayout type values) (plain : ∀ value ∈ values, PlainName value.1)
    (each : List.Forall₂ (fun element child => Spelled element child ∧ child.Calm) children
      node.children) :
    Spelled (mk type values children) node ∧ node.Calm := by
  refine ⟨.intro lead ?_ (.refl _) ?_ (.of_forall₂ (each.imp fun _ _ h => h.1)) trail,
    Node.calm_of (lead ▸ Markup.Gap.calm_empty) ?_ (fun child hchild => ?_)
      (trail ▸ Markup.Gap.calm_empty)⟩
  · rw [Node.name, tag]
    exact Name.chars_ofString type.plainName_tag
  · rw [tag]
    exact .of_forall₂ (List.forall₂_map_right_iff.2
      (List.forall₂_same.2 fun value hvalue => spelledAttribute_layout (plain value hvalue)))
  · rw [tag]
    refine List.forall_mem_map.2 fun value hvalue => ?_
    rw [attributeLayout, Name.chars_ofString (plain value hvalue)]
    exact (plain value hvalue).undeclared
  · obtain ⟨element, -, h⟩ := exists_of_forall₂ each hchild
    exact h.2

/-! ### Texts -/

theorem toList_writeEscaped (out text : String) :
    (writeEscaped out text).toList =
      out.toList ++ text.toList.flatMap (fun c => (Markup.escapeChar c).toList) := by
  rw [writeEscaped]
  generalize text.toList = chars
  induction chars generalizing out with
  | nil => simp
  | cons c chars ih => simp [ih]

theorem toList_writeAttribute (out : String) {value : String × Value} (h : PlainName value.1) :
    (writeAttribute out value).toList = out.toList ++ (attributeLayout value).write := by
  simp [writeAttribute, toList_writeEscaped, AttributeLayout.write, attributeLayout,
    Name.chars_ofString h, Markup.Quote.char]

theorem toList_writeAttributes {values : List (String × Value)}
    (h : ∀ value ∈ values, PlainName value.1) (out : String) :
    (values.foldl writeAttribute out).toList =
      out.toList ++ (values.map attributeLayout).flatMap AttributeLayout.write := by
  induction values generalizing out with
  | nil => simp
  | cons value values ih =>
    obtain ⟨hvalue, hvalues⟩ := List.forall_mem_cons.1 h
    rw [List.foldl_cons, ih hvalues, toList_writeAttribute out hvalue]
    simp

theorem toList_writeAll {elements : List Element}
    (h : ∀ element ∈ elements, ∀ out : String,
      (element.write out).toList = out.toList ++ element.layout.write) (out : String) :
    (writeAll out elements).toList = out.toList ++ Node.writeAll (elements.map layout) := by
  induction elements generalizing out with
  | nil => simp [writeAll, Node.writeAll]
  | cons element elements ih =>
    obtain ⟨helement, helements⟩ := List.forall_mem_cons.1 h
    rw [writeAll, ih helements, helement, List.map_cons, Node.writeAll, List.append_assoc]

/-- A valid element is written as the text of its layout. -/
theorem toList_write (element : Element) : element.Valid → ∀ out : String,
    (element.write out).toList = out.toList ++ element.layout.write := by
  induction element using Element.induct with
  | step element ih =>
  intro valid out
  obtain ⟨type, attributes, children⟩ := element
  cases valid with
  | intro fits known compatible valid =>
  have hplain : ∀ value ∈ attributes, PlainName value.1 := fun value hvalue =>
    fits.plainName hvalue
  have htag := Name.chars_ofString type.plainName_tag
  have hchildren := toList_writeAll (fun child hchild => ih child hchild (valid child hchild))
  cases children with
  | nil =>
    rw [write, layout, Node.write, String.toList_append, toList_writeAttributes hplain]
    simp [TagLayout.write, tagLayout, htag]
  | cons child children =>
    simp only [Element.children] at hchildren
    rw [write, layout, Node.write]
    · simp only [String.toList_append, hchildren, toList_writeAttributes hplain]
      simp [TagLayout.write, tagLayout, htag, layoutAll_eq]
    · simp

theorem toList_render {element : Element} (valid : element.Valid) :
    element.render.toList = element.layout.write := by
  rw [render, toList_write element valid]
  rfl

/-- The text of an element is a part of the text of a node if the texts of its tag and of its
children are. -/
theorem sublist_write_node {type : ElementType} {values : List (String × Value)}
    {children : List Element} {node : Node} (name : node.name = type.tag.toList)
    (tag : List.Sublist (tagLayout type values).write node.tag.write)
    (all : List.Sublist (Node.writeAll (layoutAll children)) (Node.writeAll node.children))
    (single : node.children = [] → children = []) :
    List.Sublist (mk type values children).layout.write node.write := by
  cases node with
  | selfClosed lead tag' =>
    cases single rfl
    rw [layout, Node.write, Node.write]
    exact (((List.nil_sublist _).append_right _).append tag).append_right _
  | paired lead tag' nodes trail =>
    have hname : tag'.name.chars = (tagLayout type values).name.chars :=
      name.trans (Name.chars_ofString type.plainName_tag).symm
    cases children with
    | nil =>
      -- the slash of a single tag is found in the end tag
      have hend : List.Sublist ['/', '>'] (['<', '/'] ++ (tag'.name.chars ++ ['>'])) :=
        ((List.sublist_append_right _ _).cons_cons '/').cons '<'
      rw [layout]
      simp only [Node.write, List.append_assoc]
      refine (List.nil_sublist _).append ((tag.append ?_).append_left _)
      exact ((hend.trans (List.sublist_append_right _ _)).trans
        (List.sublist_append_right _ _)).trans (List.sublist_append_right _ _)
    | cons child children =>
      rw [layout]
      simp only [Node.write, List.append_assoc]
      refine (List.nil_sublist _).append ((tag.append (.append_left ?_ _)).append_left _)
      refine all.append ((List.nil_sublist _).append (.append_left ?_ _))
      rw [hname]

end Element

end UpdateProtocol

import UpdateProtocol.Proofs.Element.Layout
import UpdateProtocol.Proofs.Markup.Attributes

/-!
# The attributes in the text of an element

The start tags in the text of an element are those of its parts, and the attributes that a reader
finds in them are the attributes of the parts (`Element.hasAttribute_render`).  Escaping leaves no
text empty, so an attribute that is written with an empty value has the empty text as its value
(`Element.hasAttribute_render_nil`).
-/

namespace UpdateProtocol

open Markup (Node Token Tokens)

/-- A text has a start tag in it, as a reader finds them. -/
def Markup.HasTag (text : String) (tag : Tag) : Prop :=
  .start tag ∈ (Tokens.ofText text.toList).tokens

/-- A text has a start tag of a name with an attribute in it. -/
def Markup.HasAttribute (text : String) (name : List Char) (attr : Attribute) : Prop :=
  ∃ tag, HasTag text tag ∧ tag.name = name ∧ .ok attr ∈ tag.attributes true

/-- The start tags of a node are its own and those of its children. -/
theorem Markup.Node.start_mem_tokens {node : Node} {tag : Markup.Tag} :
    .start tag ∈ node.tokens ↔
      tag = node.tag.tag ∨ ∃ child ∈ node.children, .start tag ∈ child.tokens := by
  have hall (nodes : List Node) :
      .start tag ∈ Node.tokensAll nodes ↔ ∃ child ∈ nodes, .start tag ∈ child.tokens := by
    induction nodes with
    | nil => simp
    | cons node nodes ih => simp [ih]
  rw [tokens, pieces_eq, List.flatMap_cons, content, List.flatMap_append, List.mem_append,
    List.mem_append, ← Node.tokensAll, hall]
  simp [Markup.Piece.tokens, Markup.Mark.token]

theorem Markup.escape_eq_nil {chars : List Char} :
    chars.flatMap (fun c => (Markup.escapeChar c).toList) = [] ↔ chars = [] := by
  have hne (c : Char) : (Markup.escapeChar c).toList ≠ [] := by
    unfold Markup.escapeChar
    split <;> simp
  cases chars with
  | nil => simp
  | cons c chars => simp [hne]

/-- Only a text is spelled with no character. -/
theorem Value.spelling_eq_empty {value : Value} : value.spelling = "" ↔ value = .text "" := by
  cases value with
  | text content => simp [spelling]
  | flag value => cases value <;> simp [spelling]
  | size bytes =>
    have hdigits : (toString bytes.toNat).toList = Nat.toDigits 10 bytes.toNat := Nat.toList_repr
    refine ⟨fun h => ?_, fun h => by cases h⟩
    rw [spelling] at h
    rw [h] at hdigits
    exact absurd hdigits.symm Nat.toDigits_ne_nil

namespace Element

/-- An element in the tree of another one: the element itself or a part of one of its children. -/
inductive Part (part : Element) : Element → Prop
  | self : Part part part
  | child {child element : Element} (hchild : child ∈ element.children) (h : Part part child) :
      Part part element

/-- The parts of an element are the element and the parts of its children. -/
theorem part_iff {part element : Element} :
    Part part element ↔ part = element ∨ ∃ child ∈ element.children, Part part child := by
  constructor
  · rintro (_ | ⟨hchild, h⟩)
    · exact .inl rfl
    · exact .inr ⟨_, hchild, h⟩
  · rintro (rfl | ⟨child, hchild, h⟩)
    · exact .self
    · exact .child hchild h

/-- Something holds of each part of an element. -/
def EachPart (holds : Element → Prop) (element : Element) : Prop :=
  ∀ part, Part part element → holds part

theorem eachPart_mk {holds : Element → Prop} {type : ElementType}
    {values : List (String × Value)} {children : List Element} :
    EachPart holds (mk type values children) ↔
      holds (mk type values children) ∧ ∀ child ∈ children, EachPart holds child := by
  constructor
  · exact fun h => ⟨h _ .self, fun child hchild part hpart => h part (.child hchild hpart)⟩
  · rintro ⟨hself, hchildren⟩ part hpart
    obtain rfl | ⟨child, hchild, hpart⟩ := part_iff.1 hpart
    · exact hself
    · exact hchildren child hchild part hpart

theorem EachPart.mono {holds more : Element → Prop} {element : Element}
    (h : EachPart holds element) (hle : ∀ part, holds part → more part) :
    EachPart more element :=
  fun part hpart => hle part (h part hpart)

theorem Part.valid {part element : Element} (h : Part part element) (valid : element.Valid) :
    part.Valid := by
  induction h with
  | self => exact valid
  | child hchild _ ih =>
    cases valid with
    | intro fits known compatible inner => exact ih (inner _ hchild)

/-- The start tags in the text of an element are those of its parts. -/
theorem start_mem_tokens_layout {tag : Markup.Tag} (element : Element) :
    .start tag ∈ element.layout.tokens ↔
      ∃ part, Part part element ∧ tag = (tagLayout part.type part.attributes).tag := by
  induction element using Element.induct with
  | step element ih =>
  rw [Node.start_mem_tokens, tag_layout, children_layout]
  constructor
  · rintro (rfl | ⟨node, hnode, htag⟩)
    · exact ⟨element, .self, rfl⟩
    · obtain ⟨child, hchild, rfl⟩ := List.mem_map.1 hnode
      obtain ⟨part, hpart, htag⟩ := (ih child hchild).1 htag
      exact ⟨part, .child hchild hpart, htag⟩
  · rintro ⟨part, hpart, rfl⟩
    obtain rfl | ⟨child, hchild, hpart⟩ := part_iff.1 hpart
    · exact .inl rfl
    · exact .inr ⟨child.layout, List.mem_map_of_mem hchild,
        (ih child hchild).2 ⟨part, hpart, rfl⟩⟩

variable {element : Element} {name : List Char}

/-- The start tags in the text of a valid element are those of its parts. -/
theorem hasTag_render (valid : element.Valid) {tag : Markup.Tag} :
    Markup.HasTag element.render tag ↔
      ∃ part, Part part element ∧ tag = (tagLayout part.type part.attributes).tag := by
  rw [Markup.HasTag, toList_render valid, Tokens.ofText_write _ (by rw [lead_layout]; rfl),
    start_mem_tokens_layout]

/-- The attributes in the start tag of a valid element are its own, escaped. -/
theorem attributes_tagLayout (valid : element.Valid) :
    (tagLayout element.type element.attributes).tag.attributes true =
      element.attributes.map fun value => .ok (attributeLayout value).attribute := by
  rw [Markup.TagLayout.attributes_tag _ fun _ => nodup_tagLayout valid.fits, tagLayout,
    List.map_map]
  rfl

/-- The attributes in the text of a valid element are those of its parts, escaped. -/
theorem hasAttribute_render (valid : element.Valid) {attr : Markup.Attribute} :
    Markup.HasAttribute element.render name attr ↔
      ∃ part, Part part element ∧ name = part.type.tag.toList ∧
        ∃ value ∈ part.attributes, attr = (attributeLayout value).attribute := by
  constructor
  · rintro ⟨tag, htag, rfl, hattribute⟩
    obtain ⟨part, hpart, rfl⟩ := (hasTag_render valid).1 htag
    rw [attributes_tagLayout (hpart.valid valid)] at hattribute
    obtain ⟨value, hvalue, heq⟩ := List.mem_map.1 hattribute
    exact ⟨part, hpart, name_tagLayout _ _, value, hvalue, (Except.ok.inj heq).symm⟩
  · rintro ⟨part, hpart, rfl, value, hvalue, rfl⟩
    refine ⟨_, (hasTag_render valid).2 ⟨part, hpart, rfl⟩, name_tagLayout _ _, ?_⟩
    rw [attributes_tagLayout (hpart.valid valid)]
    exact List.mem_map_of_mem hvalue

/-- The attributes without a character in their values are those whose value is the empty text. -/
theorem hasAttribute_render_nil (valid : element.Valid) {key : List Char} :
    Markup.HasAttribute element.render name ⟨key, []⟩ ↔
      ∃ part, Part part element ∧ name = part.type.tag.toList ∧
        ∃ other, key = other.toList ∧ (other, .text "") ∈ part.attributes := by
  have hattribute {part : Element} (hpart : Part part element) {value : String × Value}
      (hvalue : value ∈ part.attributes) :
      (⟨key, []⟩ : Markup.Attribute) = (attributeLayout value).attribute ↔
        key = value.1.toList ∧ value.2 = .text "" := by
    rw [Markup.AttributeLayout.attribute, Markup.Attribute.mk.injEq, attributeLayout,
      Markup.Name.chars_ofString ((hpart.valid valid).fits.plainName hvalue), eq_comm (a := []),
      Markup.escape_eq_nil, String.toList_eq_nil_iff, Value.spelling_eq_empty]
  rw [hasAttribute_render valid]
  constructor
  · rintro ⟨part, hpart, hname, ⟨other, value⟩, hvalue, heq⟩
    obtain ⟨hkey, rfl⟩ := (hattribute hpart hvalue).1 heq
    exact ⟨part, hpart, hname, other, hkey, hvalue⟩
  · rintro ⟨part, hpart, hname, other, hkey, hvalue⟩
    exact ⟨part, hpart, hname, _, hvalue, (hattribute hpart hvalue).2 ⟨hkey, rfl⟩⟩

end Element

end UpdateProtocol

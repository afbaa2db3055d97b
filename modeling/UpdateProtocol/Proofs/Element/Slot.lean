import UpdateProtocol.Proofs.Element.Deletion
import UpdateProtocol.Proofs.Element.Doubling
import UpdateProtocol.Proofs.Element.Typed

/-!
# The place of an attribute in an element

A slot is an element with one attribute taken out, of itself or of an element in it.  Filling it
gives an element, and writing it with other characters between the quotes gives a node that may be
no element at all: it describes the filled element if the reader of the attribute accepts the
characters (`Slot.describes_layout`) and no element of its type otherwise
(`Slot.not_describes_layout`).
-/

namespace UpdateProtocol

open Element (attributeLayout layoutWith tagLayout)
open Markup (AttributeLayout Name Node)

/-- An attribute as it is written, but for what stands between its quotes. -/
def Element.rawLayout (name : String) (raw : List Char) (unquoted : '"' ∉ raw) :
    AttributeLayout where
  before := .space
  name := .ofString name
  quote := .double
  value := raw
  separated := Markup.Blanks.space_ne_nil
  unquoted := unquoted

/-! ### Attributes that are read -/

namespace AttributesDescribe

variable {type : ElementType} {attributes others : List Markup.Attribute}
  {values rest : List (String × Value)}

theorem append (h : AttributesDescribe type attributes values)
    (hrest : AttributesDescribe type others rest) :
    AttributesDescribe type (attributes ++ others) (values ++ rest) := by
  induction h with
  | nil => exact hrest
  | foreign unknown _ ih => exact .foreign unknown ih
  | known field read _ ih => exact .known field read ih

/-- A known attribute is read. -/
theorem exists_read (h : AttributesDescribe type attributes values) {attr : Markup.Attribute}
    (hattr : attr ∈ attributes) {known : AttributeType}
    (field : type.field? (Element.attributeKey attr.name) = some (.attr known)) :
    ∃ value, known.form.readAttribute attr.value = .ok value := by
  induction h with
  | nil => cases hattr
  | foreign unknown _ ih =>
    rcases List.mem_cons.1 hattr with rfl | hattr
    · exact absurd field (unknown known)
    · exact ih hattr
  | known hfield read _ ih =>
    rcases List.mem_cons.1 hattr with rfl | hattr
    · rw [field] at hfield
      cases hfield
      exact ⟨_, read⟩
    · exact ih hattr

/-- Values that an element may have are described by how they are written. -/
theorem of_values (known : ∀ value ∈ values,
    ∃ attr ∈ type.attributes, value.1 = attr.name ∧ attr.form.Admits value.2) :
    AttributesDescribe type ((values.map attributeLayout).map AttributeLayout.attribute) values := by
  refine AttributesSpelled.describe (.of_forall₂ ?_) known
  refine List.forall₂_map_right_iff.2 (List.forall₂_same.2 fun value hvalue => ?_)
  obtain ⟨attr, hattr, hname, -⟩ := known value hvalue
  exact Element.spelledAttribute_layout (hname ▸ type.plainName_attribute attr hattr)

end AttributesDescribe

/-! ### Slots -/

/-- An element in which an attribute is missing, of itself or of a child. -/
inductive Slot where
  | here (type : ElementType) (before after : List (String × Value)) (children : List Element)
  | inside (type : ElementType) (values : List (String × Value)) (before : List Element)
      (slot : Slot) (after : List Element)

namespace Slot

/-- The type of the element. -/
def type : Slot → ElementType
  | here type _ _ _ => type
  | inside type _ _ _ _ => type

/-- The type of the element in the tree whose attribute is missing. -/
def owner : Slot → ElementType
  | here type _ _ _ => type
  | inside _ _ _ slot _ => slot.owner

/-- Where the attribute is. -/
def place (name : String) : Slot → Place
  | here _ _ _ _ => .attr name
  | inside _ _ before slot _ =>
      .inside slot.type (Element.ofType slot.type before).length (slot.place name)

/-- The element with attributes in the place of the missing one. -/
def fill (found : List (String × Value)) : Slot → Element
  | here type before after children => .mk type (before ++ found ++ after) children
  | inside type values before slot after => .mk type values (before ++ slot.fill found :: after)

/-- The element as it is written, but for the attributes in the place of the missing one. -/
def layout (found : List AttributeLayout) : Slot → Node
  | here type before after children =>
      layoutWith
        { tagLayout type [] with
          attributes := before.map attributeLayout ++ found ++ after.map attributeLayout }
        children
  | inside type values before slot after =>
      .paired {} (tagLayout type values)
        (before.map Element.layout ++ slot.layout found :: after.map Element.layout) {}

variable (slot : Slot)

@[simp] theorem type_fill (found : List (String × Value)) : (slot.fill found).type = slot.type := by
  cases slot <;> rfl

@[simp] theorem lead_layout (found : List AttributeLayout) : (slot.layout found).lead = {} := by
  cases slot with
  | here => exact Element.lead_layoutWith _ _
  | inside => rfl

@[simp] theorem name_layout (found : List AttributeLayout) :
    (slot.layout found).name = slot.type.tag.toList := by
  cases slot with
  | here type =>
    rw [layout, Node.name, Element.tag_layoutWith]
    exact Name.chars_ofString type.plainName_tag
  | inside type => exact Name.chars_ofString type.plainName_tag

/-- An element is written with each of its attributes in its place. -/
theorem layout_fill (found : List (String × Value)) :
    (slot.fill found).layout = slot.layout (found.map attributeLayout) := by
  induction slot with
  | here type before after children =>
    cases children <;>
      simp [fill, layout, Element.layout, layoutWith, tagLayout, Element.layoutAll_eq]
  | inside type values before slot after ih =>
    rw [fill, Element.layout_mk_append, ih, layout]

/-- A typed attribute is known to the type of its element. -/
theorem field?_rawLayout {type : ElementType} {name : String} {form : Form} {raw : List Char}
    (unquoted : '"' ∉ raw) (typed : (name, form) ∈ type.typed) :
    ∃ known : AttributeType, known.name = name ∧ known.form = form ∧
      type.field? (Element.attributeKey (Element.rawLayout name raw unquoted).attribute.name) =
        some (.attr known) := by
  obtain ⟨known, hknown, rfl, hform⟩ := type.exists_of_typed _ typed
  refine ⟨known, rfl, hform, ?_⟩
  rw [AttributeLayout.attribute, Element.rawLayout,
    Name.chars_ofString (type.plainName_attribute known hknown)]
  exact type.field?_attribute known hknown

/-- A node without text before it that describes an element of its name. -/
def Told (element : Element) (node : Node) : Prop :=
  node.name = element.type.tag.toList ∧ node.lead = {} ∧ Describes node element

theorem told_layout {elements : List Element} (valid : ∀ element ∈ elements, element.Valid) :
    List.Forall₂ Told elements (elements.map Element.layout) :=
  List.forall₂_map_right_iff.2 (List.forall₂_same.2 fun element helement =>
    ⟨Element.name_layout element, Element.lead_layout element,
      (Element.spelled_layout (valid element helement)).describes _ _ (valid element helement)⟩)

section Typed

variable {name : String} {form : Form} {old new : Value} {raw : List Char} (unquoted : '"' ∉ raw)

/-- An element is described with the value that stands between the quotes of its attribute. -/
theorem describes_here {type : ElementType} {before after : List (String × Value)}
    {children : List Element} (typed : (name, form) ∈ type.typed)
    (valid : (Element.mk type (before ++ (name, new) :: after) children).Valid)
    (read : form.readAttribute raw = .ok new) :
    Describes ((here type before after children).layout [Element.rawLayout name raw unquoted])
      (.mk type (before ++ (name, new) :: after) children) := by
  have hwritten := (Element.spelled_layout valid).describes _ _ valid
  have fits := valid.fits
  cases hwritten with
  | intro _ _ _ once complete children orderly =>
  rw [Element.children_layout] at children orderly
  rw [Element.trail_layout] at orderly
  refine .intro ?distinct ?attributes (.refl _) once complete ?children ?orderly
  all_goals rw [layout]; simp only [Element.tag_layoutWith, Element.children_layoutWith]
  case distinct =>
    have hnames : (before.map attributeLayout ++ [Element.rawLayout name raw unquoted] ++
        after.map attributeLayout).map (fun attr => attr.name.chars) =
          (tagLayout type (before ++ (name, new) :: after)).attributes.map
            (fun attr => attr.name.chars) := by
      simp [tagLayout, Element.rawLayout, attributeLayout]
    rw [hnames]
    exact Element.nodup_tagLayout fits
  case attributes =>
    obtain ⟨known, rfl, rfl, field⟩ := field?_rawLayout unquoted typed
    have hvalues (values : List (String × Value))
        (h : values ⊆ before ++ (known.name, new) :: after) :=
      AttributesDescribe.of_values fun value hvalue => fits.exists_of_mem (h hvalue)
    simp only [List.map_append, List.map_cons, List.map_nil, List.append_assoc]
    exact (hvalues before (by simp)).append (.known field read (hvalues after (by simp)))
  case children => exact children
  case orderly =>
    rw [Element.trail_layoutWith]
    exact orderly

/-- An element is described with one of its children written in another way. -/
theorem describes_inside {type : ElementType} {values : List (String × Value)}
    {before after : List Element} {child : Element} {node : Node}
    (valid : (Element.mk type values (before ++ child :: after)).Valid) (told : Told child node) :
    Describes (.paired {} (tagLayout type values)
      (before.map Element.layout ++ node :: after.map Element.layout) {})
      (.mk type values (before ++ child :: after)) := by
  have fits := valid.fits
  obtain ⟨hbefore, hafter⟩ := valid.others
  have hattributes : AttributesSpelled SpelledAttribute type values (values.map attributeLayout) :=
    .of_forall₂ (List.forall₂_map_right_iff.2 (List.forall₂_same.2 fun value hvalue =>
      Element.spelledAttribute_layout (fits.plainName hvalue)))
  have htold : List.Forall₂ Told (before ++ child :: after)
      (before.map Element.layout ++ node :: after.map Element.layout) :=
    List.rel_append (told_layout hbefore) (.cons told (told_layout hafter))
  refine .of_spelled valid (.refl _) hattributes (.of_forall₂ htold) And.left
    (fun _ _ _ _ h => h.2.2) (fun other hother => ?_) Markup.Gap.isBlank_empty
  obtain ⟨_, -, -, hlead, -⟩ := exists_of_forall₂ htold hother
  rw [hlead]
  exact Markup.Gap.isBlank_empty

variable {slot : Slot} (typed : (name, form) ∈ slot.owner.typed)
  (valid : (slot.fill [(name, old)]).Valid)

include typed valid

/-- Any value of the form of an attribute may be in its place. -/
theorem valid_fill (admits : form.Admits new) : (slot.fill [(name, new)]).Valid := by
  induction slot with
  | here type before after children =>
    simp only [fill, List.append_assoc, List.singleton_append] at valid ⊢
    cases valid with
    | intro fits known compatible valid =>
    refine .intro (fits.replace fun attr hattr hname => ?_) known compatible valid
    rwa [type.form_of_typed _ typed attr hattr hname]
  | inside type values before slot after ih =>
    exact valid.replace_child (by simp) (ih typed valid.child.1)

/-- With a word of the form of the attribute between its quotes, the node describes the element with
the value that the word stands for. -/
theorem describes_layout (admits : form.Admits new) (read : form.readAttribute raw = .ok new) :
    Describes (slot.layout [Element.rawLayout name raw unquoted]) (slot.fill [(name, new)]) := by
  replace valid := valid_fill typed valid admits
  induction slot with
  | here type before after children =>
    simp only [fill, List.append_assoc, List.singleton_append] at valid ⊢
    exact describes_here unquoted typed valid read
  | inside type values before slot after ih =>
    exact describes_inside valid ⟨by simp, by simp, ih typed valid.child.1⟩

/-- With any other text between the quotes, the node describes no element of its type. -/
theorem not_describes_layout (refused : ∀ value, form.readAttribute raw ≠ .ok value)
    (element : Element) (describe : Describes (slot.layout [Element.rawLayout name raw unquoted])
      element) : element.type ≠ slot.type := by
  induction slot generalizing element with
  | here type before after children =>
    intro htype
    obtain ⟨known, rfl, rfl, field⟩ := field?_rawLayout unquoted typed
    cases describe with
    | intro distinct attributes =>
    obtain rfl : _ = type := htype
    rw [layout, Element.tag_layoutWith] at attributes
    obtain ⟨value, hread⟩ := attributes.exists_read (List.mem_map_of_mem (by simp)) field
    exact refused value hread
  | inside type values before slot after ih =>
    have hknown := valid.child.2
    rw [type_fill] at hknown
    exact Element.not_describes_of_child (List.mem_append_right _ List.mem_cons_self)
      (slot.name_layout _) hknown (ih typed valid.child.1) element describe

/-- Whatever stands between the quotes, the node declares nothing. -/
theorem calm_layout : (slot.layout [Element.rawLayout name raw unquoted]).Calm := by
  induction slot with
  | here type before after children =>
    simp only [fill, List.append_assoc, List.singleton_append] at valid
    cases valid with
    | intro fits known compatible inner =>
    refine Element.calm_of_names fits (Element.lead_layoutWith _ _) (Element.trail_layoutWith _ _)
      ?_ (by rw [layout, Element.children_layoutWith]; exact Element.calm_layout inner)
    rw [layout, Element.tag_layoutWith]
    intro attr hattr
    have hmem : (name, old) ∈ before ++ (name, old) :: after := by simp
    have hor : attr = Element.rawLayout name raw unquoted ∨
        attr ∈ (before ++ (name, old) :: after).map attributeLayout := by
      simp only [List.map_append, List.map_cons, List.mem_append, List.mem_cons,
        List.not_mem_nil, or_false] at hattr ⊢
      tauto
    obtain rfl | hor := hor
    · exact ⟨(name, old), hmem, Name.chars_ofString (fits.plainName hmem)⟩
    · exact Element.exists_name_of_mem fits hor
  | inside type values before slot after ih =>
    obtain ⟨hbefore, hafter⟩ := valid.others
    refine Element.calm_of_names valid.fits rfl rfl
      (fun attr => Element.exists_name_of_mem valid.fits) ?_
    exact List.forall_mem_append.2 ⟨Element.calm_layout hbefore,
      List.forall_mem_cons.2 ⟨ih typed valid.child.1, Element.calm_layout hafter⟩⟩

end Typed

/-! ### What is found -/

/-- A false truth value is found where none is. -/
theorem agrees_fill {slot : Slot} {name : String}
    (valid : (slot.fill [(name, .flag false)]).Valid) :
    Element.Agrees (slot.fill [(name, .flag false)]) (slot.fill []) := by
  induction slot with
  | here type before after children =>
    simp only [fill, List.append_assoc, List.singleton_append, List.append_nil] at valid ⊢
    have once := valid.fits.nodup
    have hfound : (Element.mk type (before ++ (name, .flag false) :: after) children).value? name =
        some (.flag false) := (lookup_eq_some_iff_mem once).2 (by simp)
    have hvalue (other : String) : (Element.mk type (before ++ after) children).value? other =
        if name = other then none
        else (Element.mk type (before ++ (name, .flag false) :: after) children).value? other :=
      lookup_append once other
    refine .intro rfl (fun other => ?_) (fun other => ?_) (fun other => ?_) fun type =>
      List.forall₂_same.2 fun child _ => .refl child
    · rw [Element.text?, hvalue, Element.text?]
      split_ifs with h
      · rw [← h, hfound]
      · rfl
    · rw [Element.flag, hvalue, Element.flag]
      split_ifs with h
      · rw [← h, hfound]
      · rfl
    · rw [Element.size, hvalue, Element.size]
      split_ifs with h
      · rw [← h, hfound]
      · rfl
  | inside type values before slot after ih =>
    exact .replace_child (ih valid.child.1) (by simp)

end Slot

end UpdateProtocol

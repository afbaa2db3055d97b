import UpdateProtocol.Proofs.Element.Foreign
import UpdateProtocol.Proofs.Lists

/-!
# Spellings of an element

The tags of a valid element can be written in many ways: the attributes in any order, each of them
with any blanks and either kind of quotes, the characters of a value in any of their spellings, and
a truth value by any of its words.  Foreign attributes and elements may stand between all of this.
Every node that is such a spelling describes the element (`Spelled.describes`).
-/

namespace UpdateProtocol

open Markup (AttributeLayout Node Spells)

/-! ### Values -/

/-- The ways to write a value between quotes.  Only a number is written in one way. -/
inductive SpelledValue : Value → List Char → Prop
  | text {content : String} {raw : List Char} (h : Spells content.toList raw) :
      SpelledValue (.text content) raw
  | flag {value : Bool} {word raw : List Char} (read : Value.readFlag word = some value)
      (h : Spells word raw) : SpelledValue (.flag value) raw
  | size (bytes : UInt64) : SpelledValue (.size bytes) (toString bytes.toNat).toList

theorem readDigits_toString (n : Nat) : Value.readDigits (toString n).toList = some n := by
  have hdigits : (toString n).toList = Nat.toDigits 10 n := Nat.toList_repr
  have hall : (Nat.toDigits 10 n).all Char.isDigit = true :=
    List.all_eq_true.2 fun c hc => Nat.isDigit_of_mem_toDigits (by decide) (by decide) hc
  have hfold : (Nat.toDigits 10 n).foldl (fun n c => n * 10 + (c.toNat - '0'.toNat)) 0 = n := by
    have h := Nat.ofDigitChars_toDigits (b := 10) (n := n) (by decide) (by decide)
    simpa only [Nat.ofDigitChars, Nat.mul_comm] using h
  have hne : Nat.toDigits 10 n ≠ [] := Nat.toDigits_ne_nil
  rw [hdigits, Value.readDigits, hall, hfold]
  simp [hne]

theorem readSize_toString (bytes : UInt64) :
    Value.readSize (toString bytes.toNat).toList = some bytes := by
  have hdigits : (toString bytes.toNat).toList = Nat.toDigits 10 bytes.toNat := Nat.toList_repr
  have hread := readDigits_toString bytes.toNat
  rw [hdigits] at hread ⊢
  have hdigit : ∀ c ∈ Nat.toDigits 10 bytes.toNat, c.isDigit = true := fun c hc =>
    Nat.isDigit_of_mem_toDigits (by decide) (by decide) hc
  obtain ⟨c, rest, hcons⟩ :=
    List.exists_cons_of_ne_nil (Nat.toDigits_ne_nil (b := 10) (n := bytes.toNat))
  have hplus : c ≠ '+' := by
    rintro rfl
    exact absurd (hdigit '+' (by simp [hcons])) (by decide)
  rw [hcons] at hread ⊢
  simp [Value.readSize, hplus, hread, bytes.toNat_lt]

/-- A value is read back however it is written. -/
theorem SpelledValue.readAttribute {form : Form} {value : Value} {raw : List Char}
    (h : SpelledValue value raw) (admits : form.Admits value) :
    form.readAttribute raw = .ok value := by
  cases h with
  | text h =>
    cases form <;> cases admits
    rw [Form.readAttribute, Markup.resolve_of_spells h]
    · rw [Except.mapError, lift_ok, ok_bind, Form.read, String.ofList_toList]
    · simp
  | flag read h =>
    cases form <;> cases admits
    rw [Form.readAttribute, Markup.resolve_of_spells h]
    · rw [Except.mapError, lift_ok, ok_bind, Form.read, read]
    · simp
  | size bytes =>
    cases form <;> cases admits
    rw [Form.readAttribute, Form.read, readSize_toString]

/-! ### Attributes -/

/-- A layout of an attribute with this name and value. -/
structure SpelledAttribute (value : String × Value) (attr : AttributeLayout) : Prop where
  name_eq : attr.name.chars = value.1.toList
  spelled : SpelledValue value.2 attr.value

/-- The attributes of a tag: these values as `Spell` allows to lay them out, and foreign attributes
between them, each of which has a name of its own. -/
inductive AttributesSpelled (Spell : String × Value → AttributeLayout → Prop)
    (type : ElementType) : List (String × Value) → List AttributeLayout → Prop
  | nil : AttributesSpelled Spell type [] []
  | foreign {values : List (String × Value)} {attr : AttributeLayout}
      {attributes : List AttributeLayout} (h : ForeignAttribute type attr)
      (fresh : ∀ later ∈ attributes, later.name.chars ≠ attr.name.chars)
      (rest : AttributesSpelled Spell type values attributes) :
      AttributesSpelled Spell type values (attr :: attributes)
  | known {value : String × Value} {values : List (String × Value)} {attr : AttributeLayout}
      {attributes : List AttributeLayout} (h : Spell value attr)
      (rest : AttributesSpelled Spell type values attributes) :
      AttributesSpelled Spell type (value :: values) (attr :: attributes)

namespace AttributesSpelled

variable {Spell Other : String × Value → AttributeLayout → Prop} {type : ElementType}
  {values : List (String × Value)} {attributes : List AttributeLayout}

theorem mono (h : AttributesSpelled Spell type values attributes)
    (hSpell : ∀ value ∈ values, ∀ attr, Spell value attr → Other value attr) :
    AttributesSpelled Other type values attributes := by
  induction h with
  | nil => exact .nil
  | foreign hattr fresh _ ih => exact .foreign hattr fresh (ih hSpell)
  | known hattr _ ih =>
    obtain ⟨hvalue, hvalues⟩ := List.forall_mem_cons.1 hSpell
    exact .known (hvalue _ hattr) (ih hvalues)

theorem of_forall₂ (h : List.Forall₂ Spell values attributes) :
    AttributesSpelled Spell type values attributes := by
  induction h with
  | nil => exact .nil
  | cons hattr _ ih => exact .known hattr ih

theorem foreign_or_known (h : AttributesSpelled Spell type values attributes)
    {attr : AttributeLayout} (hattr : attr ∈ attributes) :
    ForeignAttribute type attr ∨ ∃ value ∈ values, Spell value attr := by
  induction h with
  | nil => cases hattr
  | foreign hforeign _ _ ih =>
    rcases List.mem_cons.1 hattr with rfl | hattr
    · exact .inl hforeign
    · exact ih hattr
  | known hknown _ ih =>
    rcases List.mem_cons.1 hattr with rfl | hattr
    · exact .inr ⟨_, List.mem_cons_self, hknown⟩
    · obtain hforeign | ⟨value, hvalue, hspell⟩ := ih hattr
      · exact .inl hforeign
      · exact .inr ⟨value, List.mem_cons_of_mem _ hvalue, hspell⟩

section Known

variable (h : AttributesSpelled SpelledAttribute type values attributes)
  (known : ∀ value ∈ values,
    ∃ attr ∈ type.attributes, value.1 = attr.name ∧ attr.form.Admits value.2)

include h known

/-- Attributes describe the values that they spell. -/
theorem describe : AttributesDescribe type (attributes.map AttributeLayout.attribute) values := by
  induction h with
  | nil => exact .nil
  | foreign hattr _ _ ih => exact .foreign hattr.field?_ne (ih known)
  | @known value values attr attributes hattr _ ih =>
    obtain ⟨⟨found, hmem, hname, admits⟩, hrest⟩ := List.forall_mem_cons.1 known
    obtain ⟨name, value⟩ := value
    subst hname
    refine .known ?_ (hattr.spelled.readAttribute admits) (ih hrest)
    rw [AttributeLayout.attribute, hattr.name_eq]
    exact type.field?_attribute found hmem

theorem undeclared {attr : AttributeLayout} (hattr : attr ∈ attributes) :
    Markup.Scope.declared? attr.name.chars = none := by
  obtain hforeign | ⟨value, hvalue, hspell⟩ := h.foreign_or_known hattr
  · exact hforeign.undeclared
  · obtain ⟨found, hmem, hname, -⟩ := known value hvalue
    rw [hspell.name_eq, hname]
    exact (type.plainName_attribute found hmem).undeclared

/-- The names in a tag are distinct if those of the values are. -/
theorem distinct (once : (values.map Prod.fst).Nodup) :
    (attributes.map (fun attr => attr.name.chars)).Nodup := by
  induction h with
  | nil => exact .nil
  | foreign _ fresh _ ih =>
    refine List.nodup_cons.2 ⟨fun hmem => ?_, ih known once⟩
    obtain ⟨later, hlater, hname⟩ := List.mem_map.1 hmem
    exact fresh later hlater hname
  | @known value values attr attributes hattr rest ih =>
    obtain ⟨hvalue, hvalues⟩ := List.forall_mem_cons.1 known
    obtain ⟨hfirst, hothers⟩ := List.nodup_cons.1 once
    refine List.nodup_cons.2 ⟨fun hmem => ?_, ih hvalues hothers⟩
    obtain ⟨later, hlater, hlaterName⟩ := List.mem_map.1 hmem
    have hname : later.name.chars = value.1.toList := hlaterName.trans hattr.name_eq
    obtain hforeign | ⟨other, hother, hspell⟩ := rest.foreign_or_known hlater
    · obtain ⟨found, hfound, hkey, -⟩ := hvalue
      apply hforeign.unknown found hfound
      rw [hname, hkey]
      exact (type.plainName_attribute found hfound).localName_eq
    · rw [hspell.name_eq, String.toList_inj] at hname
      exact hfirst (List.mem_map.2 ⟨other, hother, hname⟩)

end Known

end AttributesSpelled

/-! ### Children -/

/-- The nodes in an element: these children as `Spell` allows to write them, and foreign nodes
between them. -/
inductive ChildrenSpelled (Spell : Element → Node → Prop) :
    List Element → ElementType → List Node → Prop
  | nil {type : ElementType} : ChildrenSpelled Spell [] type []
  | foreign {type : ElementType} {elements : List Element} {node : Node} {nodes : List Node}
      (h : ForeignNode type node) (rest : ChildrenSpelled Spell elements type nodes) :
      ChildrenSpelled Spell elements type (node :: nodes)
  | known {type : ElementType} {element : Element} {elements : List Element} {node : Node}
      {nodes : List Node} (h : Spell element node)
      (rest : ChildrenSpelled Spell elements type nodes) :
      ChildrenSpelled Spell (element :: elements) type (node :: nodes)

namespace ChildrenSpelled

variable {Spell Other : Element → Node → Prop} {type : ElementType} {elements : List Element}
  {nodes : List Node}

theorem mono (h : ChildrenSpelled Spell elements type nodes)
    (hSpell : ∀ element ∈ elements, ∀ node ∈ nodes, Spell element node → Other element node) :
    ChildrenSpelled Other elements type nodes := by
  induction h with
  | nil => exact .nil
  | foreign hnode _ ih =>
    exact .foreign hnode (ih fun element hmem node hnode =>
      hSpell element hmem node (List.mem_cons_of_mem _ hnode))
  | known hnode _ ih =>
    exact .known (hSpell _ List.mem_cons_self _ List.mem_cons_self hnode)
      (ih fun element hmem node hnode =>
        hSpell element (List.mem_cons_of_mem _ hmem) node (List.mem_cons_of_mem _ hnode))

theorem of_forall₂ (h : List.Forall₂ Spell elements nodes) :
    ChildrenSpelled Spell elements type nodes := by
  induction h with
  | nil => exact .nil
  | cons hnode _ ih => exact .known hnode ih

theorem foreign_or_known (h : ChildrenSpelled Spell elements type nodes) {node : Node}
    (hnode : node ∈ nodes) :
    ForeignNode type node ∨ ∃ element ∈ elements, Spell element node := by
  induction h with
  | nil => cases hnode
  | foreign hforeign _ ih =>
    rcases List.mem_cons.1 hnode with rfl | hnode
    · exact .inl hforeign
    · exact ih hnode
  | known hknown _ ih =>
    rcases List.mem_cons.1 hnode with rfl | hnode
    · exact .inr ⟨_, List.mem_cons_self, hknown⟩
    · obtain hforeign | ⟨element, helement, hspell⟩ := ih hnode
      · exact .inl hforeign
      · exact .inr ⟨element, List.mem_cons_of_mem _ helement, hspell⟩

end ChildrenSpelled

/-! ### Elements -/

/-- A node that spells an element: without texts, with the attributes of each tag in any order and
an element without children in one tag or in two. -/
inductive Spelled : Element → Node → Prop
  | intro {type : ElementType} {values order : List (String × Value)} {children : List Element}
      {node : Node} (lead : node.lead = {}) (name : node.name = type.tag.toList)
      (perm : order.Perm values)
      (attributes : AttributesSpelled SpelledAttribute type order node.tag.attributes)
      (spelled : ChildrenSpelled Spelled children type node.children) (trail : node.trail = {}) :
      Spelled (.mk type values children) node

theorem Spelled.lead_eq {element : Element} {node : Node} (h : Spelled element node) :
    node.lead = {} := by
  cases h
  assumption

theorem Spelled.name_eq {element : Element} {node : Node} (h : Spelled element node) :
    node.name = element.type.tag.toList := by
  cases h
  assumption

namespace ChildrenSpelled

variable {Spell : Element → Node → Prop} {type : ElementType} {elements : List Element}
  {nodes : List Node}

theorem lead_eq (h : ChildrenSpelled Spelled elements type nodes) {node : Node}
    (hnode : node ∈ nodes) : node.lead = {} := by
  obtain hforeign | ⟨element, -, hspell⟩ := h.foreign_or_known hnode
  · exact hforeign.lead
  · exact hspell.lead_eq

section Known

variable (h : ChildrenSpelled Spell elements type nodes)
  (named : ∀ {element : Element} {node : Node}, Spell element node →
    node.name = element.type.tag.toList)
  (known : ∀ element ∈ elements,
    element.type ∈ type.children ∨ type.member? = some element.type)

include h named known

/-- Only the members of the list have their name. -/
theorem name_of_isMember {node : Node} (hnode : node ∈ nodes)
    (hmember : type.isMember node.name = true) :
    ∃ part, type.member? = some part ∧ node.name = part.tag.toList := by
  obtain hforeign | ⟨element, helement, hspell⟩ := h.foreign_or_known hnode
  · rw [ElementType.isMember, hforeign.named?_eq_none] at hmember
    cases hmember
  · rw [named hspell] at hmember ⊢
    exact ⟨_, ElementType.member?_of_isMember (known element helement) hmember, rfl⟩

/-- Nodes describe the children that they spell, if each of them does. -/
theorem describe
    (each : ∀ element ∈ elements, ∀ node ∈ nodes, Spell element node → Describes node element) :
    ChildrenDescribe Describes nodes type elements := by
  induction h with
  | nil => exact .nil
  | foreign hnode _ ih =>
    exact .foreign hnode.named?_eq_none (ih known fun element helement node hnode =>
      each element helement node (List.mem_cons_of_mem _ hnode))
  | @known type element elements node nodes hnode _ ih =>
    obtain ⟨helement, helements⟩ := List.forall_mem_cons.1 known
    have hfirst := each element List.mem_cons_self node List.mem_cons_self hnode
    have hrest := ih helements fun element helement node hnode =>
      each element (List.mem_cons_of_mem _ helement) node (List.mem_cons_of_mem _ hnode)
    rcases helement with hchild | hmember
    · refine .child ?_ hfirst hrest
      rw [named hnode]
      exact type.named?_child _ hchild
    · refine .member ?_ hfirst hrest
      rw [named hnode]
      exact type.named?_member _ hmember

end Known

end ChildrenSpelled

/-- A node describes an element if its attributes and children spell those of the element and no
text stands between the children that a reader would find. -/
theorem Describes.of_spelled {Spell : Element → Node → Prop} {type : ElementType}
    {values order : List (String × Value)} {children : List Element} {node : Node}
    (valid : (Element.mk type values children).Valid) (perm : order.Perm values)
    (attributes : AttributesSpelled SpelledAttribute type order node.tag.attributes)
    (spelled : ChildrenSpelled Spell children type node.children)
    (named : ∀ {element : Element} {node : Node}, Spell element node →
      node.name = element.type.tag.toList)
    (each : ∀ element ∈ children, ∀ child ∈ node.children, Spell element child →
      Describes child element)
    (leads : ∀ child ∈ node.children, child.lead.IsBlank) (trail : node.trail.IsBlank) :
    Describes node (.mk type values children) := by
  cases valid with
  | intro fits known compatible valid =>
  have once : (values.map Prod.fst).Nodup := fits.nodup
  have hknown (value : String × Value) (hvalue : value ∈ order) :=
    fits.exists_of_mem (perm.mem_iff.1 hvalue)
  have hchildren : ChildrenDescribe Describes node.children type children :=
    spelled.describe named known each
  refine .intro (attributes.distinct hknown ((perm.map Prod.fst).nodup_iff.2 once))
    (attributes.describe hknown) perm once (fun attr hattr => fits.complete hattr) hchildren
    (hchildren.orderly compatible ?_ leads trail)
  intro node hnode later hlater hmember hother
  obtain ⟨part, hpart, hname⟩ := spelled.name_of_isMember named known hnode hmember
  obtain ⟨other, hother, hlaterName⟩ := spelled.name_of_isMember named known hlater hother
  rw [hpart, Option.some_inj] at hother
  rw [hlaterName, hname, hother]

namespace Spelled

/-- A spelling of a valid element describes it. -/
theorem describes (node : Node) :
    ∀ element : Element, element.Valid → Spelled element node → Describes node element := by
  induction node using Node.induct with
  | step node ih =>
  intro element valid h
  cases h with
  | @intro type values order children _ lead name perm attributes spelled trail =>
  refine .of_spelled valid perm attributes spelled Spelled.name_eq ?_ (fun child hchild => ?_) ?_
  · cases valid with
    | intro fits known compatible valid =>
    exact fun element helement child hchild => ih child hchild element (valid element helement)
  · rw [spelled.lead_eq hchild]
    exact Markup.Gap.isBlank_empty
  · rw [trail]
    exact Markup.Gap.isBlank_empty

/-- A spelling of a valid element has no declarations and no ampersands in texts. -/
theorem calm (node : Node) :
    ∀ element : Element, element.Valid → Spelled element node → node.Calm := by
  induction node using Node.induct with
  | step node ih =>
  intro element valid h
  cases h with
  | @intro type values order children _ lead name perm attributes spelled trail =>
  cases valid with
  | intro fits known compatible valid =>
  refine Node.calm_of (lead ▸ Markup.Gap.calm_empty) ?_ ?_ (trail ▸ Markup.Gap.calm_empty)
  · intro attr hattr
    exact attributes.undeclared (fun value hvalue => fits.exists_of_mem (perm.mem_iff.1 hvalue))
      hattr
  · intro child hchild
    obtain hforeign | ⟨element, helement, hspell⟩ := spelled.foreign_or_known hchild
    · exact hforeign.inert.calm
    · exact ih child hchild element (valid element helement) hspell

end Spelled

end UpdateProtocol

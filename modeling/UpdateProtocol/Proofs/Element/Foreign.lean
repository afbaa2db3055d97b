import UpdateProtocol.Proofs.Element.Valid
import UpdateProtocol.Proofs.Markup.Stream

/-!
# Foreign parts

Attributes and elements that a type does not know, so that a reader passes over them.  A foreign
element may have anything in it that can be passed over: other elements of any names, nested in any
way, as long as no tag declares a namespace and no text has an ampersand (`Inert`).
-/

namespace UpdateProtocol

open Markup (AttributeLayout Node)

/-! ### Attributes -/

/-- An attribute that a type does not know and that binds no qualifier. -/
structure ForeignAttribute (type : ElementType) (attr : AttributeLayout) : Prop where
  unknown : ∀ known ∈ type.attributes, Markup.localName attr.name.chars ≠ known.name.toList
  undeclared : Markup.Scope.declared? attr.name.chars = none

/-- An attribute that binds no qualifier is looked up by its local name. -/
theorem Element.attributeKey_eq {name : List Char} (h : Markup.Scope.declared? name = none) :
    attributeKey name = "@" ++ String.ofList (Markup.localName name) := by
  have hprefix : ¬ "xmlns:".toList <+: name := by
    simpa [Markup.Scope.declared?, ← List.isPrefixOf_iff_prefix] using h
  rw [attributeKey]
  split
  · next hdeclaration =>
    obtain ⟨hstart, hrest⟩ := Bool.and_eq_true_iff.1 hdeclaration
    obtain ⟨rest, rfl⟩ := List.isPrefixOf_iff_prefix.1 hstart
    rcases rest with _ | ⟨c, rest⟩
    · decide
    · have hc : c = ':' := by simpa using hrest
      exact absurd ⟨rest, by simp [hc]⟩ hprefix
  · rfl

theorem ForeignAttribute.field?_ne {type : ElementType} {attr : AttributeLayout}
    (h : ForeignAttribute type attr) (known : AttributeType) :
    type.field? (Element.attributeKey attr.attribute.name) ≠ some (.attr known) := by
  intro hfield
  obtain ⟨hmem, hkey⟩ := ElementType.mem_of_field? hfield
  have hknown : known ∈ type.attributes := by simpa [ElementType.fields] using hmem
  rw [AttributeLayout.attribute, Element.attributeKey_eq h.undeclared, Field.key] at hkey
  have hname := congrArg String.toList hkey
  rw [String.toList_append, String.toList_append, List.append_cancel_left_eq,
    String.toList_ofList] at hname
  exact h.unknown known hknown hname.symm

/-! ### Elements -/

/-- A node that can be passed over without a fault and without a trace. -/
inductive Inert : Node → Prop
  | intro {node : Node} (lead : node.lead.Calm)
      (undeclared : ∀ attr ∈ node.tag.attributes,
        Markup.Scope.declared? attr.name.chars = none)
      (children : ∀ child ∈ node.children, Inert child) (trail : node.trail.Calm) : Inert node

theorem Inert.calm (node : Node) : Inert node → node.Calm := by
  induction node using Node.induct with
  | step node ih =>
  intro h
  cases h with
  | intro lead undeclared children trail =>
  exact Node.calm_of lead undeclared (fun child hchild => ih child hchild (children child hchild))
    trail

/-- A node that a type does not know, without a text before it. -/
structure ForeignNode (type : ElementType) (node : Node) : Prop where
  unknown : ∀ part, part ∈ type.children ∨ type.member? = some part →
    Markup.localName node.name ≠ part.tag.toList
  lead : node.lead = {}
  inert : Inert node

theorem Markup.localName_suffix (name : List Char) : localName name <:+ name := by
  rw [localName]
  split
  · exact List.suffix_refl name
  · next h => exact (List.suffix_cons _ _).trans (h ▸ List.dropWhile_suffix _)

theorem ForeignNode.named?_eq_none {type : ElementType} {node : Node}
    (h : ForeignNode type node) : type.named? node.name = none := by
  cases hfield : type.named? node.name with
  | none => rfl
  | some field =>
    obtain ⟨hmem, hkey⟩ := ElementType.mem_of_field? hfield
    have hname := congrArg String.toList hkey
    rw [String.toList_ofList] at hname
    cases field with
    | attr known =>
      have hat : '@' ∈ Markup.localName node.name := by simp [← hname, Field.key]
      have hchar := node.tag.name.isNameChar_of_mem ((Markup.localName_suffix _).mem hat)
      exact absurd hchar (by decide)
    | child part =>
      have hpart : part ∈ type.children := by simpa [ElementType.fields] using hmem
      exact absurd hname.symm (h.unknown part (.inl hpart))
    | member part =>
      have hpart : type.member? = some part := by simpa [ElementType.fields] using hmem
      exact absurd hname.symm (h.unknown part (.inr hpart))

end UpdateProtocol

import UpdateProtocol.Proofs.Element.Layout
import UpdateProtocol.Proofs.Markup.Prolog

/-!
# Fillers between tags

Blanks and remarks may stand between any two tags of an element, and an element without children may
be written with two tags, a filler between them.  A node of an element with such fillers describes
the element (`Filled.describes`) and has its text as a part of its own (`Filled.sublist_write`).
-/

namespace UpdateProtocol

open Markup (Gap Node)

namespace Element

/-- A node with the tags of an element as they are written and fillers between them.  An element
without children has one tag or two. -/
inductive Filled : Element → Node → Prop
  | intro {type : ElementType} {values : List (String × Value)} {children : List Element}
      {node : Node} (lead : node.lead.IsBlank) (tag : node.tag = tagLayout type values)
      (filled : List.Forall₂ Filled children node.children) (trail : node.trail.IsBlank) :
      Filled (.mk type values children) node

namespace Filled

theorem name_eq {element : Element} {node : Node} (h : Filled element node) :
    node.name = element.type.tag.toList := by
  cases h with
  | @intro type _ _ _ _ tag _ _ =>
    rw [Node.name, tag]
    exact Markup.Name.chars_ofString type.plainName_tag

theorem lead_isBlank {element : Element} {node : Node} (h : Filled element node) :
    node.lead.IsBlank := by
  cases h
  assumption

/-- A filled node of a valid element describes it. -/
theorem describes (node : Node) :
    ∀ element : Element, element.Valid → Filled element node → Describes node element := by
  induction node using Node.induct with
  | step node ih =>
  intro element valid h
  cases h with
  | @intro type values children _ lead tag filled trail =>
  refine .of_spelled valid (.refl _) ?_ (.of_forall₂ filled) name_eq ?_ (fun child hchild => ?_)
    trail
  · cases valid with
    | intro fits known compatible valid =>
    rw [tag]
    exact .of_forall₂ (List.forall₂_map_right_iff.2
      (List.forall₂_same.2 fun value hvalue => spelledAttribute_layout (fits.plainName hvalue)))
  · cases valid with
    | intro fits known compatible valid =>
    exact fun element helement child hchild => ih child hchild element (valid element helement)
  · obtain ⟨element, -, h⟩ := exists_of_forall₂ filled hchild
    exact h.lead_isBlank

/-- A filled node of a valid element has no declarations and no ampersands in texts. -/
theorem calm (node : Node) :
    ∀ element : Element, element.Valid → Filled element node → node.Calm := by
  induction node using Node.induct with
  | step node ih =>
  intro element valid h
  cases h with
  | @intro type values children _ lead tag filled trail =>
  cases valid with
  | intro fits known compatible valid =>
  refine Node.calm_of lead.calm (fun attr hattr => ?_) (fun child hchild => ?_) trail.calm
  · rw [tag] at hattr
    obtain ⟨value, hvalue, rfl⟩ := List.mem_map.1 hattr
    have hplain := fits.plainName hvalue
    rw [attributeLayout, Markup.Name.chars_ofString hplain]
    exact hplain.undeclared
  · obtain ⟨element, helement, h⟩ := exists_of_forall₂ filled hchild
    exact ih child hchild element (valid element helement) h

/-- The text of an element is a part of the text of every filled node. -/
theorem sublist_write (node : Node) :
    ∀ element, Filled element node → List.Sublist element.layout.write node.write := by
  induction node using Node.induct with
  | step node ih =>
  intro element h
  cases h with
  | @intro type values children _ lead tag filled trail =>
  refine sublist_write_node (Filled.intro lead tag filled trail).name_eq (tag ▸ .refl _) ?_
    fun hnone => ?_
  · rw [Node.writeAll_eq, Node.writeAll_eq, layoutAll_eq]
    generalize node.children = nodes at filled ih
    induction filled with
    | nil => exact .slnil
    | cons first _ ihall =>
      obtain ⟨hfirst, hrest⟩ := List.forall_mem_cons.1 ih
      rw [List.map_cons, List.flatMap_cons, List.flatMap_cons]
      exact (hfirst _ first).append (ihall hrest)
  · rw [hnone] at filled
    cases filled
    rfl

end Filled

end Element

end UpdateProtocol

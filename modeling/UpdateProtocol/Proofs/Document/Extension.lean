import UpdateProtocol.Proofs.Document.Size
import UpdateProtocol.Proofs.Message.Wire

/-!
# Extended documents

A document of a later version may have attributes and elements that this one does not know.  The
text of a message stays a part of such a document, so it is no larger, and both decode to the same
message (`decode_extended`).
-/

namespace UpdateProtocol

open Element (Extended attributeLayout layoutAll tagLayout)
open Markup (AttributeLayout Name Node TagLayout)

/-! ### Texts -/

section Texts

variable {type : ElementType} {values : List (String × Value)} {attributes : List AttributeLayout}
  {elements : List Element} {nodes : List Node}

/-- The attributes are written in order among the foreign ones. -/
theorem AttributesSpelled.sublist_write
    (h : AttributesSpelled (fun value attr => attr = attributeLayout value) type values
      attributes) :
    List.Sublist ((values.map attributeLayout).flatMap AttributeLayout.write)
      (attributes.flatMap AttributeLayout.write) := by
  induction h with
  | nil => exact .slnil
  | foreign _ _ _ ih =>
    rw [List.flatMap_cons]
    exact ih.trans (List.sublist_append_right _ _)
  | known hattr _ ih =>
    rw [List.map_cons, List.flatMap_cons, List.flatMap_cons, hattr]
    exact ih.append_left _

/-- The children are written in order among the foreign nodes. -/
theorem ChildrenSpelled.sublist_write (h : ChildrenSpelled Extended elements type nodes)
    (each : ∀ node ∈ nodes, ∀ element, Extended element node →
      List.Sublist element.layout.write node.write) :
    List.Sublist (Node.writeAll (layoutAll elements)) (Node.writeAll nodes) := by
  induction h with
  | nil => exact .slnil
  | foreign _ _ ih =>
    rw [Node.writeAll]
    exact (ih fun node hnode => each node (List.mem_cons_of_mem _ hnode)).trans
      (List.sublist_append_right _ _)
  | known hnode _ ih =>
    rw [layoutAll, Node.writeAll, Node.writeAll]
    exact (each _ List.mem_cons_self _ hnode).append
      (ih fun node hnode => each node (List.mem_cons_of_mem _ hnode))

theorem sublist_write_tag {tag : TagLayout} (name : tag.name.chars = type.tag.toList)
    (h : AttributesSpelled (fun value attr => attr = attributeLayout value) type values
      tag.attributes) :
    List.Sublist (tagLayout type values).write tag.write := by
  rw [TagLayout.write, TagLayout.write, tagLayout, Name.chars_ofString type.plainName_tag, name]
  exact (h.sublist_write.append_left _).append (List.nil_sublist _)

end Texts

/-- The text of an element is a part of every extension of it. -/
theorem Element.Extended.sublist_write (node : Node) :
    ∀ element, Extended element node → List.Sublist element.layout.write node.write := by
  induction node using Node.induct with
  | step node ih =>
  intro element h
  cases h with
  | @intro type values children _ lead name attributes extended trail =>
  refine Element.sublist_write_node name (sublist_write_tag name attributes)
    (extended.sublist_write ih) fun hnone => ?_
  rw [hnone] at extended
  cases extended
  rfl

/-! ### Documents -/

variable {node : Node} {header text : String}

/-- A document that extends the text of a message decodes to the message, as this text does. -/
theorem Message.decode_of_extended {μ : Type} [Message μ] {message : μ}
    (h : Extended (toElement message) node) (hheader : IsHeader header)
    (htext : text.toList = header.toList ++ node.write)
    (hsize : text.toUTF8.size ≤ maxDocumentSize) :
    decode μ text.toUTF8 = .ok (canon message) ∧
      decode μ (header ++ encode message).toUTF8 = .ok (canon message) := by
  have valid := valid_toElement message
  have hsublist : List.Sublist (header ++ encode message).toList text.toList := by
    rw [htext, String.toList_append, encode, Element.toList_render valid]
    exact (h.sublist_write node _).append_left _
  exact ⟨decode_spelling (h.spelled node _ valid) hheader htext hsize,
    decode_header_encode message hheader (Nat.le_trans (size_le_of_sublist hsublist) hsize)⟩

/-- Foreign attributes and elements do not matter to a message, wherever they stand. -/
theorem decode_extended (hheader : IsHeader header)
    (htext : text.toList = header.toList ++ node.write)
    (hsize : text.toUTF8.size ≤ maxDocumentSize) :
    (∀ request : Request, Extended request.toElement node →
      Request.decode text.toUTF8 = .ok request.canon ∧
        Request.decode (header ++ request.encode).toUTF8 = .ok request.canon) ∧
    (∀ response : Response, Extended response.toElement node →
      Response.decode text.toUTF8 = .ok response.canon ∧
        Response.decode (header ++ response.encode).toUTF8 = .ok response.canon) :=
  ⟨fun _ h => Message.decode_of_extended h hheader htext hsize,
    fun _ h => Message.decode_of_extended h hheader htext hsize⟩

/-- A request about two applications. -/
def extendedRequest : Request where
  apps := [{ id := "a" }, { id := "b" }]

/-- An attribute that no request has. -/
def foreignLayout : AttributeLayout where
  before := .space
  name := .ofString "x:y"
  quote := .single
  value := "a<b&".toList
  separated := Markup.Blanks.space_ne_nil
  unquoted := by decide

/-- An element that no request has, with an application in it. -/
def foreignNode : Node :=
  .paired {} { name := .ofString "x:list" } [.selfClosed {} { name := .ofString "app" }]
    { text := ⟨"t".toList, by decide⟩ }

/-- The request with these in and between its tags. -/
def extendedNode : Node :=
  .paired {}
    { name := .ofString "request",
      attributes := [foreignLayout, attributeLayout ("protocol", .text "")] }
    [(App.toElement { id := "a" }).layout, foreignNode, (App.toElement { id := "b" }).layout] {}

theorem extended_extendedNode : Extended extendedRequest.toElement extendedNode := by
  have hattr : ForeignAttribute .request foreignLayout := ⟨by decide, by decide⟩
  have hinner : Inert (.selfClosed {} { name := .ofString "app" }) :=
    .intro Markup.Gap.calm_empty (by decide) (fun _ h => absurd h List.not_mem_nil)
      Markup.Gap.calm_empty
  have hinert : Inert foreignNode :=
    .intro Markup.Gap.calm_empty (by decide) (fun _ h => List.mem_singleton.1 h ▸ hinner)
      (by unfold Markup.Gap.Calm; decide)
  have hunknown : ∀ part, part ∈ ElementType.request.children ∨
      ElementType.request.member? = some part →
        Markup.localName foreignNode.name ≠ part.tag.toList := by
    intro part hpart
    cases part <;> revert hpart <;> decide
  have hnode : ForeignNode .request foreignNode := ⟨hunknown, rfl, hinert⟩
  refine .intro rfl (Name.chars_ofString (ElementType.request.plainName_tag)) ?_ ?_ rfl
  · exact .foreign hattr (by decide) (.known rfl .nil)
  · exact .known (Element.extended_layout _ (App.valid_toElement _))
      (.foreign hnode (.known (Element.extended_layout _ (App.valid_toElement _)) .nil))

theorem decode_extendedNode :
    Request.decode ("<request x:y='a<b&' protocol=\"\"><app appid=\"a\"/>" ++
        "<x:list><app/>t</x:list><app appid=\"b\"/></request>").toUTF8 =
      .ok extendedRequest.canon :=
  ((@decode_extended extendedNode "" _ (.inl rfl) (by decide)
    (by decide)).1 extendedRequest extended_extendedNode).1

end UpdateProtocol

import UpdateProtocol.Proofs.Document.Root
import UpdateProtocol.Proofs.Document.Size
import UpdateProtocol.Proofs.Element.Qualification

/-!
# Qualified documents

The names in the encoding of a message may have qualifiers that nothing declares.  Such a document
decodes to the same message, and the decoder of the other kind refuses it for the plain name of its
root (`decode_qualified`).
-/

namespace UpdateProtocol

open Element (Qualified attributeLayout)
open Markup (IsQualifier Node TagLayout)

variable {node : Node} {header text : String}

/-- A qualified document decodes to the message, as the encoding does, and is no message of the
other kind. -/
theorem Message.decode_of_qualified {μ ν : Type} [Message μ] [Message ν] {message : μ}
    (hne : (root ν).tag ≠ (root μ).tag) (h : Qualified (toElement message) node)
    (hheader : IsHeader header) (htext : text.toList = header.toList ++ node.write)
    (hsize : text.toUTF8.size ≤ maxDocumentSize) :
    decode μ text.toUTF8 = .ok (canon message) ∧
      decode μ (header ++ encode message).toUTF8 = .ok (canon message) ∧
      decode ν text.toUTF8 = .error (.unexpectedRoot (root ν) (root μ).tag.toList) := by
  have valid := valid_toElement message
  refine ⟨?_, ?_, ?_⟩
  · rw [← ofElement_toElement]
    exact decode_of_describes (type_toElement message) (h.describes _ _ valid) (h.calm _ _ valid)
      h.lead_eq h.localName_eq hheader htext hsize
  · refine decode_header_encode message hheader (Nat.le_trans (size_le_of_sublist ?_) hsize)
    rw [htext, String.toList_append, encode, Element.toList_render valid]
    exact (h.sublist_write _ _ valid).append_left _
  · have hroot := h.localName_eq
    rw [type_toElement] at hroot
    exact decode_other_root hne h.lead_eq hroot hheader htext hsize

/-- Qualifiers do not matter, neither to the decoder of the message nor to the one that refuses
it. -/
theorem decode_qualified (hheader : IsHeader header)
    (htext : text.toList = header.toList ++ node.write)
    (hsize : text.toUTF8.size ≤ maxDocumentSize) :
    (∀ request : Request, Qualified request.toElement node →
      Request.decode text.toUTF8 = .ok request.canon ∧
      Request.decode (header ++ request.encode).toUTF8 = .ok request.canon ∧
      Response.decode text.toUTF8 = .error (.unexpectedRoot .response "request".toList)) ∧
    (∀ response : Response, Qualified response.toElement node →
      Response.decode text.toUTF8 = .ok response.canon ∧
      Response.decode (header ++ response.encode).toUTF8 = .ok response.canon ∧
      Request.decode text.toUTF8 = .error (.unexpectedRoot .request "response".toList)) :=
  ⟨fun _ h => Message.decode_of_qualified (μ := Request) (ν := Response) (by decide) h hheader
      htext hsize,
    fun _ h => Message.decode_of_qualified (μ := Response) (ν := Request) (by decide) h hheader
      htext hsize⟩

/-- A request about two applications. -/
def twoAppsRequest : Request where
  apps := [{ id := "a" }, { id := "b" }]

/-- A tag with a qualified name and one attribute. -/
def qualifiedTag (name key : String) (value : String × Value) : TagLayout where
  name := .ofString name
  attributes := [{ attributeLayout value with name := .ofString key }]

/-- The request with a qualifier for its root, another one for its applications, and one that looks
like a reserved one for an attribute. -/
def qualifiedNode : Node :=
  .compact (qualifiedTag "a:request" "xmlns1:protocol" ("protocol", .text ""))
    [.compact (qualifiedTag "b:app" "appid" ("appid", .text "a")) [],
      .compact (qualifiedTag "b:app" "a:appid" ("appid", .text "b")) []]

theorem qualified_qualifiedNode : Qualified twoAppsRequest.toElement qualifiedNode := by
  have first := @IsQualifier.present ['a'] (by decide) (by decide) (by decide)
  have second := @IsQualifier.present ['b'] (by decide) (by decide) (by decide)
  have third := @IsQualifier.present "xmlns1".toList (by decide) (by decide) (by decide)
  refine .intro ⟨_, first, by decide⟩ (.cons ⟨_, ⟨_, third, by decide⟩, rfl⟩ .nil) rfl
    (.cons ?_ (.cons ?_ .nil)) (by decide)
  · exact .intro ⟨_, second, by decide⟩ (.cons ⟨_, ⟨_, .absent, by decide⟩, rfl⟩ .nil) rfl .nil
      (by simp)
  · exact .intro ⟨_, second, by decide⟩ (.cons ⟨_, ⟨_, first, by decide⟩, rfl⟩ .nil) rfl .nil
      (by simp)

set_option maxRecDepth 2000 in
theorem decode_qualifiedNode :
    Request.decode ("<a:request xmlns1:protocol=\"\"><b:app appid=\"a\"/>" ++
        "<b:app a:appid=\"b\"/></a:request>").toUTF8 =
      .ok twoAppsRequest.canon ∧
    Response.decode ("<a:request xmlns1:protocol=\"\"><b:app appid=\"a\"/>" ++
        "<b:app a:appid=\"b\"/></a:request>").toUTF8 =
      .error (.unexpectedRoot .response "request".toList) := by
  refine ⟨((decode_qualified (.inl rfl) ?_ (by decide)).1 twoAppsRequest
      qualified_qualifiedNode).1,
    ((decode_qualified (.inl rfl) ?_ (by decide)).1 twoAppsRequest qualified_qualifiedNode).2.2⟩
  · simp only [String.toList_append]
    rfl
  · simp only [String.toList_append]
    rfl

end UpdateProtocol

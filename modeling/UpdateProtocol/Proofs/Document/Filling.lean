import UpdateProtocol.Proofs.Document.Size
import UpdateProtocol.Proofs.Element.Filling
import UpdateProtocol.Proofs.Message.Wire

/-!
# Filled documents

Neither what stands before the root of a document nor what stands between two tags matters to the
message, as long as it is blanks, remarks and declarations: every such document decodes to the
message whose tags it has (`decode_filled`).
-/

namespace UpdateProtocol

open Element (Filled)
open Markup (Doctype Filler Gap Node Prolog Remark SyntaxError Token Tokens)

variable {node : Node} {prolog : Prolog} {text : String}

/-- A document is read as if it began at its root. -/
theorem Element.ofTokens_prolog (type : ElementType) (prolog : Prolog) (tokens : List Token)
    (fault : Option SyntaxError) :
    ofTokens type ⟨prolog.tokens ++ tokens, fault⟩ = ofTokens type ⟨tokens, fault⟩ := by
  simp only [ofTokens, Tokens.root_prolog, Element.read, Tokens.next_prolog]

namespace Message

variable {μ : Type} [Message μ] {message : μ}

/-- A filled document decodes to the message, as the text without fillers does. -/
theorem decode_of_filled (h : Filled (toElement message) node)
    (htext : text.toList = prolog.write ++ node.write)
    (hsize : text.toUTF8.size ≤ maxDocumentSize) :
    decode μ text.toUTF8 = .ok (canon message) ∧
      decode μ (encode message).toUTF8 = .ok (canon message) := by
  have valid := valid_toElement message
  have hroot : Markup.localName node.name = (toElement message).type.tag.toList := by
    rw [h.name_eq]
    exact (toElement message).type.plainName_tag.localName_eq
  constructor
  · obtain ⟨found, hfound, halike⟩ := Element.ofTokens_tokens (h.describes node _ valid)
      (h.calm node _ valid) h.lead_isBlank hroot
    rw [decode, Element.decode_toUTF8 hsize, htext, Tokens.ofText_prolog prolog h.lead_isBlank,
      Element.ofTokens_prolog]
    rw [← type_toElement message, hfound, Except.map, ofElement_alike halike, ofElement_toElement]
  · have hsublist : List.Sublist (encode message).toList text.toList := by
      rw [htext, encode, Element.toList_render valid]
      exact (h.sublist_write node _).trans (List.sublist_append_right _ _)
    have hencode := @decode_header_encode μ _ "" message (.inl rfl)
    rw [String.empty_append] at hencode
    exact hencode (Nat.le_trans (size_le_of_sublist hsublist) hsize)

end Message

/-- The layout of a message does not matter: what stands before its root, what stands between its
tags, and whether an element without children has one tag or two. -/
theorem decode_filled (htext : text.toList = prolog.write ++ node.write)
    (hsize : text.toUTF8.size ≤ maxDocumentSize) :
    (∀ request : Request, Filled request.toElement node →
      Request.decode text.toUTF8 = .ok request.canon ∧
        Request.decode request.encode.toUTF8 = .ok request.canon) ∧
    (∀ response : Response, Filled response.toElement node →
      Response.decode text.toUTF8 = .ok response.canon ∧
        Response.decode response.encode.toUTF8 = .ok response.canon) :=
  ⟨fun _ h => Message.decode_of_filled h htext hsize,
    fun _ h => Message.decode_of_filled h htext hsize⟩

/-- A request about one application. -/
def filledRequest : Request where
  apps := [{}]

/-- A comment in which an application seems to stand. -/
def commentedApp : Remark :=
  .comment "<app/>".toList (by decide)

/-- A line break and the comment. -/
def commentGap : Gap where
  text := .lineBreak
  remarks := [(commentedApp, .empty)]

theorem isBlank_commentGap : commentGap.IsBlank := by
  simp [Gap.IsBlank, Gap.texts, commentGap, Markup.RawText.lineBreak, Text.isBlank]

/-- A byte order mark, the comment and a document type. -/
def markedProlog : Prolog where
  marked := true
  declarations := [(⟨commentGap, isBlank_commentGap⟩,
    { name := .ofString "request", separated := Markup.Blanks.space_ne_nil })]

/-- The request with the comment between its tags. -/
def filledNode : Node :=
  .paired commentGap (Element.tagLayout .request [("protocol", .text "")])
    [.paired commentGap (Element.tagLayout .app []) [] commentGap] commentGap

theorem filled_filledNode : Filled filledRequest.toElement filledNode :=
  .intro isBlank_commentGap rfl
    (.cons (.intro isBlank_commentGap rfl .nil isBlank_commentGap) .nil) isBlank_commentGap

set_option maxRecDepth 2000 in
theorem decode_filledNode :
    Request.decode ("\ufeff\n<!--<app/>--><!DOCTYPE request>\n<!--<app/>-->" ++
        "<request protocol=\"\">\n<!--<app/>--><app>\n<!--<app/>--></app>\n<!--<app/>-->" ++
        "</request>").toUTF8 =
      .ok filledRequest.canon :=
  ((@decode_filled filledNode markedProlog _ (by decide)
    (by decide)).1 filledRequest filled_filledNode).1

end UpdateProtocol

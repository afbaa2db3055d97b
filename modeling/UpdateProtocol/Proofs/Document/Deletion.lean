import UpdateProtocol.Proofs.Document.Size
import UpdateProtocol.Proofs.Message.Deletion
import UpdateProtocol.Proofs.Message.Wire

/-!
# Documents without one item

One attribute or one child element, with all that is in it, is deleted from the encoding of a
message.  Without a mandatory attribute the document is refused; otherwise it decodes to the message
with this one item reset (`decode_deleted`).
-/

namespace UpdateProtocol

open Element (Deleted Resets)
open Markup (Node)

variable {place : Place} {left : Element} {node : Node} {text : String}

namespace Message

variable {μ : Type} [Message μ] {message : μ}
  (h : Deleted (toElement message) place left node) (htext : text.toList = node.write)

include h htext

/-- What is left of an encoding is a part of it. -/
theorem size_deleted : text.toUTF8.size ≤ (encode message).toUTF8.size := by
  obtain ⟨first, item, rest, hwrite, hnode⟩ := h.exists_write
  refine size_le_of_sublist ?_
  rw [encode, Element.toList_render (valid_toElement message), hwrite, htext, hnode]
  exact (List.sublist_append_left first item).append_right rest

variable (hsize : (encode message).toUTF8.size ≤ maxDocumentSize)

include hsize

/-- Without a mandatory attribute no message is read. -/
theorem decode_without_mandatory (mandatory : place.isMandatory (root μ) = true) :
    ∃ error, decode μ text.toUTF8 = .error (.schema error) := by
  have valid := valid_toElement message
  obtain ⟨spelled, calm⟩ := h.spelled_calm valid
  rw [← type_toElement message] at mandatory
  have hrefuse := h.not_describes valid mandatory
  rw [type_toElement] at hrefuse
  have hname : Markup.localName node.name = (root μ).tag.toList := by
    rw [spelled.name_eq, h.type_eq, type_toElement]
    exact (root μ).plainName_tag.localName_eq
  exact decode_refused hrefuse calm spelled.lead_eq hname (.inl rfl) htext
    (Nat.le_trans (size_deleted h htext) hsize)

/-- Without another item the message in what is left is read. -/
theorem decode_without_optional (optional : place.isMandatory (root μ) = false) :
    decode μ text.toUTF8 = .ok (ofElement left) := by
  have valid := valid_toElement message
  rw [← type_toElement message] at optional
  exact decode_of_spelled (h.type_eq.trans (type_toElement message)) (h.valid valid optional)
    (h.spelled_calm valid).1 (.inl rfl) htext (Nat.le_trans (size_deleted h htext) hsize)

/-- So the message is read with the item reset, where `reset` says what this is. -/
theorem decode_reset (canonical : canon message = message) {reset : μ → Place → μ}
    (hreset : Resets (root μ) ofElement reset) :
    if place.isMandatory (root μ) then ∃ error, decode μ text.toUTF8 = .error (.schema error)
    else decode μ text.toUTF8 = .ok (reset message place) := by
  split_ifs with mandatory
  · exact decode_without_mandatory h htext hsize mandatory
  · rw [Bool.not_eq_true] at mandatory
    rw [decode_without_optional h htext hsize mandatory,
      hreset h (valid_toElement message) (type_toElement message) mandatory, ofElement_toElement,
      canonical]

end Message

/-- A canonical message without one item decodes to the message with this item reset, or to a fault
if the item is a mandatory attribute. -/
theorem decode_deleted (htext : text.toList = node.write) :
    (∀ request : Request, request.canon = request →
      request.encode.toUTF8.size ≤ maxDocumentSize → Deleted request.toElement place left node →
        if place.isMandatory .request then
          ∃ error, Request.decode text.toUTF8 = .error (.schema error)
        else Request.decode text.toUTF8 = .ok (request.reset place)) ∧
    (∀ response : Response, response.canon = response →
      response.encode.toUTF8.size ≤ maxDocumentSize → Deleted response.toElement place left node →
        if place.isMandatory .response then
          ∃ error, Response.decode text.toUTF8 = .error (.schema error)
        else Response.decode text.toUTF8 = .ok (response.reset place)) :=
  ⟨fun _ canonical hsize h => Message.decode_reset (μ := Request) h htext hsize canonical
      Request.resets,
    fun _ canonical hsize h => Message.decode_reset (μ := Response) h htext hsize canonical
      Response.resets⟩

/-- A request about two applications, the first with a ping and an event. -/
def deletedRequest : Request where
  apps := [{ id := "a", ping := some {}, events := [{}] }, { id := "b" }]

/-- Without the ping the request is read; without the type of the event it is refused. -/
theorem decode_deletedRequest :
    Request.decode ("<request protocol=\"\"><app appid=\"a\">" ++
        "<event eventtype=\"0\" eventresult=\"0\"/></app><app appid=\"b\"/></request>").toUTF8 =
      .ok { apps := [{ id := "a", events := [{}] }, { id := "b" }] } ∧
    ∃ error, Request.decode ("<request protocol=\"\"><app appid=\"a\"><ping/>" ++
        "<event eventresult=\"0\"/></app><app appid=\"b\"/></request>").toUTF8 =
      .error (.schema error) := by
  have hsize : deletedRequest.encode.toUTF8.size ≤ maxDocumentSize := by decide
  have hping := @Deleted.inside .request [("protocol", .text "")] _ _ []
    [App.toElement { id := "b" }] _ _ (@Deleted.child .app [("appid", .text "a")]
      (Ping.toElement {}) [] [Event.toElement {}])
  have hevent := @Deleted.inside .request [("protocol", .text "")] _ _ []
    [App.toElement { id := "b" }] _ _ (@Deleted.inside .app [("appid", .text "a")] _ _
      [Ping.toElement {}] [] _ _ (@Deleted.attr .event ("eventtype", .text "0") []
        [("eventresult", .text "0")] []))
  exact ⟨(decode_deleted (by decide)).1 deletedRequest rfl hsize hping,
    (decode_deleted (by decide)).1 deletedRequest rfl hsize hevent⟩

end UpdateProtocol

import UpdateProtocol.Proofs.Element.Acceptance
import UpdateProtocol.Proofs.Element.Layout
import UpdateProtocol.Proofs.Message.Valid

/-!
# Messages on the wire

What requests and responses have in common: both are written as valid elements of one type, and
what is found in an element depends on it only up to the order that `Element.Alike` leaves open.
From this alone it follows that a message is read from every document that describes its element
(`Message.decode_of_describes`).
-/

namespace UpdateProtocol

open Element (Alike)
open Markup (Node)

/-- A kind of messages with the type of its elements. -/
class Message (μ : Type) where
  root : ElementType
  toElement : μ → Element
  ofElement : Element → μ
  canon : μ → μ
  type_toElement : ∀ message, (toElement message).type = root
  valid_toElement : ∀ message, (toElement message).Valid
  ofElement_toElement : ∀ message, ofElement (toElement message) = canon message
  ofElement_alike : ∀ {e e' : Element}, Alike e e' → ofElement e' = ofElement e

instance : Message Request where
  root := .request
  toElement := Request.toElement
  ofElement := Request.ofElement
  canon := Request.canon
  type_toElement _ := rfl
  valid_toElement := Request.valid_toElement
  ofElement_toElement := Request.ofElement_toElement
  ofElement_alike := Request.ofElement_alike

instance : Message Response where
  root := .response
  toElement := Response.toElement
  ofElement := Response.ofElement
  canon := Response.canon
  type_toElement _ := rfl
  valid_toElement := Response.valid_toElement
  ofElement_toElement := Response.ofElement_toElement
  ofElement_alike := Response.ofElement_alike

namespace Message

variable {μ : Type} [Message μ]

/-- The text of a message. -/
def encode (message : μ) : String :=
  (toElement message).render

/-- Decode a message. -/
def decode (μ : Type) [Message μ] (bytes : ByteArray) : Except DecodeError μ :=
  (Element.decode (root μ) bytes).map ofElement

/-- What is written for a message has its text after a header. -/
theorem exists_header {message : μ} {text : String}
    (h : text = encode message ∨ text = documentHeader ++ encode message) :
    ∃ header, IsHeader header ∧ text = header ++ encode message := by
  rcases h with rfl | rfl
  · exact ⟨"", .inl rfl, by simp⟩
  · exact ⟨documentHeader, .inr rfl, rfl⟩

theorem decode_tooLarge {bytes : ByteArray} (h : maxDocumentSize < bytes.size) :
    decode μ bytes = .error .tooLarge := by
  rw [decode, Element.decode, if_pos h]
  rfl

variable {element : Element} {node : Node} {header text : String}

/-- A document that describes an element decodes to the message in it. -/
theorem decode_of_describes (hroot : element.type = root μ) (h : Describes node element)
    (calm : node.Calm) (lead : node.lead = {})
    (name : Markup.localName node.name = element.type.tag.toList) (hheader : IsHeader header)
    (htext : text.toList = header.toList ++ node.write)
    (hsize : text.toUTF8.size ≤ maxDocumentSize) :
    decode μ text.toUTF8 = .ok (ofElement element) := by
  obtain ⟨found, hdecode, halike⟩ := Element.decode_document h calm lead name hheader htext hsize
  rw [hroot] at hdecode
  rw [decode, hdecode, Except.map, ofElement_alike halike]

/-- A document whose root describes no element of a message of its name is refused. -/
theorem decode_refused (h : ∀ element, Describes node element → element.type ≠ root μ)
    (calm : node.Calm) (lead : node.lead = {})
    (name : Markup.localName node.name = (root μ).tag.toList) (hheader : IsHeader header)
    (htext : text.toList = header.toList ++ node.write)
    (hsize : text.toUTF8.size ≤ maxDocumentSize) :
    ∃ error, decode μ text.toUTF8 = .error (.schema error) := by
  obtain ⟨error, hdecode⟩ := Element.decode_refused h calm name lead hheader htext hsize
  exact ⟨error, by rw [decode, hdecode, Except.map]⟩

/-- Every spelling of a valid element decodes to the message in the element. -/
theorem decode_of_spelled (hroot : element.type = root μ) (valid : element.Valid)
    (h : Spelled element node) (hheader : IsHeader header)
    (htext : text.toList = header.toList ++ node.write)
    (hsize : text.toUTF8.size ≤ maxDocumentSize) :
    decode μ text.toUTF8 = .ok (ofElement element) := by
  apply decode_of_describes hroot (h.describes node element valid) (h.calm node element valid)
    h.lead_eq ?_ hheader htext hsize
  rw [h.name_eq]
  exact element.type.plainName_tag.localName_eq

theorem decode_render (hroot : element.type = root μ) (valid : element.Valid)
    (hheader : IsHeader header)
    (hsize : (header ++ element.render).toUTF8.size ≤ maxDocumentSize) :
    decode μ (header ++ element.render).toUTF8 = .ok (ofElement element) := by
  apply decode_of_spelled hroot valid (Element.spelled_layout valid) hheader ?_ hsize
  rw [String.toList_append, Element.toList_render valid]

/-- Every spelling of a message decodes to the message. -/
theorem decode_spelling {message : μ} (h : Spelled (toElement message) node)
    (hheader : IsHeader header) (htext : text.toList = header.toList ++ node.write)
    (hsize : text.toUTF8.size ≤ maxDocumentSize) :
    decode μ text.toUTF8 = .ok (canon message) := by
  rw [← ofElement_toElement]
  exact decode_of_spelled (type_toElement message) (valid_toElement message) h hheader htext hsize

/-- What is written for a message decodes to the message. -/
theorem decode_header_encode (message : μ) (hheader : IsHeader header)
    (hsize : (header ++ encode message).toUTF8.size ≤ maxDocumentSize) :
    decode μ (header ++ encode message).toUTF8 = .ok (canon message) := by
  rw [← ofElement_toElement]
  exact decode_render (type_toElement message) (valid_toElement message) hheader hsize

end Message

end UpdateProtocol

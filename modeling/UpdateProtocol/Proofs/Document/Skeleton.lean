import UpdateProtocol.Document
import UpdateProtocol.Proofs.Message.Shape
import UpdateProtocol.Proofs.Message.Valid

/-!
# No value is markup

What a message is written as is settled by its shape, but for what stands between double quotes.
The texts of its fields stand only there, and nothing in them ends the quotes or is markup
(`skeleton_encode`).  This holds of the text itself, whoever reads it.
-/

namespace UpdateProtocol

theorem Request.splits_encode (request : Request) :
    Splits request.encode.toList request.shape.outline.write := by
  rw [← request.outline_toElement]
  exact Element.splits_render request.valid_toElement

theorem Response.splits_encode (response : Response) :
    Splits response.encode.toList response.shape.outline.write := by
  rw [← response.outline_toElement]
  exact Element.splits_render response.valid_toElement

/-- Without what double quotes enclose the text of a message is the outline of its shape, and what
they enclose is harmless.  So messages of one shape have one skeleton. -/
theorem skeleton_encode :
    (∀ request : Request, skeleton request.encode.toList = request.shape.outline.write ∧
      ∀ value ∈ quotedValues request.encode.toList, Harmless value) ∧
    (∀ response : Response, skeleton response.encode.toList = response.shape.outline.write ∧
      ∀ value ∈ quotedValues response.encode.toList, Harmless value) ∧
    (∀ request request' : Request, request.shape = request'.shape →
      skeleton request.encode.toList = skeleton request'.encode.toList) ∧
    (∀ response response' : Response, response.shape = response'.shape →
      skeleton response.encode.toList = skeleton response'.encode.toList) := by
  refine ⟨fun request => ⟨request.splits_encode.skeleton_eq, request.splits_encode.harmless⟩,
    fun response => ⟨response.splits_encode.skeleton_eq, response.splits_encode.harmless⟩,
    fun request request' h => ?_, fun response response' h => ?_⟩
  · rw [request.splits_encode.skeleton_eq, h, request'.splits_encode.skeleton_eq]
  · rw [response.splits_encode.skeleton_eq, h, response'.splits_encode.skeleton_eq]

/-- A request with markup in its values. -/
def markupRequest : Request where
  protocol := "\"/></request>"
  apps := [{ id := "&lt;!--", updateCheck := some { urls := some {} } }]

/-- It is written like one of the same shape with other values. -/
theorem skeleton_markupRequest :
    skeleton markupRequest.encode.toList =
      skeleton (Request.encode
        { apps := [{ id := "a", updateCheck := some { urls := none } }] }).toList :=
  skeleton_encode.2.2.1 _ _ (by decide)

end UpdateProtocol

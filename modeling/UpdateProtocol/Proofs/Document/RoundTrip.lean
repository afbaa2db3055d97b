import UpdateProtocol.Proofs.Message.Wire

/-!
# Round trip

Whatever the fields of a message are, its encoding and its complete document decode to the canonical
form of the message, unless they are larger than a document may be (`decode_encode`).
-/

namespace UpdateProtocol

/-- The outcome of decoding a text that was written for a message. -/
theorem Message.decode_written {μ : Type} [Message μ] (message : μ) {text : String}
    (h : text = encode message ∨ text = documentHeader ++ encode message) :
    decode μ text.toUTF8 =
      if maxDocumentSize < text.toUTF8.size then .error .tooLarge else .ok (canon message) := by
  obtain ⟨header, hheader, rfl⟩ := exists_header h
  split_ifs with hsize
  · exact decode_tooLarge hsize
  · exact decode_header_encode message hheader (Nat.not_lt.1 hsize)

/-- A message that is written and read again is the same up to its canonical form, or it is too
large: the encodings and the complete documents of all requests and all responses. -/
theorem decode_encode :
    (∀ (request : Request), ∀ text ∈ [request.encode, request.document],
      Request.decode text.toUTF8 =
        if maxDocumentSize < text.toUTF8.size then .error .tooLarge else .ok request.canon) ∧
    (∀ (response : Response), ∀ text ∈ [response.encode, response.document],
      Response.decode text.toUTF8 =
        if maxDocumentSize < text.toUTF8.size then .error .tooLarge else .ok response.canon) :=
  ⟨fun request _ htext => Message.decode_written request (List.mem_pair.1 htext),
    fun response _ htext => Message.decode_written response (List.mem_pair.1 htext)⟩

end UpdateProtocol

import UpdateProtocol.Proofs.Element.Layout
import UpdateProtocol.Proofs.Markup.Enclosure
import UpdateProtocol.Proofs.Markup.Prolog
import UpdateProtocol.Proofs.Message.Wire

/-!
# The root decides

The faults of a document have an order: its size, then its bytes, then what stands before and in the
first start tag.  When this tag is complete its name decides whether the document can be a message
at all, whatever follows (`RootGate`).  So no document is both a request and a response
(`decode_gated`).
-/

namespace UpdateProtocol

open Markup (Filler Prolog TagLayout Tokens)

/-- What a decoder of messages in elements of a type makes of a document before it reads the root.

A text whose root has been found holds the complete start tag of its first element, and there is no
fault before it (`Tokens.root`, `Tokens.root_opening`). -/
structure RootGate {μ : Type} (type : ElementType)
    (decode : ByteArray → Except DecodeError μ) : Prop where
  tooLarge : ∀ bytes : ByteArray,
    decode bytes = .error .tooLarge ↔ maxDocumentSize < bytes.size
  notText : ∀ bytes : ByteArray, bytes.size ≤ maxDocumentSize →
    ((∃ error, decode bytes = .error (.notText error)) ↔ ¬ bytes.IsValidUTF8)
  otherRoot : ∀ (text rest : String) (tag : Markup.Tag),
    (Tokens.ofText text.toList).root = .ok (some tag) →
    (text ++ rest).toUTF8.size ≤ maxDocumentSize → Markup.localName tag.name ≠ type.tag.toList →
      decode (text ++ rest).toUTF8 = .error (.unexpectedRoot type (Markup.localName tag.name))
  sameRoot : ∀ (text rest : String) (tag : Markup.Tag),
    (Tokens.ofText text.toList).root = .ok (some tag) →
    (text ++ rest).toUTF8.size ≤ maxDocumentSize → Markup.localName tag.name = type.tag.toList →
      (∃ message, decode (text ++ rest).toUTF8 = .ok message) ∨
        ∃ error, decode (text ++ rest).toUTF8 = .error (.schema error)
  noRoot : ∀ text : String, text.toUTF8.size ≤ maxDocumentSize →
    (∀ tag, (Tokens.ofText text.toList).root ≠ .ok (some tag)) →
      decode text.toUTF8 = .error .empty ∨ ∃ error, decode text.toUTF8 = .error (.malformed error)

namespace Element

variable {type : ElementType} {bytes : ByteArray}

/-- Tokens are refused neither for the size nor for the bytes of their text. -/
theorem error_of_ofTokens {document : Tokens} {error : DecodeError}
    (h : ofTokens type document = .error error) :
    error ≠ .tooLarge ∧ ∀ fault, error ≠ .notText fault := by
  rw [ofTokens] at h
  split at h
  · cases h
    simp
  · cases h
    simp
  · simp only at h
    split at h
    · cases hread : read type document.source with
      | error fault =>
        rw [hread] at h
        cases h
        simp
      | ok element =>
        rw [hread] at h
        cases h
    · cases h
      simp

/-- A text whose root has been found is decoded by the name of the root, however it goes on. -/
theorem decode_append_root {text rest : String} {tag : Markup.Tag}
    (hroot : (Tokens.ofText text.toList).root = .ok (some tag))
    (hsize : (text ++ rest).toUTF8.size ≤ maxDocumentSize) :
    decode type (text ++ rest).toUTF8 =
      if Markup.localName tag.name = type.tag.toList then
        (read type (Tokens.ofText (text ++ rest).toList).source).mapError .schema
      else .error (.unexpectedRoot type (Markup.localName tag.name)) := by
  have hlonger := Tokens.root_append hroot rest.toList
  rw [← String.toList_append] at hlonger
  rw [decode_toUTF8 hsize, ofTokens, hlonger]
  simp only [beq_iff_eq]

theorem rootGate (type : ElementType) : RootGate type (decode type) where
  tooLarge bytes := by
    refine ⟨fun h => ?_, fun h => by rw [decode, if_pos h]⟩
    by_contra hsize
    rw [decode, if_neg hsize] at h
    split at h
    · cases h
    · exact (error_of_ofTokens h).1 rfl
  notText bytes hsize := by
    rw [decode, if_neg (Nat.not_lt.2 hsize), Text.Utf8.decode, String.fromUTF8?]
    by_cases hvalid : bytes.IsValidUTF8
    · rw [dif_pos hvalid]
      refine ⟨?_, fun h => absurd hvalid h⟩
      rintro ⟨error, h⟩
      exact absurd rfl ((error_of_ofTokens h).2 error)
    · rw [dif_neg hvalid]
      exact ⟨fun _ => hvalid, fun _ => ⟨_, rfl⟩⟩
  otherRoot text rest tag hroot hsize hname := by
    rw [decode_append_root hroot hsize, if_neg hname]
  sameRoot text rest tag hroot hsize hname := by
    rw [decode_append_root hroot hsize, if_pos hname]
    cases read type (Tokens.ofText (text ++ rest).toList).source with
    | error error => exact .inr ⟨error, rfl⟩
    | ok element => exact .inl ⟨element, rfl⟩
  noRoot text hsize hroot := by
    rw [decode_toUTF8 hsize, ofTokens]
    cases hresult : (Tokens.ofText text.toList).root with
    | error error => exact .inr ⟨error, rfl⟩
    | ok found =>
      cases found with
      | none => exact .inl rfl
      | some tag => exact absurd hresult (hroot tag)

end Element

theorem map_eq_error_iff {ε α β : Type} {x : Except ε α} {f : α → β} {error : ε} :
    x.map f = .error error ↔ x = .error error := by
  cases x <;> simp [Except.map]

namespace RootGate

variable {μ ν : Type} {type other : ElementType} {decode : ByteArray → Except DecodeError μ}

/-- What is made of the element does not matter. -/
theorem map (h : RootGate type decode) (f : μ → ν) :
    RootGate type (fun bytes => (decode bytes).map f) where
  tooLarge bytes := map_eq_error_iff.trans (h.tooLarge bytes)
  notText bytes hsize := by
    simp only [map_eq_error_iff]
    exact h.notText bytes hsize
  otherRoot text rest tag hroot hsize hname :=
    map_eq_error_iff.2 (h.otherRoot text rest tag hroot hsize hname)
  sameRoot text rest tag hroot hsize hname := by
    simp only [map_eq_error_iff]
    refine (h.sameRoot text rest tag hroot hsize hname).imp_left fun hmessage => ?_
    obtain ⟨message, hmessage⟩ := hmessage
    exact ⟨f message, by rw [hmessage, Except.map]⟩
  noRoot text hsize hroot := by
    simp only [map_eq_error_iff]
    exact h.noRoot text hsize hroot

/-- A document that is accepted is a text with a root of the expected name. -/
theorem exists_root (h : RootGate type decode) {bytes : ByteArray} {message : μ}
    (hdecode : decode bytes = .ok message) :
    ∃ text : String, bytes = text.toUTF8 ∧ ∃ tag,
      (Tokens.ofText text.toList).root = .ok (some tag) ∧
        Markup.localName tag.name = type.tag.toList := by
  have hsize : bytes.size ≤ maxDocumentSize := by
    by_contra hsize
    rw [(h.tooLarge bytes).2 (Nat.not_le.1 hsize)] at hdecode
    cases hdecode
  have hvalid : bytes.IsValidUTF8 := by
    by_contra hvalid
    obtain ⟨error, herror⟩ := (h.notText bytes hsize).2 hvalid
    rw [herror] at hdecode
    cases hdecode
  obtain ⟨text, rfl⟩ : ∃ text : String, bytes = text.toUTF8 := ⟨.ofByteArray bytes hvalid, rfl⟩
  obtain ⟨tag, hroot⟩ : ∃ tag, (Tokens.ofText text.toList).root = .ok (some tag) := by
    by_contra hroot
    rcases h.noRoot text hsize (not_exists.1 hroot) with herror | ⟨error, herror⟩
    · rw [herror] at hdecode
      cases hdecode
    · rw [herror] at hdecode
      cases hdecode
  refine ⟨text, rfl, tag, hroot, ?_⟩
  by_contra hname
  have herror := h.otherRoot text "" tag hroot (by rwa [String.append_empty]) hname
  rw [String.append_empty, hdecode] at herror
  cases herror

/-- Decoders for different roots accept no document in common. -/
theorem not_both {decode' : ByteArray → Except DecodeError ν} (h : RootGate type decode)
    (h' : RootGate other decode') (hne : type.tag ≠ other.tag) {bytes : ByteArray} {message : μ}
    (hdecode : decode bytes = .ok message) (message' : ν) : decode' bytes ≠ .ok message' := by
  intro hdecode'
  obtain ⟨text, rfl, tag, hroot, hname⟩ := h.exists_root hdecode
  obtain ⟨text', htext, tag', hroot', hname'⟩ := h'.exists_root hdecode'
  rw [← String.toByteArray_inj.1 htext, hroot] at hroot'
  cases hroot'
  exact hne (String.toList_inj.1 (hname.symm.trans hname'))

end RootGate

namespace Message

variable {μ ν : Type} [Message μ] [Message ν]

theorem rootGate (μ : Type) [Message μ] : RootGate (root μ) (decode μ) :=
  (Element.rootGate (root μ)).map ofElement

/-- A document whose root has the name of a message is refused by the decoder of the other kind for
this name. -/
theorem decode_other_root (hne : (root ν).tag ≠ (root μ).tag) {node : Markup.Node}
    (lead : node.lead = {}) (name : Markup.localName node.name = (root μ).tag.toList)
    {header text : String} (hheader : IsHeader header)
    (htext : text.toList = header.toList ++ node.write)
    (hsize : text.toUTF8.size ≤ maxDocumentSize) :
    decode ν text.toUTF8 = .error (.unexpectedRoot (root ν) (root μ).tag.toList) := by
  obtain ⟨gap, hgap, -, hnode⟩ := Markup.Node.exists_write_header lead hheader
  have hroot := Tokens.root_tokens (node.withLead gap)
  rw [← Tokens.ofText_write _ (by rwa [Markup.Node.lead_withLead]), ← hnode, ← htext,
    Markup.Node.tag_withLead] at hroot
  rw [← node.name_tag] at name
  have hdecode := (rootGate ν).otherRoot text "" _ hroot (by rwa [String.append_empty])
    (by rw [name]; exact fun e => hne (String.toList_inj.1 e).symm)
  rwa [String.append_empty, name] at hdecode

/-- What is written for a message is refused by the decoder of the other kind for its root. -/
theorem decode_other (message : μ) (hne : (root ν).tag ≠ (root μ).tag) {text : String}
    (h : text = encode message ∨ text = documentHeader ++ encode message)
    (hsize : text.toUTF8.size ≤ maxDocumentSize) :
    decode ν text.toUTF8 = .error (.unexpectedRoot (root ν) (root μ).tag.toList) := by
  obtain ⟨header, hheader, rfl⟩ := exists_header h
  refine decode_other_root hne (Element.lead_layout (toElement message)) ?_ hheader ?_ hsize
  · rw [Markup.Node.name, Element.tag_layout, ← TagLayout.name_tag, Element.name_tagLayout,
      type_toElement, (root μ).plainName_tag.localName_eq]
  · rw [String.toList_append, encode, Element.toList_render (valid_toElement message)]

end Message

/-- The decoders of requests and of responses look at a document in the same order and differ in the
name of the root, so that no document is accepted by both, and each refuses what is written for a
message of the other kind by naming its root.  After any prolog the root has been found as soon as
its first tag is complete. -/
theorem decode_gated :
    RootGate .request Request.decode ∧ RootGate .response Response.decode ∧
    (∀ bytes request response,
      ¬ (Request.decode bytes = .ok request ∧ Response.decode bytes = .ok response)) ∧
    (∀ request : Request, ∀ text ∈ [request.encode, request.document],
      text.toUTF8.size ≤ maxDocumentSize →
        Response.decode text.toUTF8 = .error (.unexpectedRoot .response "request".toList)) ∧
    (∀ response : Response, ∀ text ∈ [response.encode, response.document],
      text.toUTF8.size ≤ maxDocumentSize →
        Request.decode text.toUTF8 = .error (.unexpectedRoot .request "response".toList)) ∧
    (∀ (prolog : Prolog) (filler : Filler) (tag : TagLayout) (single : Bool),
      (Tokens.ofText (prolog.opening filler tag single)).root = .ok (some tag.tag)) :=
  ⟨Message.rootGate Request, Message.rootGate Response,
    fun _ _ response h => (Message.rootGate Request).not_both (Message.rootGate Response)
      (by decide) h.1 response h.2,
    fun request _ htext hsize => Message.decode_other (ν := Response) request (by decide)
      (List.mem_pair.1 htext) hsize,
    fun response _ htext hsize => Message.decode_other (ν := Request) response (by decide)
      (List.mem_pair.1 htext) hsize, Tokens.root_opening⟩

/-- A document is refused for the name of its root although it is cut off after it; one with the
expected root is not, and one that is cut off in its first tag has no root.  A request is no
response. -/
theorem decode_gatedDocuments :
    Response.decode ("<?a?><!DOCTYPE b>\n<c:request d='>'/>" ++ "</").toUTF8 =
        .error (.unexpectedRoot .response "request".toList) ∧
      ((∃ request, Request.decode ("<request>" ++ "<a").toUTF8 = .ok request) ∨
        ∃ error, Request.decode ("<request>" ++ "<a").toUTF8 = .error (.schema error)) ∧
      (Request.decode "<request a='>".toUTF8 = .error .empty ∨
        ∃ error, Request.decode "<request a='>".toUTF8 = .error (.malformed error)) ∧
      Response.decode (Request.encode {}).toUTF8 =
        .error (.unexpectedRoot .response "request".toList) := by
  obtain ⟨hrequest, hresponse, -, hencode, -⟩ := decode_gated
  have hunclosed : (Tokens.ofText "<request a='>".toList).root = .error .unclosedTag := by decide
  exact ⟨hresponse.otherRoot "<?a?><!DOCTYPE b>\n<c:request d='>'/>" "</"
      ⟨"c:request d='>'".toList⟩ (by decide) (by decide) (by decide),
    hrequest.sameRoot "<request>" "<a" ⟨"request".toList⟩ (by decide) (by decide) (by decide),
    hrequest.noRoot "<request a='>" (by decide) (fun tag => by rw [hunclosed]; simp),
    hencode {} _ List.mem_cons_self (by decide)⟩

end UpdateProtocol

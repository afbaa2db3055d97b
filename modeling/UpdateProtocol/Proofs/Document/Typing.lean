import UpdateProtocol.Proofs.Message.Assignment
import UpdateProtocol.Proofs.Message.Wire

/-!
# Documents with another word in a typed attribute

The text between the quotes of a number, a truth value or a code is replaced in the encoding of a
message.  The document is accepted exactly if the new text is a word of the attribute's form; then
it decodes to the message with this one field assigned, and the message is written again as before
but for this attribute (`decode_typed`).
-/

namespace UpdateProtocol

open Element (Agrees attributeLayout rawLayout)

/-- A message is written with each attribute of its element in its place. -/
theorem Message.encode_fill {μ : Type} [Message μ] (message : μ) {slot : Slot}
    {found : List (String × Value)} (hslot : toElement message = slot.fill found) :
    (encode message).toList = (slot.layout (found.map attributeLayout)).write := by
  rw [encode, Element.toList_render (valid_toElement _), hslot, slot.layout_fill]

section Typed

variable {slot : Slot} {name word header text : String} {form : Form} {old : Value}
  (unquoted : form = .size → '"' ∉ word.toList) (typed : (name, form) ∈ slot.owner.typed)
  (hheader : IsHeader header)
  (htext : text.toList = header.toList ++
    (slot.layout [rawLayout name (form.raw word) (Form.quote_not_mem_raw unquoted)]).write)
  (hsize : text.toUTF8.size ≤ maxDocumentSize)

include typed hheader htext hsize

namespace Message

variable {μ : Type} [Message μ] {message : μ} (hslot : toElement message = slot.fill [(name, old)])

include hslot

/-- A word of the form assigns its value. -/
theorem decode_word {assign : μ → Place → Value → μ} (assigns : Assigns toElement assign)
    (agrees : ∀ {e e' : Element}, Agrees e e' → (ofElement e' : μ) = ofElement e)
    (canonical : ∀ value, canon (assign message (slot.place name) value) =
      assign message (slot.place name) value) {value : Value} (means : form.Means word value) :
    decode μ text.toUTF8 = .ok (assign message (slot.place name) value) ∧
      (encode (assign message (slot.place name) value)).toList =
        (slot.layout ((rewritten name value).map attributeLayout)).write := by
  have valid : (slot.fill [(name, old)]).Valid := hslot ▸ valid_toElement message
  have htype : slot.type = root μ := by
    rw [← slot.type_fill [(name, old)], ← hslot, type_toElement]
  have hassign := assigns hslot typed means.admits
  have hread : (ofElement (slot.fill [(name, value)]) : μ) =
      ofElement (slot.fill (rewritten name value)) := by
    rw [rewritten]
    split_ifs with h
    · obtain ⟨rfl, rfl⟩ := h
      exact (agrees (Slot.agrees_fill (Slot.valid_fill typed valid means.admits))).symm
    · rfl
  constructor
  · rw [decode_of_describes (by rw [slot.type_fill, htype])
      (Slot.describes_layout _ typed valid means.admits (Form.readAttribute_raw.2 means))
      (Slot.calm_layout _ typed valid) (slot.lead_layout _) ?_ hheader htext hsize, hread, ← hassign,
      ofElement_toElement, canonical]
    rw [slot.name_layout, slot.type_fill]
    exact slot.type.plainName_tag.localName_eq
  · exact encode_fill _ hassign

/-- Any other text is refused. -/
theorem decode_no_word (refused : ∀ value, ¬ form.Means word value) :
    ∃ error, decode μ text.toUTF8 = .error (.schema error) := by
  have valid : (slot.fill [(name, old)]).Valid := hslot ▸ valid_toElement message
  have htype : slot.type = root μ := by
    rw [← slot.type_fill [(name, old)], ← hslot, type_toElement]
  refine decode_refused ?_ (Slot.calm_layout _ typed valid) (slot.lead_layout _) ?_ hheader htext
    hsize
  · rw [← htype]
    exact Slot.not_describes_layout _ typed valid fun value h =>
      refused value (Form.readAttribute_raw.1 h)
  · rw [slot.name_layout, ← htype]
    exact slot.type.plainName_tag.localName_eq

end Message

/-- The text between the quotes of a typed attribute is replaced in the encoding of a canonical
message.  A word of the attribute's form assigns its value to the field, and what is written for the
message afterwards differs from its encoding in this attribute only; any other text is refused. -/
theorem decode_typed :
    (∀ request : Request, request.canon = request →
      request.toElement = slot.fill [(name, old)] →
        request.encode.toList = (slot.layout [attributeLayout (name, old)]).write ∧
        (∀ value, form.Means word value →
          Request.decode text.toUTF8 = .ok (request.assign (slot.place name) value) ∧
          (request.assign (slot.place name) value).encode.toList =
            (slot.layout ((rewritten name value).map attributeLayout)).write) ∧
        ((∀ value, ¬ form.Means word value) →
          ∃ error, Request.decode text.toUTF8 = .error (.schema error))) ∧
    (∀ response : Response, response.canon = response →
      response.toElement = slot.fill [(name, old)] →
        response.encode.toList = (slot.layout [attributeLayout (name, old)]).write ∧
        (∀ value, form.Means word value →
          Response.decode text.toUTF8 = .ok (response.assign (slot.place name) value) ∧
          (response.assign (slot.place name) value).encode.toList =
            (slot.layout ((rewritten name value).map attributeLayout)).write) ∧
        ((∀ value, ¬ form.Means word value) →
          ∃ error, Response.decode text.toUTF8 = .error (.schema error))) := by
  refine ⟨fun request canonical hslot =>
      ⟨Message.encode_fill request hslot, fun value means => ?_, fun refused => ?_⟩,
    fun response canonical hslot =>
      ⟨Message.encode_fill response hslot, fun value means => ?_, fun refused => ?_⟩⟩
  · refine Message.decode_word unquoted typed hheader htext hsize hslot Request.assigns
      Request.ofElement_agrees (fun value => ?_) means
    exact (request.canon_assign _ value).trans (congrArg (Request.assign · _ value) canonical)
  · exact Message.decode_no_word unquoted typed hheader htext hsize hslot refused
  · refine Message.decode_word unquoted typed hheader htext hsize hslot Response.assigns
      Response.ofElement_agrees (fun value => ?_) means
    exact (response.canon_assign _ value).trans (congrArg (Response.assign · _ value) canonical)
  · exact Message.decode_no_word unquoted typed hheader htext hsize hslot refused

end Typed

/-! ### A request with a size -/

/-- A request about one package. -/
def measuredRequest (bytes : UInt64) : Request :=
  { apps := [{ updateCheck := some { manifest := some { packages := [{ size := bytes }] } } }] }

/-- The place of the size of the package. -/
def measuredSlot : Slot :=
  .inside .request [("protocol", .text "")] []
    (.inside .app [] []
      (.inside .updateCheck [] []
        (.inside .manifest [("version", .text "")] []
          (.inside .packages [] []
            (.here .package [("hash", .text ""), ("name", .text "")] [("required", .flag false)] [])
            [])
          [.mk .actions [] []])
        [])
      [])
    []

/-- The encoding of the request with a word for the size. -/
def measuredText (word : String) : String :=
  .join ["<request protocol=\"\"><app><updatecheck><manifest version=\"\"><packages>",
    "<package hash=\"\" name=\"\" size=\"", word, "\" required=\"0\"/>",
    "</packages><actions/></manifest></updatecheck></app></request>"]

set_option maxRecDepth 2000 in
/-- A size with a sign and zeros is read, the first number that does not fit is refused. -/
theorem decode_measuredText :
    Request.decode (measuredText "+0042").toUTF8 = .ok (measuredRequest 42) ∧
      ∃ error, Request.decode (measuredText "18446744073709551616").toUTF8 =
        .error (.schema error) := by
  have typed : ("size", Form.size) ∈ measuredSlot.owner.typed := by decide
  have hslot : (measuredRequest 7).toElement = measuredSlot.fill [("size", .size 7)] := rfl
  have hmeasured : (measuredText "+0042").toList = "".toList ++ (measuredSlot.layout
      [rawLayout "size" (Form.raw .size "+0042") (by decide)]).write := by
    rw [measuredText, String.toList_join]
    rfl
  have hoverflown : (measuredText "18446744073709551616").toList = "".toList ++
      (measuredSlot.layout
        [rawLayout "size" (Form.raw .size "18446744073709551616") (by decide)]).write := by
    rw [measuredText, String.toList_join]
    rfl
  constructor
  · have hmeans : Form.Means .size "+0042" (.size 42) := Form.means_size_iff.2 (by decide)
    exact (((decode_typed (by decide) typed (.inl rfl) hmeasured (by decide)).1
      (measuredRequest 7) rfl hslot).2.1 _ hmeans).1
  · refine ((decode_typed (by decide) typed (.inl rfl) hoverflown (by decide)).1
      (measuredRequest 7) rfl hslot).2.2 fun value means => ?_
    have hread : Value.readSize "18446744073709551616".toList = none := by decide
    cases value <;> cases means.admits
    rw [Form.means_size_iff.1 means] at hread
    cases hread

end UpdateProtocol

import UpdateProtocol.Proofs.Document.Size
import UpdateProtocol.Proofs.Element.Interruption
import UpdateProtocol.Proofs.Message.Wire

/-!
# Documents with character data

Between two tags of the encoding of a message stands character data.  The document is refused if a
member of a list stands before it in the same element, and otherwise it decodes to the message
(`decode_interrupted`): it never decodes to another one.
-/

namespace UpdateProtocol

open Element (Interrupted)

variable {stray : StrayText} {late : Bool} {chars : List Char} {header text : String}

namespace Message

variable {μ : Type} [Message μ] {message : μ}

/-- The encoding is not larger than it is with character data in it. -/
theorem size_interrupted (h : Interrupted stray (toElement message) late chars)
    (htext : text.toList = header.toList ++ chars) :
    (header ++ encode message).toUTF8.size ≤ text.toUTF8.size := by
  obtain ⟨first, rest, hlayout, rfl⟩ := h.exists_write
  apply size_le_of_sublist
  rw [htext, String.toList_append, encode, Element.toList_render (valid_toElement message), hlayout]
  refine (List.Sublist.refl _).append ?_
  exact (List.sublist_append_left first stray.chars).append_right rest

/-- Character data in the encoding of a message is a fault after a member of a list and does not
matter elsewhere. -/
theorem decode_of_interrupted (h : Interrupted stray (toElement message) late chars)
    (hheader : IsHeader header) (htext : text.toList = header.toList ++ chars)
    (hsize : text.toUTF8.size ≤ maxDocumentSize) :
    decode μ (header ++ encode message).toUTF8 = .ok (canon message) ∧
      if late then ∃ error, decode μ text.toUTF8 = .error (.schema error)
      else decode μ text.toUTF8 = .ok (canon message) := by
  refine ⟨decode_header_encode message hheader (Nat.le_trans (size_interrupted h htext) hsize), ?_⟩
  have valid := valid_toElement message
  obtain ⟨node, hnode⟩ := h.exists_node valid
  have hroot : Markup.localName node.name = (toElement message).type.tag.toList := by
    rw [hnode.name_eq]
    exact (toElement message).type.plainName_tag.localName_eq
  rw [hnode.write_eq] at htext
  split_ifs with hlate
  · have hrefused := hnode.refused hlate
    rw [type_toElement] at hrefused hroot
    exact decode_refused hrefused hnode.calm hnode.lead_eq hroot hheader htext hsize
  · have describe := hnode.describes (Bool.not_eq_true _ ▸ hlate) _ rfl
      ((Element.spelled_layout valid).describes _ _ valid)
    rw [← ofElement_toElement]
    exact decode_of_describes (type_toElement message) describe hnode.calm hnode.lead_eq hroot
      hheader htext hsize

end Message

/-- Character data between two tags of an encoding never changes the message: the document is
refused if the data stands after a member of the list of its parent, and decodes to the same message
as without it otherwise. -/
theorem decode_interrupted (hheader : IsHeader header)
    (htext : text.toList = header.toList ++ chars) (hsize : text.toUTF8.size ≤ maxDocumentSize) :
    (∀ request : Request, Interrupted stray request.toElement late chars →
      Request.decode (header ++ request.encode).toUTF8 = .ok request.canon ∧
        if late then ∃ error, Request.decode text.toUTF8 = .error (.schema error)
        else Request.decode text.toUTF8 = .ok request.canon) ∧
    (∀ response : Response, Interrupted stray response.toElement late chars →
      Response.decode (header ++ response.encode).toUTF8 = .ok response.canon ∧
        if late then ∃ error, Response.decode text.toUTF8 = .error (.schema error)
        else Response.decode text.toUTF8 = .ok response.canon) :=
  ⟨fun _ h => Message.decode_of_interrupted (μ := Request) h hheader htext hsize,
    fun _ h => Message.decode_of_interrupted (μ := Response) h hheader htext hsize⟩

/-- A request about one application that sends a ping and an event. -/
def pingingRequest : Request where
  apps := [{ id := "a", ping := some {}, events := [{}] }]

/-- Two brackets and an angle bracket after a blank. -/
def closingText : StrayText where
  chars := " ]]>".toList
  noMarkup := by decide
  noReference := by decide
  visible := by decide

set_option maxRecDepth 2000 in
/-- Before the event of the application the text does not matter, though the application itself is
a member of a list; after the application it does. -/
theorem decode_pingingRequest :
    Request.decode ("<request protocol=\"\"><app appid=\"a\"><ping/> ]]>" ++
        "<event eventtype=\"0\" eventresult=\"0\"/></app></request>").toUTF8 =
      .ok pingingRequest.canon ∧
    ∃ error, Request.decode ("<request protocol=\"\"><app appid=\"a\"><ping/>" ++
        "<event eventtype=\"0\" eventresult=\"0\"/></app> ]]></request>").toUTF8 =
      .error (.schema error) := by
  have hping := @Interrupted.inside closingText .request [("protocol", .text "")] _ [] [] _ _
    (@Interrupted.here closingText .app [("appid", .text "a")] [Ping.toElement {}]
      [Event.toElement {}] (by simp))
  have hend := @Interrupted.here closingText .request [("protocol", .text "")]
    [App.toElement { id := "a", ping := some {}, events := [{}] }] [] (by simp)
  refine ⟨((decode_interrupted (.inl rfl) ?_ (by decide)).1 pingingRequest hping).2,
    ((decode_interrupted (.inl rfl) ?_ (by decide)).1 pingingRequest hend).2⟩
  · simp only [String.toList_append]
    rfl
  · simp only [String.toList_append]
    rfl

end UpdateProtocol

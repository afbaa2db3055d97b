import UpdateProtocol.Document
import UpdateProtocol.Proofs.Element.Reading

/-!
# Decoding a layout

A document whose text is that of a node, after the header or without it, decodes to the element that
the node describes, if it is not too large (`Element.decode_document`).
-/

namespace UpdateProtocol

open Markup (Gap Node Piece Source Token Tokens)

/-! ### Headers -/

/-- What may stand before the root of a document as it is written: nothing, or the declaration. -/
def IsHeader (header : String) : Prop :=
  header = "" ∨ header = documentHeader

/-- A text that is a line break. -/
def Markup.RawText.lineBreak : Markup.RawText :=
  ⟨['\n'], by simp⟩

/-- The gap that the declaration is. -/
def declarationGap : Gap where
  remarks := [(.instruction "xml version=\"1.0\" encoding=\"UTF-8\"".toList fun h =>
    absurd (h.subset (List.mem_cons_of_mem _ List.mem_cons_self)) (by simp), .lineBreak)]

theorem write_declarationGap : declarationGap.write = documentHeader.toList := by
  simp [declarationGap, Gap.write, Markup.Remark.write, Markup.RawText.lineBreak, documentHeader]

theorem texts_declarationGap : declarationGap.texts = [['\n']] := by
  simp [declarationGap, Gap.texts, Markup.RawText.lineBreak]

/-- The node with another gap before its start tag. -/
def Markup.Node.withLead (lead : Gap) : Node → Node
  | .selfClosed _ tag => .selfClosed lead tag
  | .paired _ tag children trail => .paired lead tag children trail

namespace Markup.Node

variable {node : Node} (lead : Gap)

@[simp] theorem lead_withLead : (node.withLead lead).lead = lead := by cases node <;> rfl

@[simp] theorem tag_withLead : (node.withLead lead).tag = node.tag := by cases node <;> rfl

@[simp] theorem name_withLead : (node.withLead lead).name = node.name := by cases node <;> rfl

@[simp] theorem children_withLead : (node.withLead lead).children = node.children := by
  cases node <;> rfl

@[simp] theorem trail_withLead : (node.withLead lead).trail = node.trail := by cases node <;> rfl

@[simp] theorem content_withLead : (node.withLead lead).content = node.content := by
  cases node <;> rfl

theorem write_withLead (h : node.lead = {}) :
    (node.withLead lead).write = lead.write ++ node.write := by
  cases node <;> (cases h; simp [withLead, write])

/-- A header is a blank gap before the root that begins with markup. -/
theorem exists_write_header (h : node.lead = {}) {header : String} (hheader : IsHeader header) :
    ∃ lead : Gap, lead.text.chars = [] ∧ lead.IsBlank ∧
      header.toList ++ node.write = (node.withLead lead).write := by
  rcases hheader with rfl | rfl
  · exact ⟨{}, rfl, Gap.isBlank_empty, by rw [write_withLead {} h]; rfl⟩
  · refine ⟨declarationGap, rfl, ?_, by rw [write_withLead _ h, write_declarationGap]⟩
    simp [Gap.IsBlank, texts_declarationGap, Text.isBlank]

theorem Calm.withLead (h : node.Calm) (hlead : lead.Calm) : (node.withLead lead).Calm := by
  rw [Calm, pieces_eq, List.forall_mem_cons] at h ⊢
  rw [lead_withLead, tag_withLead, content_withLead]
  refine ⟨Piece.calm_mk hlead fun attr hattr => ?_, h.2⟩
  exact h.1 (.start node.tag.tag) (List.mem_append_right _ List.mem_cons_self) attr hattr

end Markup.Node

theorem Describes.withLead {node : Node} {element : Element} (h : Describes node element)
    (lead : Gap) : Describes (node.withLead lead) element := by
  cases h with
  | intro distinct attributes perm once complete children orderly =>
    exact .intro (by simpa using distinct) (by simpa using attributes) perm once complete
      (by simpa using children) (by simpa using orderly)

/-! ### Elements -/

theorem Text.Utf8.decode_toUTF8 (text : String) : Text.Utf8.decode text.toUTF8 = .ok text := by
  have hvalid : text.toUTF8.IsValidUTF8 := text.isValidUTF8
  rw [Text.Utf8.decode, String.fromUTF8?, dif_pos hvalid]
  rfl

/-- Bytes that are read as a text are the bytes of this text. -/
theorem Text.Utf8.toUTF8_of_decode {bytes : ByteArray} {text : String}
    (h : Text.Utf8.decode bytes = .ok text) : bytes = text.toUTF8 := by
  rw [Text.Utf8.decode, String.fromUTF8?] at h
  by_cases hvalid : bytes.IsValidUTF8
  · rw [dif_pos hvalid] at h
    cases h
    rfl
  · rw [dif_neg hvalid] at h
    cases h

/-- What follows a text in the bytes of a longer one is a text. -/
theorem Text.Utf8.exists_append {text part : String} {more : ByteArray}
    (h : text.toUTF8 = part.toUTF8 ++ more) : ∃ rest, text = part ++ rest ∧ more = rest.toUTF8 := by
  have hpart : text.toUTF8.extract 0 part.toUTF8.size = part.toUTF8 := by
    rw [h]
    exact ByteArray.extract_append_eq_left rfl
  have hsize : part.toUTF8.size ≤ text.toUTF8.size := by
    rw [h, ByteArray.size_append]
    exact Nat.le_add_right _ _
  have hpos : String.Pos.Raw.IsValid text ⟨part.toUTF8.size⟩ := by
    refine String.Pos.Raw.isValid_iff_isValidUTF8_extract_zero.2 ⟨hsize, ?_⟩
    rw [show text.toByteArray.extract 0 part.toUTF8.size = part.toUTF8 from hpart]
    exact part.isValidUTF8
  obtain ⟨first, rest, rfl, hfirst⟩ := String.Pos.Raw.isValid_iff_exists_append.1 hpos
  have hbytes : first.toUTF8 ++ rest.toUTF8 = part.toUTF8 ++ more :=
    (String.toByteArray_append).symm.trans h
  have hfirst : part.toUTF8.size = first.toUTF8.size := congrArg String.Pos.Raw.byteIdx hfirst
  have heq : first = part := by
    apply String.toByteArray_inj.1
    refine Eq.trans ?_ hpart
    rw [hfirst, String.toUTF8, String.toByteArray_append]
    exact (ByteArray.extract_append_eq_left rfl).symm
  subst heq
  exact ⟨rest, rfl, (ByteArray.append_right_inj _).1 hbytes.symm⟩

theorem Markup.Tokens.root_tokens (node : Node) :
    Tokens.root ⟨node.tokens, none⟩ = .ok (some node.tag.tag) := by
  have htexts (texts : List (List Char)) (tokens : List Token) :
      (texts.map Token.text ++ tokens).findSome? Tokens.root.tag? =
        tokens.findSome? Tokens.root.tag? := by
    induction texts with
    | nil => rfl
    | cons raw texts ih => exact ih
  have hfind : node.tokens.findSome? Tokens.root.tag? = some node.tag.tag := by
    rw [Node.tokens, node.pieces_eq, List.flatMap_cons, Piece.tokens, List.append_assoc, htexts]
    rfl
  rw [Tokens.root, hfind]

theorem Markup.Tokens.faces_source {node : Node} (calm : node.Calm) :
    (Tokens.source ⟨node.tokens, none⟩).Faces node.pieces [] [] := by
  refine .unread ⟨rfl, ⟨(List.append_nil _).symm, fun token hmem => ?_, rfl⟩, by simp⟩
  rw [List.append_nil] at hmem
  obtain ⟨piece, hpiece, htoken⟩ := List.mem_flatMap.1 hmem
  exact calm piece hpiece token htoken

namespace Element

variable {type : ElementType} {element : Element}

theorem ofTokens_eq_ok_iff {document : Tokens} :
    ofTokens type document = .ok element ↔
      (∃ tag, document.root = .ok (some tag) ∧
        Markup.localName tag.name = type.tag.toList) ∧ read type document.source = .ok element := by
  rw [ofTokens]
  rcases document.root with _ | _ | tag
  · simp
  · simp
  · by_cases hname : Markup.localName tag.name = type.tag.toList
    · cases hread : read type document.source <;> simp [hname, Except.mapError]
    · simp [hname]

/-- A document whose root has the expected name is read or refused for what it says. -/
theorem exists_schema_of_read {document : Tokens} {tag : Markup.Tag}
    (hroot : document.root = .ok (some tag)) (hname : Markup.localName tag.name = type.tag.toList)
    (h : ∀ element, read type document.source ≠ .ok element) :
    ∃ error, ofTokens type document = .error (.schema error) := by
  rw [ofTokens, hroot]
  simp only [hname, beq_self_eq_true, if_true]
  cases hresult : read type document.source with
  | error error => exact ⟨error, rfl⟩
  | ok element => exact absurd hresult (h element)

theorem decode_eq_ok_iff {bytes : ByteArray} :
    decode type bytes = .ok element ↔ bytes.size ≤ maxDocumentSize ∧
      ∃ text, Text.Utf8.decode bytes = .ok text ∧
        ofTokens type (Tokens.ofText text.toList) = .ok element := by
  rw [decode]
  by_cases hsize : maxDocumentSize < bytes.size
  · rw [if_pos hsize]
    simp [Nat.not_le.2 hsize]
  · rw [if_neg hsize]
    cases Text.Utf8.decode bytes <;> simp [Nat.not_lt.1 hsize]

theorem decode_toUTF8 {text : String} (hsize : text.toUTF8.size ≤ maxDocumentSize) :
    decode type text.toUTF8 = ofTokens type (Tokens.ofText text.toList) := by
  rw [decode, if_neg (Nat.not_lt.2 hsize), Text.Utf8.decode_toUTF8]

theorem ofTokens_tokens {node : Node} {element : Element} (h : Describes node element)
    (calm : node.Calm) (blank : node.lead.IsBlank)
    (root : Markup.localName node.name = element.type.tag.toList) :
    ∃ element', ofTokens element.type ⟨node.tokens, none⟩ = .ok element' ∧
      Alike element element' := by
  have hsource := Tokens.faces_source calm
  rw [node.pieces_eq] at hsource
  obtain ⟨after, hnext, hafter, -⟩ := hsource.next_mark (.inr ⟨rfl, blank⟩)
  have hsize : Markup.tokenCount node.content ≤ after.size :=
    hafter.tokenCount_le (Source.replay_of_next hnext rfl)
  have hfuel : 2 * Markup.tokenCount node.content < 3 * after.size + 3 := by omega
  obtain ⟨element', last, hread, halike, -⟩ := reads_of_describes node element h hfuel hafter
  refine ⟨element', ?_, halike⟩
  rw [ofTokens, Tokens.root_tokens]
  simp only [node.name_tag, root, beq_self_eq_true, if_true]
  simp only [read, hnext, lift_ok, ok_bind, Markup.Mark.item, hread]
  rfl

/-- The text of a node decodes to what the node describes, unless it is too large. -/
theorem decode_write {node : Node} {element : Element} (h : Describes node element)
    (calm : node.Calm) (lead : node.lead.text.chars = []) (blank : node.lead.IsBlank)
    (root : Markup.localName node.name = element.type.tag.toList) {text : String}
    (htext : text.toList = node.write) (hsize : text.toUTF8.size ≤ maxDocumentSize) :
    ∃ element', decode element.type text.toUTF8 = .ok element' ∧ Alike element element' := by
  rw [decode_toUTF8 hsize, htext, Tokens.ofText_write node lead]
  exact ofTokens_tokens h calm blank root

/-- A header does not matter. -/
theorem decode_document {node : Node} {element : Element} (h : Describes node element)
    (calm : node.Calm) (lead : node.lead = {})
    (root : Markup.localName node.name = element.type.tag.toList) {header text : String}
    (hheader : IsHeader header) (htext : text.toList = header.toList ++ node.write)
    (hsize : text.toUTF8.size ≤ maxDocumentSize) :
    ∃ element', decode element.type text.toUTF8 = .ok element' ∧ Alike element element' := by
  obtain ⟨gap, hgap, hblank, hwrite⟩ := Node.exists_write_header lead hheader
  rw [hwrite] at htext
  exact decode_write (h.withLead gap) (calm.withLead gap hblank.calm) (by rwa [Node.lead_withLead])
    (by rwa [Node.lead_withLead]) (by rwa [Node.name_withLead]) htext hsize

end Element

end UpdateProtocol

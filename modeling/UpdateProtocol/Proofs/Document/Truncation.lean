import UpdateProtocol.Proofs.Element.Enclosure
import UpdateProtocol.Proofs.Message.Wire

/-!
# Truncated documents

Nothing that is read from a document is read before the end tag of its root, and in the text of a
node this tag is found at the last character only.  So no document is left of a message that is cut
off, wherever it is cut, even inside a character (`decode_truncated`).
-/

namespace UpdateProtocol

open Markup (Balanced Lexer Mark Node Piece Token Tokens afterEnd marks nest tokenMarks)

/-! ### Texts of nodes -/

namespace Markup.Node

theorem balanced_piecesAll {nodes : List Node}
    (h : ∀ node ∈ nodes, Balanced (marks node.pieces)) : Balanced (marks (piecesAll nodes)) := by
  induction nodes with
  | nil => exact .nil
  | cons node nodes ih =>
    obtain ⟨hnode, hnodes⟩ := List.forall_mem_cons.1 h
    rw [piecesAll_cons, marks, List.map_append]
    exact hnode.append (ih hnodes)

/-- A node closes all elements that it opens. -/
theorem balanced_pieces (node : Node) : Balanced (marks node.pieces) := by
  induction node using Node.induct with
  | step node ih =>
  intro names
  have hmarks : marks node.pieces =
      .start node.tag.tag :: (marks (piecesAll node.children) ++ [.finish node.name]) := by
    rw [node.pieces_eq, content, marks, List.map_cons, List.map_append, marks]
    rfl
  rw [hmarks, nest_start, (balanced_piecesAll ih).nest_append_eq, node.name_tag]
  exact nest_finish_self node.name names []

theorem tokenMarks_texts (texts : List (List Char)) : tokenMarks (texts.map .text) = [] :=
  List.filterMap_eq_nil_iff.2 fun token hmem => by
    obtain ⟨raw, -, rfl⟩ := List.mem_map.1 hmem
    rfl

theorem tokenMarks_pieces (pieces : List Piece) :
    tokenMarks (pieces.flatMap Piece.tokens) = marks pieces := by
  induction pieces with
  | nil => rfl
  | cons piece pieces ih =>
    obtain ⟨gap, mark⟩ := piece
    rw [List.flatMap_cons, tokenMarks_append, ih, Piece.tokens, tokenMarks_append, tokenMarks_texts]
    cases mark <;> rfl

/-- Before the last character of a node its first element is not closed. -/
theorem foldl_write_init (node : Node) :
    ∃ init, node.write = init ++ ['>'] ∧
      (tokenMarks (init.foldl Lexer.step {}).tokens.reverse = [] ∨
        ∃ tag inner, tokenMarks (init.foldl Lexer.step {}).tokens.reverse = .start tag :: inner ∧
          Balanced inner) := by
  cases node with
  | selfClosed lead tag =>
    refine ⟨lead.write ++ ['<'] ++ tag.write ++ ['/'], by simp [write], .inl ?_⟩
    simp only [List.foldl_append, List.foldl_cons, List.foldl_nil, Lexer.foldl_gap,
      Lexer.foldl_tag]
    simp [Lexer.step, Lexer.stepTag, tokenMarks_texts]
  | paired lead tag children trail =>
    refine ⟨lead.write ++ ['<'] ++ tag.write ++ ['>'] ++ writeAll children ++ trail.write ++
      ['<', '/'] ++ tag.name.chars, by simp [write], .inr ⟨tag.tag, marks (piecesAll children), ?_,
        balanced_piecesAll fun node _ => node.balanced_pieces⟩⟩
    simp only [List.foldl_append, List.foldl_cons, List.foldl_nil, Lexer.foldl_gap,
      Lexer.foldl_start, foldl_writeAll children fun node _ => node.foldl_write,
      Lexer.foldl_endTag]
    simp only [tokensAll, List.append_nil, List.reverse_append, List.reverse_reverse,
      List.reverse_cons, List.append_assoc, List.singleton_append, tokenMarks_append,
      tokenMarks_texts, List.nil_append]
    show .start tag.tag :: tokenMarks (_) = _
    rw [tokenMarks_pieces]

end Markup.Node

/-- A text that begins a longer one without a byte order mark has none itself. -/
theorem Markup.dropMark_of_append {chars rest : List Char}
    (h : dropMark (chars ++ rest) = chars ++ rest) : dropMark chars = chars := by
  unfold dropMark
  split
  · next chars =>
    have hlength := congrArg List.length h
    simp [dropMark] at hlength
  · rfl

/-- In a text that is only the beginning of a node no element is closed that begins the text. -/
theorem Markup.Node.not_closed {node : Node} (lead : node.lead.text.chars = [])
    {chars rest : List Char} (hchars : node.write = chars ++ rest) (hrest : rest ≠ [])
    {tag : Markup.Tag} {inner left : List Mark}
    (h : tokenMarks (Tokens.ofText chars).tokens = .start tag :: inner) :
    afterEnd inner ≠ some left := by
  intro hleft
  obtain ⟨init, hinit, hopen⟩ := node.foldl_write_init
  obtain ⟨more, rfl⟩ : ∃ more, init = chars ++ more := by
    obtain ⟨last, c, rfl⟩ := List.eq_nil_or_concat rest |>.resolve_left hrest
    rw [hinit, List.concat_eq_append, ← List.append_assoc] at hchars
    exact ⟨last, (List.append_inj' hchars rfl).1⟩
  have hmark : dropMark chars = chars := by
    have hwrite : Markup.dropMark (chars ++ rest) = chars ++ rest := by
      rw [← hchars, Markup.dropMark_write node lead]
    exact Markup.dropMark_of_append hwrite
  obtain ⟨others, hothers, -⟩ := Lexer.extends_foldl (chars.foldl Lexer.step {}) more
  rw [Tokens.ofText, hmark, Markup.tokenMarks_finish] at h
  rw [List.foldl_append, hothers, List.reverse_append, Markup.tokenMarks_append, h] at hopen
  rcases hopen with hnone | ⟨tag', marks', hstart, hbalanced⟩
  · cases hnone
  · obtain ⟨-, rfl⟩ := List.cons.inj hstart
    have hend := Markup.leaving_append hleft (tokenMarks others.reverse)
    have hopen := hbalanced.afterEnd_append []
    rw [List.append_nil] at hopen
    exact absurd (hend.symm.trans hopen) (by simp [afterEnd, Markup.leaving])

/-! ### Documents -/

/-- A text that a part of a text's bytes can be read as is a part of the text. -/
theorem Text.Utf8.exists_append_of_extract {text part : String} {n : Nat}
    (hn : n < text.toUTF8.size) (h : Text.Utf8.decode (text.toUTF8.extract 0 n) = .ok part) :
    ∃ rest, text = part ++ rest ∧ rest ≠ "" := by
  have hpart := toUTF8_of_decode h
  have hbytes : text.toUTF8 = part.toUTF8 ++ text.toUTF8.extract n text.toUTF8.size := by
    rw [← hpart, ByteArray.extract_append_extract, Nat.zero_min, Nat.max_eq_right (Nat.le_of_lt hn)]
    exact (ByteArray.extract_zero_size).symm
  obtain ⟨rest, rfl, -⟩ := exists_append hbytes
  refine ⟨rest, rfl, ?_⟩
  rintro rfl
  have hsize := congrArg ByteArray.size hpart
  rw [String.append_empty] at hn hsize
  simp only [ByteArray.size_extract] at hsize
  omega

namespace Message

variable {μ : Type} [Message μ]

/-- What is left of a message that is cut off is refused. -/
theorem decode_extract (message : μ) {text : String}
    (h : text = encode message ∨ text = documentHeader ++ encode message) {n : Nat}
    (hn : n < text.toUTF8.size) : ∃ error, decode μ (text.toUTF8.extract 0 n) = .error error := by
  obtain ⟨header, hheader, rfl⟩ := exists_header h
  cases hdecode : Element.decode (root μ) ((header ++ encode message).toUTF8.extract 0 n) with
  | error error => exact ⟨error, by rw [decode, hdecode]; rfl⟩
  | ok element =>
    exfalso
    obtain ⟨-, part, hpart, hread⟩ := Element.decode_eq_ok_iff.1 hdecode
    obtain ⟨rest, happend, hrest⟩ := Text.Utf8.exists_append_of_extract hn hpart
    obtain ⟨names, hnest⟩ := Tokens.nest_ofText part.toList
    obtain ⟨tag, inner, left, hmarks, hleft⟩ :=
      Element.exists_afterEnd_of_read (Element.ofTokens_eq_ok_iff.1 hread).2 hnest
    obtain ⟨gap, hgap, -, hnode⟩ :=
      Node.exists_write_header (Element.lead_layout (toElement message)) hheader
    rw [← Element.toList_render (valid_toElement message), ← String.toList_append,
      show (toElement message).render = encode message from rfl, happend,
      String.toList_append] at hnode
    exact Node.not_closed (by rw [Node.lead_withLead, hgap]) hnode.symm (by simpa using hrest)
      hmarks hleft

end Message

/-- A message that is cut off at any byte is never accepted, neither its encoding nor its complete
document. -/
theorem decode_truncated :
    (∀ (request : Request), ∀ text ∈ [request.encode, request.document],
      ∀ n < text.toUTF8.size, ∃ error,
        Request.decode (text.toUTF8.extract 0 n) = .error error) ∧
    (∀ (response : Response), ∀ text ∈ [response.encode, response.document],
      ∀ n < text.toUTF8.size, ∃ error,
        Response.decode (text.toUTF8.extract 0 n) = .error error) :=
  ⟨fun request _ htext _ => Message.decode_extract request (List.mem_pair.1 htext),
    fun response _ htext _ => Message.decode_extract response (List.mem_pair.1 htext)⟩

/-- A request with a character of two bytes. -/
def truncatedRequest : Request where
  protocol := "\u00e9"

/-- The request is cut off inside of this character. -/
theorem decode_truncatedRequest :
    20 < truncatedRequest.encode.toUTF8.size ∧
      ∃ error, Request.decode (truncatedRequest.encode.toUTF8.extract 0 20) = .error error := by
  have hsize : 20 < truncatedRequest.encode.toUTF8.size := by decide
  exact ⟨hsize, decode_truncated.1 truncatedRequest _ List.mem_cons_self 20 hsize⟩

end UpdateProtocol

import UpdateProtocol.Proofs.Message.Wire

/-!
# Spelled documents

A message may be written with its attributes in any order, with other blanks and quotes, and with
any of the spellings of a value.  Every such document decodes to the same message
(`decode_spelled`).
-/

namespace UpdateProtocol

open Markup (AttributeLayout Node Numeral Spelling)

variable {node : Node} {header text : String}

/-- How a message is spelled does not matter.  What the writer chooses may be longer than the
spelling at hand, so that it alone is too large. -/
theorem decode_spelled (hheader : IsHeader header)
    (htext : text.toList = header.toList ++ node.write)
    (hsize : text.toUTF8.size ≤ maxDocumentSize) :
    (∀ request : Request, Spelled request.toElement node →
      Request.decode text.toUTF8 = .ok request.canon ∧
        ((header ++ request.encode).toUTF8.size ≤ maxDocumentSize →
          Request.decode (header ++ request.encode).toUTF8 = .ok request.canon)) ∧
    (∀ response : Response, Spelled response.toElement node →
      Response.decode text.toUTF8 = .ok response.canon ∧
        ((header ++ response.encode).toUTF8.size ≤ maxDocumentSize →
          Response.decode (header ++ response.encode).toUTF8 = .ok response.canon)) :=
  ⟨fun request h => ⟨Message.decode_spelling h hheader htext hsize,
      Message.decode_header_encode request hheader⟩,
    fun response h => ⟨Message.decode_spelling h hheader htext hsize,
      Message.decode_header_encode response hheader⟩⟩

/-- A request with two texts in its element. -/
def spelledRequest : Request where
  protocol := "3.0"
  version := "\""

/-- The version of the request, its only character as it is. -/
def spelledVersion : AttributeLayout where
  before := ⟨['\n', '\t'], rfl⟩
  name := .ofString "version"
  beforeEquals := .space
  quote := .single
  value := "\"".toList
  separated := by simp
  unquoted := by decide

/-- The protocol of the request, its first character by number. -/
def spelledProtocol : AttributeLayout where
  before := ⟨[' ', ' '], rfl⟩
  name := .ofString "protocol"
  afterEquals := ⟨['\r'], rfl⟩
  value := "&#x033;.0".toList
  separated := by simp
  unquoted := by decide

/-- The request with its version before its protocol. -/
def spelledNode : Node :=
  .selfClosed {} { name := .ofString "request", attributes := [spelledVersion, spelledProtocol] }

theorem spelled_spelledNode : Spelled spelledRequest.toElement spelledNode := by
  have hversion : SpelledAttribute ("version", .text "\"") spelledVersion :=
    ⟨by decide, .text (Markup.spells_self (by decide))⟩
  have hnumeral : Numeral 16 (['0'] ++ ['3'] ++ ['3']) ((0 * 16 + 3) * 16 + 3) :=
    .snoc (.snoc (.single rfl) rfl) rfl
  have hthree : Spelling '3' "&#x033;".toList :=
    .hexadecimal hnumeral (show '3' ≠ '\x00' by decide)
  have hprotocol : SpelledAttribute ("protocol", .text "3.0") spelledProtocol :=
    ⟨by decide, .text (.cons hthree (Markup.spells_self (by decide : '&' ∉ ".0".toList)))⟩
  exact .intro rfl (Markup.Name.chars_ofString ElementType.request.plainName_tag) (.swap _ _ _)
    (.known hversion (.known hprotocol .nil)) .nil rfl

theorem decode_spelledNode :
    Request.decode "<request\n\tversion ='\"'  protocol=\r\"&#x033;.0\"/>".toUTF8 =
      .ok spelledRequest.canon :=
  ((@decode_spelled spelledNode "" _ (.inl rfl) (by decide)
    (by decide)).1 spelledRequest spelled_spelledNode).1

end UpdateProtocol

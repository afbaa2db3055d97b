import UpdateProtocol.Proofs.Document.Doubling
import UpdateProtocol.Proofs.Element.Conformance

/-!
# Encodings as documents of XML 1.0

The decoder of this library reads every message back as it was.  Other processors follow the
standard more closely.  For them the encoding of a message is a document only if every character of
the message may occur in one, and where a value has a line end or a tab they see a space
(`reads_encode`).
-/

namespace UpdateProtocol

open Markup (AttributeLayout Filler)

variable {header : String}

namespace Xml

/-- The declaration of a complete document. -/
def standardDeclaration : Declaration where
  version :=
    { before := .space
      name := .ofString "version"
      value := "1.0".toList
      separated := Markup.Blanks.space_ne_nil
      unquoted := by decide }
  encoding? := some
    { before := .space
      name := .ofString "encoding"
      value := "UTF-8".toList
      separated := Markup.Blanks.space_ne_nil
      unquoted := by decide }

theorem wellFormed_standardDeclaration : standardDeclaration.WellFormed where
  version := ⟨rfl, ['0'], by decide, List.forall_mem_singleton.2 rfl, rfl⟩
  encoding := by
    rintro attr hattr
    cases hattr
    exact ⟨rfl, by decide⟩
  standalone := by
    rintro attr hattr
    cases hattr

/-- The line break after the declaration. -/
def lineFiller : Filler where
  gap := { text := .lineBreak }
  blank := by simp [Markup.Gap.IsBlank, Markup.Gap.texts, Markup.RawText.lineBreak, Text.isBlank]

end Xml

/-! ### Headers -/

/-- A header is what a document may have before its root. -/
theorem IsHeader.exists_opening (h : IsHeader header) :
    ∃ (declaration? : Option Xml.Declaration) (before : Filler),
      header.toList = declaration?.elim [] Xml.Declaration.write ++ before.gap.write ∧
      (∀ declaration ∈ declaration?, declaration.WellFormed) ∧ before.gap.remarks = [] := by
  rcases h with rfl | rfl
  · exact ⟨none, ⟨{}, Markup.Gap.isBlank_empty⟩, rfl, by simp, rfl⟩
  · refine ⟨some Xml.standardDeclaration, Xml.lineFiller, rfl, ?_, rfl⟩
    rintro declaration hdeclaration
    cases hdeclaration
    exact Xml.wellFormed_standardDeclaration

theorem IsHeader.allowed (h : IsHeader header) : Xml.Allowed header.toList := by
  rcases h with rfl | rfl <;> decide

theorem IsHeader.return_not_mem (h : IsHeader header) : '\r' ∉ header.toList := by
  rcases h with rfl | rfl <;> decide

/-! ### Elements after a header -/

namespace Element

/-- An element without characters that may not occur in a document is one, and it is reported with
spaces for line ends and tabs. -/
theorem reads_layout {element : Element} (valid : element.Valid)
    (allowed : element.EachText Xml.Allowed) (hheader : IsHeader header) :
    Xml.Reads (header.toList ++ element.layout.write) (element.report Xml.reportedText) where
  allowed := Xml.allowed_append.2 ⟨hheader.allowed, (allowed_layout element valid).2 allowed⟩
  layout := by
    obtain ⟨declaration?, before, hopening, hdeclaration, hremarks⟩ := hheader.exists_opening
    refine ⟨declaration?, before, element.fragment, ⟨{}, Markup.Gap.isBlank_empty⟩, ?_,
      hdeclaration, ?_, element.readsPart_fragment valid allowed⟩
    · have hlayout := element.unifyLines_layout []
      rw [List.append_nil] at hlayout
      rw [Xml.unifyLines_append_plain hheader.return_not_mem, hlayout, hopening,
        ← List.append_assoc]
      rfl
    · rw [hremarks]
      simp

end Element

namespace Message

variable {μ : Type} [Message μ]

/-- What a processor reports of what is written for a message, and when it does. -/
theorem reads_iff (message : μ) (hheader : IsHeader header) {report : Xml.Report} :
    Xml.Reads (header ++ encode message).toList report ↔
      (toElement message).EachText Xml.Allowed ∧
        report = (toElement message).report Xml.reportedText := by
  have valid := valid_toElement message
  rw [String.toList_append, encode, Element.toList_render valid]
  constructor
  · intro h
    have hallowed : (toElement message).EachText Xml.Allowed :=
      (Element.allowed_layout _ valid).1 (Xml.allowed_append.1 h.allowed).2
    exact ⟨hallowed, h.unique (Element.reads_layout valid hallowed hheader)⟩
  · rintro ⟨hallowed, rfl⟩
    exact Element.reads_layout valid hallowed hheader

/-- A processor reports the message as it is exactly if every text in it is kept. -/
theorem reads_self_iff (message : μ) (hheader : IsHeader header) :
    Xml.Reads (header ++ encode message).toList ((toElement message).report id) ↔
      (toElement message).EachText Xml.Kept := by
  rw [reads_iff message hheader, eq_comm, Element.report_eq_iff, ← Element.eachText_and]
  rfl

/-- Both hold of a message with the declaration and without it. -/
theorem reads_written (message : μ) {text : String}
    (h : text = encode message ∨ text = documentHeader ++ encode message) :
    (∀ report, Xml.Reads text.toList report ↔
      (toElement message).EachText Xml.Allowed ∧
        report = (toElement message).report Xml.reportedText) ∧
    (Xml.Reads text.toList ((toElement message).report id) ↔
      (toElement message).EachText Xml.Kept) := by
  obtain ⟨header, hheader, rfl⟩ := exists_header h
  exact ⟨fun report => reads_iff message hheader, reads_self_iff message hheader⟩

end Message

/-! ### Requests and responses -/

/-- What is written for a message is a document exactly if all characters of its texts may occur in
one.  There is only one report of it: the message with a space for each line end and each tab in its
texts.  So the report is the message itself exactly if no text has any. -/
theorem reads_encode (request : Request) (response : Response) :
    (∀ text ∈ [request.encode, request.document],
      (∀ report, Xml.Reads text.toList report ↔
        request.toElement.EachText Xml.Allowed ∧
          report = request.toElement.report Xml.reportedText) ∧
      (Xml.Reads text.toList (request.toElement.report id) ↔
        request.toElement.EachText Xml.Kept)) ∧
    (∀ text ∈ [response.encode, response.document],
      (∀ report, Xml.Reads text.toList report ↔
        response.toElement.EachText Xml.Allowed ∧
          report = response.toElement.report Xml.reportedText) ∧
      (Xml.Reads text.toList (response.toElement.report id) ↔
        response.toElement.EachText Xml.Kept)) :=
  ⟨fun _ htext => Message.reads_written request (List.mem_pair.1 htext),
    fun _ htext => Message.reads_written response (List.mem_pair.1 htext)⟩

/-- A request with a line feed in a text. -/
def brokenLineRequest : Request where
  version := "a\nb"

/-- A request with a character that may not occur in a document. -/
def nullRequest : Request where
  version := "\x00"

/-- A processor reports the line feed as a space and not as it is, and it reports nothing of the
other request. -/
theorem reads_brokenLineRequest :
    Xml.Reads brokenLineRequest.document.toList (.element "request".toList
      [("protocol".toList, []), ("version".toList, "a b".toList)] []) ∧
    ¬ Xml.Reads brokenLineRequest.document.toList (.element "request".toList
      [("protocol".toList, []), ("version".toList, "a\nb".toList)] []) ∧
    ∀ report, ¬ Xml.Reads nullRequest.document.toList report := by
  have hallowed : brokenLineRequest.toElement.EachText Xml.Allowed :=
    @Element.EachText.intro _ .request _ [] (by decide) (by simp)
  refine ⟨(Message.reads_iff brokenLineRequest (.inr rfl)).2 ⟨hallowed, rfl⟩, fun h => ?_,
    fun report h => ?_⟩
  · obtain ⟨texts, -⟩ := Element.eachText_mk.1
      ((Message.reads_self_iff brokenLineRequest (.inr rfl)).1 h)
    have hkept : Xml.Kept "a\nb".toList := texts ("version", .text "a\nb") (by decide)
    exact hkept.2 '\n' (by decide) (by decide)
  · obtain ⟨texts, -⟩ := Element.eachText_mk.1 ((Message.reads_iff nullRequest (.inr rfl)).1 h).1
    have hallowed : Xml.Allowed "\x00".toList := texts ("version", .text "\x00") (by decide)
    exact absurd hallowed (by decide)

end UpdateProtocol

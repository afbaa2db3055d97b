import UpdateProtocol.Proofs.Element.Doubling
import UpdateProtocol.Proofs.Message.Wire

/-!
# Documents that say something twice

An attribute of some element in the encoding of a message, or a child that may stand once, is
written a second time.  Neither the first nor the second counts: the document is refused
(`decode_doubled`).
-/

namespace UpdateProtocol

open Element (Doubled)
open Markup (AttributeLayout Blanks Fragment Name Source TagLayout Tokens tokenMarks)
open Markup.Lexer (Finds)

variable {header text : String} {chars : List Char}

/-- A header has no elements. -/
theorem IsHeader.finds (h : IsHeader header) : Finds header.toList [] := by
  rcases h with rfl | rfl
  · exact .nil
  · rw [← write_declarationGap]
    exact .gap declarationGap

/-- A header and a tag after it have no byte order mark. -/
theorem IsHeader.dropMark_append (h : IsHeader header) (rest : List Char) :
    Markup.dropMark (header.toList ++ '<' :: rest) = header.toList ++ '<' :: rest := by
  rcases h with rfl | rfl <;> rfl

namespace Element

variable {element : Element}

/-- An element that is written with something in it twice is not read. -/
theorem Doubled.refused (h : Doubled element chars) (valid : element.Valid)
    (hheader : IsHeader header) (htext : text.toList = header.toList ++ chars)
    (hsize : text.toUTF8.size ≤ maxDocumentSize) :
    ∃ error, decode element.type text.toUTF8 = .error (.schema error) := by
  rcases h.exists_node_or_tree valid with ⟨node, rfl, lead, name, calm, hnot⟩ |
    ⟨trees, hfinds, hnot⟩
  · refine decode_refused hnot calm ?_ lead hheader htext hsize
    rw [name, element.type.plainName_tag.localName_eq]
  · obtain ⟨rest, rfl⟩ := h.exists_cons
    have hmarks := (hheader.finds.append hfinds).tokenMarks_ofText (hheader.dropMark_append rest)
    rw [List.nil_append, Markup.TagTree.marks] at hmarks
    rw [decode_toUTF8 hsize, htext]
    refine exists_schema_of_read (Tokens.root_eq hmarks) ?_ fun found hread => hnot ?_
    · rw [name_tagLayout, element.type.plainName_tag.localName_eq]
    · obtain ⟨tag, middle, after, hnext, hrun⟩ :=
        (read_eq_ok_iff (by simp [Source.Proper, Tokens.source])).1 hread
      have hsource := marks_of_start hnext
      have hstart : .start tag :: middle.marks = _ := hsource.symm.trans hmarks
      obtain ⟨e, hmiddle⟩ := List.cons.inj hstart
      cases e
      exact (hrun.unrepeated hmiddle).1

end Element

/-- What is written for a message with something in it twice is refused. -/
theorem Message.decode_of_doubled {μ : Type} [Message μ] {message : μ}
    (h : Doubled (toElement message) chars) (hheader : IsHeader header)
    (htext : text.toList = header.toList ++ chars) (hsize : text.toUTF8.size ≤ maxDocumentSize) :
    ∃ error, decode μ text.toUTF8 = .error (.schema error) := by
  obtain ⟨error, hdecode⟩ := h.refused (valid_toElement message) hheader htext hsize
  rw [type_toElement] at hdecode
  exact ⟨error, by rw [decode, hdecode, Except.map]⟩

/-- A message is not decoded from its encoding with a second attribute of the same name in one of
the tags, or with a second child of a kind that may stand once in one of the elements. -/
theorem decode_doubled (hheader : IsHeader header) (htext : text.toList = header.toList ++ chars)
    (hsize : text.toUTF8.size ≤ maxDocumentSize) :
    (∀ request : Request, Doubled request.toElement chars →
      ∃ error, Request.decode text.toUTF8 = .error (.schema error)) ∧
    (∀ response : Response, Doubled response.toElement chars →
      ∃ error, Response.decode text.toUTF8 = .error (.schema error)) :=
  ⟨fun _ h => Message.decode_of_doubled (μ := Request) h hheader htext hsize,
    fun _ h => Message.decode_of_doubled (μ := Response) h hheader htext hsize⟩

/-- A request of an operating system about one application. -/
def doubledRequest : Request where
  os := some {}
  apps := [{ id := "a" }]

/-- A second operating system that is marked as absent and holds character data. -/
def doubledOs : Fragment :=
  .paired
    { name := .ofString "x:os"
      attributes :=
        [{ before := .space, name := .ofString "xmlns:x",
           value := Markup.Scope.instanceUri.toList, separated := Blanks.space_ne_nil,
           unquoted := by decide },
          { before := .space, name := .ofString "x:nil", value := ['1'],
            separated := Blanks.space_ne_nil, unquoted := by decide }] }
    [.cdata ⟨"<os>".toList, by decide⟩]

/-- A second name before that of the application. -/
def doubledId : AttributeLayout where
  before := .space
  name := .ofString "appid"
  quote := .single
  value := ['b']
  separated := Blanks.space_ne_nil
  unquoted := by decide

set_option maxRecDepth 2000 in
/-- Neither the second operating system, set aside after the application, nor the second name of the
application is accepted. -/
theorem decode_doubledRequest :
    (∃ error, Request.decode ("<request protocol=\"\"><os/><app appid=\"a\"/>" ++
        "<x:os xmlns:x=\"http://www.w3.org/2001/XMLSchema-instance\" x:nil=\"1\">" ++
        "<![CDATA[<os>]]></x:os></request>").toUTF8 = .error (.schema error)) ∧
      ∃ error, Request.decode ("<request protocol=\"\"><os/>" ++
        "<app appid='b' appid=\"a\"/></request>").toUTF8 = .error (.schema error) := by
  have hchild := @Doubled.child .request [("protocol", .text "")] (Os.toElement {})
    [Os.toElement {}, App.toElement { id := "a" }] [] doubledOs _ (by simp) (by decide) rfl
    (by decide)
  have hattr := @Doubled.inside .request [("protocol", .text "")] _ [Os.toElement {}] [] _
    (@Doubled.attr .app [("appid", .text "a")] [] ("appid", .text "a") [] _ doubledId (by simp)
      (by decide) rfl)
  refine ⟨(decode_doubled (.inl rfl) ?_ (by decide)).1 doubledRequest hchild,
    (decode_doubled (.inl rfl) ?_ (by decide)).1 doubledRequest hattr⟩
  · simp only [String.toList_append]
    rfl
  · simp only [String.toList_append]
    rfl

end UpdateProtocol

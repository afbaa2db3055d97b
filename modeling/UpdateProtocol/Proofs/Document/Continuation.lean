import UpdateProtocol.Proofs.Element.Continuation
import UpdateProtocol.Proofs.Message.Wire

/-!
# Documents with something after the root

A response does not change when its document goes on, whatever follows (`decode_continued`).  A
request does not change unless the first thing after its root, blanks apart, becomes a tag that
declares a qualifier.  Such a tag counts as if it stood inside of the root for a child that follows
an application, so it can mark the child as absent (`decode_openRequest_declaring`).
-/

namespace UpdateProtocol

open Markup (EndsInTag LookAlike Source SyntaxError Token Tokens afterEnd leaving nest tagAhead?
  tokenMarks)

/-! ### The end of the root -/

namespace Markup

/-- The tokens after the first element. -/
def afterElement : List Token → List Token
  | [] => []
  | .start tag :: tokens => (Remainder.skipFrom tag.name 0 tokens).getD []
  | _ :: tokens => afterElement tokens

/-- The tag that follows the root of a document, blanks apart. -/
def Tokens.follower? (document : Tokens) : Option Tag :=
  tagAhead? (afterElement document.tokens)

section Tokens

variable {tokens more : List Token} {tag : Tag} {marks left : List Mark}

/-- Nested marks begin with a start tag. -/
theorem exists_start (ends : EndsInTag tokens) {stack : List (List Char)}
    (nested : nest [] (tokenMarks tokens) = some stack) :
    ∃ tag marks, tokenMarks tokens = .start tag :: marks := by
  obtain ⟨marks, name, hmarks⟩ := ends.exists_mark
  rw [hmarks] at nested ⊢
  cases marks with
  | nil => cases nested
  | cons mark marks =>
    cases mark with
    | start tag => exact ⟨tag, _, rfl⟩
    | finish found => cases nested

/-- The first element ends in its end tag, whatever follows. -/
theorem afterElement_split (h : tokenMarks tokens = .start tag :: marks)
    (hleft : leaving (· == tag.name) 0 marks = some left) :
    ∃ element, EndsInTag element ∧ tokens = element ++ afterElement tokens ∧
      tokenMarks (afterElement tokens) = left ∧
      ∀ more, afterElement (tokens ++ more) = afterElement tokens ++ more := by
  induction tokens with
  | nil => cases h
  | cons token tokens ih =>
    have hstep (h : tokenMarks tokens = .start tag :: marks) : ∃ element, EndsInTag element ∧
        token :: tokens = element ++ afterElement tokens ∧
        tokenMarks (afterElement tokens) = left ∧
        ∀ more, afterElement (tokens ++ more) = afterElement tokens ++ more := by
      obtain ⟨element, hends, htokens, hrest⟩ := ih h
      exact ⟨token :: element, hends.cons token, congrArg (token :: ·) htokens, hrest⟩
    cases token with
    | start found =>
      obtain ⟨e, rfl⟩ := List.cons.inj h
      cases e
      have hskip := (Remainder.leaving_tokenMarks tag.name 0 tokens).symm.trans hleft
      obtain ⟨rest, hrest, rfl⟩ := Option.map_eq_some_iff.1 hskip
      obtain ⟨passed, hends, hpassed⟩ := Remainder.skipFrom_split hrest
      have hafter : afterElement (.start tag :: tokens) = rest := by rw [afterElement, hrest]; rfl
      refine ⟨.start tag :: passed, hends.cons _, ?_, by rw [hafter], fun more => ?_⟩
      · rw [hafter, List.cons_append, hpassed]
      · rw [hafter, List.cons_append, afterElement, Remainder.skipFrom_append hrest]
        rfl
    | finish name => cases (List.cons.inj h).1
    | text raw => exact hstep h
    | cdata content => exact hstep h
    | doctype => exact hstep h

theorem tagAhead?_append (h : tagAhead? tokens = some tag) (more : List Token) :
    tagAhead? (tokens ++ more) = some tag := by
  induction tokens with
  | nil => cases h
  | cons token tokens ih =>
    cases token with
    | text raw =>
      simp only [List.cons_append, tagAhead?] at h ⊢
      split at h
      · next hblank =>
        rw [if_pos hblank]
        exact ih h
      · cases h
    | start found => exact h
    | _ => cases h

theorem tagAhead?_eq_none (h : tokenMarks tokens = []) : tagAhead? tokens = none := by
  induction tokens with
  | nil => rfl
  | cons token tokens ih =>
    cases token with
    | text raw =>
      rw [tagAhead?, ih h]
      split <;> rfl
    | start found => cases h
    | _ => rfl

/-- A tag that comes next is not in a text after it. -/
theorem tagAhead?_of_append (h : tagAhead? (tokens ++ more) = some tag)
    (hmore : tokenMarks more = []) : tagAhead? tokens = some tag := by
  induction tokens with
  | nil =>
    rw [List.nil_append, tagAhead?_eq_none hmore] at h
    cases h
  | cons token tokens ih =>
    cases token with
    | text raw =>
      simp only [List.cons_append, tagAhead?] at h ⊢
      split at h
      · next hblank =>
        rw [if_pos hblank]
        exact ih h
      · cases h
    | start found => exact h
    | _ => cases h

/-- The same next tag, or a calm one, is all that a reader can see ahead. -/
theorem lookAlike_of_append {more' : List Token}
    (h : ∀ tag, tagAhead? (tokens ++ more') = some tag →
      tagAhead? (tokens ++ more) = some tag ∨ tag.Calm) (hmore : tokenMarks more = []) :
    LookAlike (tokens ++ more) (tokens ++ more') := by
  cases hahead : tagAhead? (tokens ++ more) with
  | some tag =>
    left
    rw [hahead, tagAhead?_append (tagAhead?_of_append hahead hmore)]
  | none =>
    right
    refine ⟨fun tag e => ?_, fun tag e => (h tag e).resolve_left fun e' => ?_⟩
    · rw [hahead] at e
      cases e
    · rw [hahead] at e'
      cases e'

end Tokens

theorem afterElement_eq_nil {tokens : List Token} (h : tokenMarks tokens = []) :
    afterElement tokens = [] := by
  induction tokens with
  | nil => rfl
  | cons token tokens ih =>
    cases token with
    | start tag => cases h
    | finish name => cases h
    | _ => exact ih h

/-- What has no tags does not matter to the tag that comes next after the first element. -/
theorem tagAhead?_afterElement (tokens : List Token) {more : List Token}
    (hmore : tokenMarks more = []) :
    tagAhead? (afterElement (tokens ++ more)) = tagAhead? (afterElement tokens) := by
  induction tokens with
  | nil => rw [List.nil_append, afterElement_eq_nil hmore]; rfl
  | cons token tokens ih =>
    cases token with
    | start first =>
      simp only [List.cons_append, afterElement]
      cases hskip : Remainder.skipFrom first.name 0 tokens with
      | some left =>
        rw [Remainder.skipFrom_append hskip]
        exact Option.ext fun tag =>
          ⟨fun h => tagAhead?_of_append h hmore, fun h => tagAhead?_append h more⟩
      | none =>
        have hmarks : tokenMarks (tokens ++ more) = tokenMarks tokens := by
          rw [tokenMarks_append, hmore, List.append_nil]
        have hnone := Remainder.leaving_tokenMarks first.name 0 tokens
        rw [hskip, ← hmarks, Remainder.leaving_tokenMarks, Option.map_none,
          Option.map_eq_none_iff] at hnone
        rw [hnone]
    | _ => exact ih

end Markup

namespace Element

variable {type : ElementType} {element : Element} {tokens more more' : List Token}
  {fault fault' : Option SyntaxError}

/-- What is read from tokens does not depend on what follows them. -/
theorem ofTokens_followedBy (ends : EndsInTag tokens)
    (nested : nest [] (tokenMarks tokens) = some [])
    (look : LookAlike more more' ∨ type.isSteady = true)
    (h : ofTokens type ⟨tokens ++ more, fault⟩ = .ok element) :
    ofTokens type ⟨tokens ++ more', fault'⟩ = .ok element := by
  obtain ⟨⟨tag, hroot, hname⟩, hread⟩ := ofTokens_eq_ok_iff.1 h
  have hproper (document : Tokens) : document.source.Proper := by
    simp [Source.Proper, Tokens.source]
  refine ofTokens_eq_ok_iff.2 ⟨⟨tag, ?_, hname⟩, ?_⟩
  · obtain ⟨first, marks, hmarks⟩ := Markup.exists_start ends nested
    have hfind (more : List Token) (fault : Option SyntaxError) :
        Tokens.root ⟨tokens ++ more, fault⟩ = .ok (some first) :=
      Tokens.root_eq (by rw [Markup.tokenMarks_append, hmarks]; rfl)
    rw [← hroot, hfind, hfind]
  · obtain ⟨root, middle, after, hnext, hrun⟩ := (read_eq_ok_iff (hproper _)).1 hread
    have hinside : (Tokens.source ⟨tokens, none⟩).Inside [] := ⟨nested, .inr ends⟩
    obtain ⟨middle, rfl, hmiddle, hall⟩ :=
      @Source.exists_next_of (Tokens.source ⟨tokens, none⟩) _ more fault _ (fun _ => ends) hnext
    obtain ⟨hopen, hspent⟩ := hinside.next_start hmiddle
    obtain ⟨left, -, hrun, -⟩ := hrun.exists_followedBy rfl
      ⟨hopen, .nil, fun _ => look, fun h => absurd (hspent h) ends.ne_nil⟩
    exact (read_eq_ok_iff (hproper _)).2 ⟨root, _, _, hall more' fault', hrun⟩

/-- A document that goes on is read as before, unless the tag after its root has changed and
declares a qualifier. -/
theorem ofTokens_append {text rest : List Char}
    (look : (∀ tag, (Tokens.ofText (text ++ rest)).follower? = some tag →
      (Tokens.ofText text).follower? = some tag ∨ tag.Calm) ∨ type.isSteady = true)
    (h : ofTokens type (Tokens.ofText text) = .ok element) :
    ofTokens type (Tokens.ofText (text ++ rest)) = .ok element := by
  obtain ⟨names, nested⟩ := Tokens.nest_ofText text
  obtain ⟨tag, marks, left, hmarks, hleft⟩ :=
    exists_afterEnd_of_read (ofTokens_eq_ok_iff.1 h).2 nested
  obtain ⟨tokens, more, more', htokens, hmore, htokens'⟩ :=
    Tokens.exists_ofText_append (by rw [hmarks]; simp) rest
  have hstart : tokenMarks tokens = .start tag :: marks := by
    rw [← hmarks, htokens, Markup.tokenMarks_append, hmore, List.append_nil]
  rw [hmarks, Markup.nest_start] at nested
  have hcount : leaving (· == tag.name) 0 marks = some left :=
    (@Markup.leaving_eq _ _ _ _ [] nested).trans hleft
  obtain ⟨root, hends, hroot, hafter, happend⟩ := Markup.afterElement_split hstart hcount
  have hclosed : nest [] (tokenMarks root) = some [] := by
    obtain ⟨passed, rfl, hpassed⟩ := @Markup.leaving_split _ _ _ _ [] _ nested hleft
    have hmarks : tokenMarks root ++ left = .start tag :: passed ++ left := by
      rw [← hafter, ← Markup.tokenMarks_append, ← hroot, hstart, hafter]
      rfl
    rw [List.append_cancel_right hmarks, Markup.nest_start]
    exact hpassed []
  rw [Tokens.follower?, Tokens.follower?, htokens, htokens', happend, happend] at look
  have hof : Tokens.ofText text =
      ⟨root ++ (Markup.afterElement tokens ++ more), (Tokens.ofText text).fault⟩ := by
    rw [← List.append_assoc, ← hroot, ← htokens]
  have hof' : Tokens.ofText (text ++ rest) =
      ⟨root ++ (Markup.afterElement tokens ++ more'), (Tokens.ofText (text ++ rest)).fault⟩ := by
    rw [← List.append_assoc, ← hroot, ← htokens']
  rw [hof] at h
  rw [hof']
  exact ofTokens_followedBy hends hclosed
    (look.imp_left fun look => Markup.lookAlike_of_append look hmore) h

end Element

/-- What comes after the root of a document that goes on is, blanks apart, no tag that declares a
qualifier, or it has come there before. -/
def ContinuesCalmly (bytes : ByteArray) (rest : String) : Prop :=
  ∀ text, Text.Utf8.decode bytes = .ok text → ∀ tag,
    (Tokens.ofText (text ++ rest).toList).follower? = some tag →
      (Tokens.ofText text.toList).follower? = some tag ∨ tag.Calm

/-- Nothing that matters comes after a document that goes on without a closing angle bracket. -/
theorem continuesCalmly_of_not_mem {rest : String} (h : '>' ∉ rest.toList) (bytes : ByteArray) :
    ContinuesCalmly bytes rest := by
  intro text _ tag htag
  left
  have hmarks := Tokens.tokenMarks_ofText_append text.toList h
  rw [String.toList_append, Tokens.follower?] at htag
  by_cases hnone : tokenMarks (Tokens.ofText text.toList).tokens = []
  · rw [Markup.afterElement_eq_nil (hmarks.trans hnone)] at htag
    cases htag
  · obtain ⟨tokens, more, more', htokens, hmore, htokens'⟩ :=
      Tokens.exists_ofText_append hnone rest.toList
    have hmore' : tokenMarks more' = [] := by
      rw [htokens, htokens', Markup.tokenMarks_append, Markup.tokenMarks_append, hmore,
        List.append_nil] at hmarks
      exact List.append_right_eq_self.1 hmarks
    rw [htokens', Markup.tagAhead?_afterElement tokens hmore'] at htag
    rw [Tokens.follower?, htokens, Markup.tagAhead?_afterElement tokens hmore, htag]

namespace Message

variable {μ : Type} [Message μ] {message : μ} {bytes : ByteArray}

/-- A document that goes on decodes to the same message. -/
theorem decode_append {rest : String}
    (look : ContinuesCalmly bytes rest ∨ (root μ).isSteady = true)
    (hsize : (bytes ++ rest.toUTF8).size ≤ maxDocumentSize) (h : decode μ bytes = .ok message) :
    decode μ (bytes ++ rest.toUTF8) = .ok message := by
  obtain ⟨element, helement, rfl⟩ := exists_of_map_ok h
  obtain ⟨-, text, htext, hread⟩ := Element.decode_eq_ok_iff.1 helement
  have hbytes : bytes ++ rest.toUTF8 = (text ++ rest).toUTF8 := by
    rw [Text.Utf8.toUTF8_of_decode htext]
    exact (String.toByteArray_append).symm
  have hdecode : Element.decode (root μ) (bytes ++ rest.toUTF8) = .ok element := by
    refine Element.decode_eq_ok_iff.2 ⟨hsize, text ++ rest, ?_, ?_⟩
    · rw [hbytes, Text.Utf8.decode_toUTF8]
    · rw [String.toList_append]
      refine Element.ofTokens_append (look.imp_left fun look tag hahead => ?_) hread
      exact look text htext tag (by rwa [String.toList_append])
  rw [decode, hdecode]
  rfl

end Message

/-- What follows the root of a response does not matter.  What follows the root of a request does
not matter unless it begins with a new tag that declares a qualifier. -/
theorem decode_continued (bytes : ByteArray) :
    (∀ response (rest : String), Response.decode bytes = .ok response →
      (bytes ++ rest.toUTF8).size ≤ maxDocumentSize →
        Response.decode (bytes ++ rest.toUTF8) = .ok response) ∧
    (∀ response more response', Response.decode bytes = .ok response →
      Response.decode (bytes ++ more) = .ok response' → response' = response) ∧
    (∀ request (rest : String), Request.decode bytes = .ok request →
      ContinuesCalmly bytes rest → (bytes ++ rest.toUTF8).size ≤ maxDocumentSize →
        Request.decode (bytes ++ rest.toUTF8) = .ok request) := by
  have hresponse (response : Response) (rest : String) (h : Response.decode bytes = .ok response)
      (hsize : (bytes ++ rest.toUTF8).size ≤ maxDocumentSize) :
      Response.decode (bytes ++ rest.toUTF8) = .ok response :=
    Message.decode_append (.inr (by decide)) hsize h
  refine ⟨hresponse, fun response more response' h h' => ?_,
    fun request rest h look hsize => Message.decode_append (.inl look) hsize h⟩
  obtain ⟨element, helement, -⟩ := exists_of_map_ok h
  obtain ⟨element', helement', -⟩ := exists_of_map_ok h'
  obtain ⟨-, text, htext, -⟩ := Element.decode_eq_ok_iff.1 helement
  obtain ⟨hsize, text', htext', -⟩ := Element.decode_eq_ok_iff.1 helement'
  have hbytes : text'.toUTF8 = text.toUTF8 ++ more := by
    rw [← Text.Utf8.toUTF8_of_decode htext', ← Text.Utf8.toUTF8_of_decode htext]
  obtain ⟨rest, -, rfl⟩ := Text.Utf8.exists_append hbytes
  exact Except.ok.inj (h'.symm.trans (hresponse response rest h hsize))

/-- A response in which something follows an application. -/
def openResponse : String :=
  "<response protocol=\"3.0\" server=\"mantle\"><app/><daystart elapsed_seconds=\"0\"/></response>"

/-- A request in which something follows an application, perhaps marked as absent. -/
def openRequest : String :=
  "<request><app/><os x:nil=\"1\"/></request>"

/-- A tag that declares nothing. -/
def plainTag : String :=
  "<a/>"

/-- A tag that declares the qualifier of the mark. -/
def declaringTag : String :=
  "<a xmlns:x=\"http://www.w3.org/2001/XMLSchema-instance\"/>"

theorem decode_openResponse : Response.decode openResponse.toUTF8 = .ok { apps := [{}] } := by
  rw [Response.decode, Element.decode_toUTF8 (by decide +kernel)]
  decide +kernel

theorem decode_openRequest :
    Request.decode openRequest.toUTF8 = .ok { apps := [{}], os := some {} } := by
  rw [Request.decode, Element.decode_toUTF8 (by decide +kernel)]
  decide +kernel

theorem continuesCalmly_openRequest : ContinuesCalmly openRequest.toUTF8 plainTag := by
  intro text htext tag htag
  rw [Text.Utf8.decode_toUTF8] at htext
  cases htext
  have hahead : (Tokens.ofText (openRequest ++ plainTag).toList).follower? = some ⟨['a']⟩ := by
    decide
  rw [hahead] at htag
  cases htag
  right
  rintro attr hattr
  rw [show Markup.Tag.attributes ⟨['a']⟩ false = [] by decide] at hattr
  cases hattr

set_option maxRecDepth 2000 in
/-- The response goes on with a declaration and the request with a tag without one. -/
theorem decode_openDocuments :
    Response.decode (openResponse.toUTF8 ++ declaringTag.toUTF8) = .ok { apps := [{}] } ∧
      Request.decode (openRequest.toUTF8 ++ plainTag.toUTF8) =
        .ok { apps := [{}], os := some {} } :=
  ⟨(decode_continued _).1 _ _ decode_openResponse (by decide),
    (decode_continued _).2.2 _ _ decode_openRequest continuesCalmly_openRequest
      (by decide)⟩

/-- After a request a declaration matters: the mark counts, and what carried it is gone. -/
theorem decode_openRequest_declaring :
    Request.decode openRequest.toUTF8 = .ok { apps := [{}], os := some {} } ∧
      Request.decode (openRequest.toUTF8 ++ declaringTag.toUTF8) = .ok { apps := [{}] } := by
  refine ⟨decode_openRequest, ?_⟩
  rw [show openRequest.toUTF8 ++ declaringTag.toUTF8 = (openRequest ++ declaringTag).toUTF8 from
    (String.toByteArray_append).symm, Request.decode, Element.decode_toUTF8 (by decide +kernel)]
  decide +kernel

end UpdateProtocol

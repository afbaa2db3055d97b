import Mathlib.Data.List.TakeDrop
import Mathlib.Data.List.TakeWhile
import UpdateProtocol.EventArgument
import UpdateProtocol.Proofs.Lists
import UpdateProtocol.Proofs.Vocabulary

/-!
# How an event is named

An event argument is two tokens with a colon between them: neither is empty, and the first has no
colon (`EventArgument.Joins`).  Exactly these texts are read, each as the codes of its two tokens
(`parse_joined`).
-/

namespace UpdateProtocol.EventArgument

variable {text first second : String} {event : EventArgument}

/-- A text is made of two tokens and the colon between them, which is the first one in it. -/
structure Joins (text first second : String) : Prop where
  text_eq : text = first ++ ":" ++ second
  first_ne : first ≠ ""
  colon : ':' ∉ first.toList
  second_ne : second ≠ ""

theorem Joins.toList (h : Joins text first second) :
    text.toList = first.toList ++ ':' :: second.toList := by
  simp [h.text_eq]

/-- What stands before the first colon of a text, and what follows. -/
theorem Joins.span (h : Joins text first second) :
    text.toList.span (· != ':') = (first.toList, ':' :: second.toList) := by
  rw [List.span_eq_takeWhile_dropWhile, h.toList, takeWhile_word h.colon, dropWhile_word h.colon]

/-- The two tokens can be told from the text. -/
theorem Joins.unique (h : Joins text first second) {other rest : String}
    (hother : Joins text other rest) : other = first ∧ rest = second := by
  obtain ⟨hfirst, hsecond⟩ := Prod.mk.inj (hother.span.symm.trans h.span)
  exact ⟨String.toList_inj.1 hfirst, String.toList_inj.1 (List.cons.inj hsecond).2⟩

theorem Joins.parse_eq (h : Joins text first second) :
    parse text = .ok ⟨.ofToken first, .ofToken second⟩ := by
  obtain ⟨a, as, hfirst⟩ : ∃ a as, first.toList = a :: as :=
    List.exists_cons_of_ne_nil (by simpa using h.first_ne)
  obtain ⟨b, bs, hsecond⟩ : ∃ b bs, second.toList = b :: bs :=
    List.exists_cons_of_ne_nil (by simpa using h.second_ne)
  rw [parse, h.span, hfirst, hsecond]
  change Except.ok (EventArgument.mk (.ofToken (String.ofList (a :: as)))
    (.ofToken (String.ofList (b :: bs)))) = _
  rw [← hfirst, ← hsecond, String.ofList_toList, String.ofList_toList]

/-- An argument that is read is made of the tokens of its event. -/
theorem joins_of_parse (h : parse text = .ok event) :
    Joins text event.eventType.token event.result.token := by
  rw [parse, List.span_eq_takeWhile_dropWhile] at h
  split at h
  · next a as b bs hspan =>
    obtain ⟨hfirst, hsecond⟩ := Prod.mk.inj hspan
    cases h
    simp only [Code.token_ofToken]
    refine ⟨?_, by simp, ?_, by simp⟩
    · apply String.toList_inj.1
      simp [← hfirst, ← hsecond]
    · rw [String.toList_ofList, ← hfirst]
      exact fun hmem => absurd (List.mem_takeWhile_imp hmem) (by decide)
  · cases h

theorem parse_eq_ok_iff :
    parse text = .ok event ↔
      ∃ first second, Joins text first second ∧ event = ⟨.ofToken first, .ofToken second⟩ := by
  constructor
  · intro h
    have hjoins := joins_of_parse h
    exact ⟨_, _, hjoins, Except.ok.inj (h.symm.trans hjoins.parse_eq)⟩
  · rintro ⟨first, second, hjoins, rfl⟩
    exact hjoins.parse_eq

theorem parse_eq_error (h : ¬ ∃ first second, Joins text first second) :
    parse text = .error ⟨text⟩ := by
  cases hparse : parse text with
  | ok event => exact absurd ⟨_, _, joins_of_parse hparse⟩ h
  | error e =>
    rw [parse] at hparse
    split at hparse
    · cases hparse
    · exact hparse.symm

/-- The arguments that are read are the texts made of two tokens, and nothing of them is lost.  All
others are refused.  The text made of the tokens of two codes that were read names these codes. -/
theorem parse_joined (text : String) :
    ((∃ event, parse text = .ok event) ↔ ∃ first second, Joins text first second) ∧
    (∀ first second, Joins text first second →
      (∀ other rest, Joins text other rest → other = first ∧ rest = second) ∧
      ∃ event, parse text = .ok event ∧
        event.eventType.token = first ∧ event.result.token = second ∧
        event.eventType.token ++ ":" ++ event.result.token = text) ∧
    ((¬ ∃ first second, Joins text first second) → parse text = .error ⟨text⟩) ∧
    ∀ (eventType : Code EventType) (result : Code EventResult), eventType.IsRead → result.IsRead →
      eventType.token ≠ "" → ':' ∉ eventType.token.toList → result.token ≠ "" →
      parse (eventType.token ++ ":" ++ result.token) = .ok ⟨eventType, result⟩ := by
  refine ⟨⟨?_, ?_⟩, fun first second h => ?_, parse_eq_error,
    fun eventType result htype hresult hfirst hcolon hsecond => ?_⟩
  · rintro ⟨event, h⟩
    exact ⟨_, _, joins_of_parse h⟩
  · rintro ⟨first, second, h⟩
    exact ⟨_, h.parse_eq⟩
  · refine ⟨fun _ _ => h.unique, _, h.parse_eq, Code.token_ofToken first,
      Code.token_ofToken second, ?_⟩
    simp only [Code.token_ofToken, h.text_eq]
  · have hjoins : Joins (eventType.token ++ ":" ++ result.token) eventType.token result.token :=
      ⟨rfl, hfirst, hcolon, hsecond⟩
    rw [hjoins.parse_eq, htype.ofToken_token, hresult.ofToken_token]

end UpdateProtocol.EventArgument

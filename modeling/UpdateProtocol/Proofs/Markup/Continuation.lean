import UpdateProtocol.Proofs.Markup.Aside
import UpdateProtocol.Proofs.Markup.Enclosure

/-!
# Documents that go on

A reader that is inside of an element finds the same whatever follows the element: its items and
the elements it passes over end before (`Source.Inside.exists_next`, `Source.Inside.exists_skip`).
What follows shows in one place only.  Once the last end tag has been read, the scope ahead depends
on the tag that comes next (`Remainder.marksNil_spent`).
-/

namespace UpdateProtocol.Markup

/-- Tokens the last of which is an end tag. -/
inductive EndsInTag : List Token → Prop
  | last (name : List Char) : EndsInTag [.finish name]
  | cons (token : Token) {tokens : List Token} (rest : EndsInTag tokens) :
      EndsInTag (token :: tokens)

namespace EndsInTag

variable {tokens passed left : List Token}

theorem ne_nil (h : EndsInTag tokens) : tokens ≠ [] := by cases h <;> simp

theorem of_append (h : EndsInTag (passed ++ left)) (hleft : left ≠ []) : EndsInTag left := by
  induction passed with
  | nil => exact h
  | cons token passed ih =>
    apply ih
    cases hrest : passed ++ left with
    | nil => exact absurd (List.append_eq_nil_iff.1 hrest).2 hleft
    | cons first rest =>
      rw [List.cons_append, hrest] at h
      cases h with
      | cons _ h => exact h

/-- What is passed over up to the very end has the end tag in it. -/
theorem exists_mark (h : EndsInTag tokens) :
    ∃ marks name, tokenMarks tokens = marks ++ [.finish name] := by
  induction h with
  | last name => exact ⟨[], name, rfl⟩
  | cons token _ ih =>
    obtain ⟨marks, name, hmarks⟩ := ih
    refine ⟨token.mark?.toList ++ marks, name, ?_⟩
    rw [tokenMarks, List.filterMap_cons, List.append_assoc, ← hmarks]
    cases token.mark? <;> rfl

end EndsInTag

section Text

variable {tokens : List Token} (h : EndsInTag tokens) (more : List Token)

include h

theorem textFollows_append : textFollows (tokens ++ more) = textFollows tokens := by
  cases h with
  | last => rfl
  | cons token => cases token <;> rfl

theorem readText_append (collected : List Char) :
    readText collected (tokens ++ more) =
      (readText collected tokens).map (fun found => (found.1, found.2 ++ more)) := by
  induction h generalizing collected with
  | last => rfl
  | cons token rest ih =>
    cases token with
    | text raw =>
      rw [List.cons_append, readText, readText, textFollows_append rest]
      generalize (resolve _).mapError Error.reference = found
      cases found with
      | error => rfl
      | ok resolved => exact ih _
    | cdata content => exact ih _
    | _ => rfl

end Text

namespace Remainder

/-- The rest of a document that goes on with other tokens and another fault. -/
def followedBy (rest : Remainder) (more : List Token) (fault : Option SyntaxError) : Remainder :=
  { rest with tokens := rest.tokens ++ more, fault }

variable {rest : Remainder} {tokens : List Token} (more : List Token)
  (fault : Option SyntaxError)

theorem nextFrom_followedBy (h : EndsInTag tokens) :
    (rest.followedBy more fault).nextFrom (tokens ++ more) =
      (rest.nextFrom tokens).map (fun found => (found.1, found.2.followedBy more fault)) := by
  induction h generalizing rest with
  | last => rfl
  | @cons token tokens h ih =>
    cases token with
    | text raw =>
      have hvoid : (rest.followedBy more fault).isVoid raw = rest.isVoid raw := rfl
      rw [List.cons_append, nextFrom, nextFrom, hvoid]
      split
      · exact @ih { rest with scope := rest.scope.settle }
      · have htrim : (rest.followedBy more fault).trim = rest.trim := rfl
        simp only [htrim]
        rw [← List.cons_append, readText_append (h.cons _)]
        cases readText [] (.text (if rest.trim then Text.trimStart raw else raw) :: tokens) <;> rfl
    | cdata content =>
      rw [List.cons_append, nextFrom, nextFrom, readText_append h]
      cases readText content.reverse tokens <;> rfl
    | doctype => exact @ih { rest with trim := true, scope := rest.scope.settle }
    | start tag =>
      rw [List.cons_append, nextFrom, nextFrom]
      have hscope : (rest.followedBy more fault).scope = rest.scope := rfl
      rw [hscope]
      obtain ⟨scope, _ | error⟩ := rest.scope.enter tag <;> rfl
    | finish name => rfl

theorem dropVoid_followedBy (h : EndsInTag tokens) :
    (rest.followedBy more fault).dropVoid (tokens ++ more) =
        (rest.dropVoid tokens).followedBy more fault ∧ EndsInTag (rest.dropVoid tokens).tokens := by
  induction h generalizing rest with
  | last name => exact ⟨rfl, .last name⟩
  | @cons token tokens h ih =>
    cases token with
    | text raw =>
      have hvoid : (rest.followedBy more fault).isVoid raw = rest.isVoid raw := rfl
      simp only [List.cons_append, dropVoid, hvoid]
      split
      · exact @ih { rest with scope := rest.scope.settle }
      · exact ⟨rfl, h.cons _⟩
    | _ => exact ⟨rfl, h.cons _⟩

theorem scopeAhead_followedBy (h : EndsInTag rest.tokens) :
    (rest.followedBy more fault).scopeAhead = rest.scopeAhead := by
  obtain ⟨hdrop, hends⟩ := rest.dropVoid_followedBy more fault h
  rw [scopeAhead, scopeAhead]
  simp only [followedBy] at hdrop ⊢
  rw [hdrop]
  generalize rest.dropVoid rest.tokens = ahead at hends
  obtain ⟨tokens, fault, trim, scope⟩ := ahead
  cases hends with
  | last => rfl
  | cons token => cases token <;> rfl

theorem skipFrom_append {name : List Char} {depth : Nat} {tokens left : List Token}
    (h : skipFrom name depth tokens = some left) (more : List Token) :
    skipFrom name depth (tokens ++ more) = some (left ++ more) := by
  induction tokens generalizing depth with
  | nil => cases h
  | cons token tokens ih =>
    cases token with
    | start tag =>
      simp only [List.cons_append, skipFrom] at h ⊢
      split at h
      · next hname =>
        rw [if_pos hname]
        exact ih h
      · next hname =>
        rw [if_neg hname]
        exact ih h
    | finish found =>
      simp only [List.cons_append, skipFrom] at h ⊢
      split at h
      · next hname =>
        rw [if_pos hname]
        cases depth with
        | zero =>
          cases h
          rfl
        | succ depth => exact ih h
      · next hname =>
        rw [if_neg hname]
        exact ih h
    | _ => exact ih h

/-- An element that is passed over ends in its end tag. -/
theorem skipFrom_split {name : List Char} {depth : Nat} {tokens left : List Token}
    (h : skipFrom name depth tokens = some left) :
    ∃ passed, EndsInTag passed ∧ passed ++ left = tokens := by
  induction tokens generalizing depth with
  | nil => cases h
  | cons token tokens ih =>
    have hstep {depth : Nat} (h : skipFrom name depth tokens = some left) :
        ∃ passed, EndsInTag passed ∧ passed ++ left = token :: tokens := by
      obtain ⟨passed, hends, rfl⟩ := ih h
      exact ⟨token :: passed, hends.cons token, rfl⟩
    cases token with
    | start tag =>
      simp only [skipFrom] at h
      split at h <;> exact hstep h
    | finish found =>
      simp only [skipFrom] at h
      split at h
      · cases depth with
        | zero =>
          cases h
          exact ⟨[.finish found], .last found, rfl⟩
        | succ depth => exact hstep h
      · exact hstep h
    | _ => exact hstep h

theorem skip_followedBy (hends : EndsInTag rest.tokens) {name : List Char} {left : List Token}
    (h : skipFrom name 0 rest.tokens = some left) :
    (rest.followedBy more fault).skip name =
      (rest.skip name).map (fun left => left.followedBy more fault) := by
  have hdrop : (rest.followedBy more fault).dropVoid (rest.followedBy more fault).tokens =
      (rest.dropVoid rest.tokens).followedBy more fault := (dropVoid_followedBy more fault hends).1
  rw [← rest.skipFrom_dropVoid] at h
  simp only [skip, hdrop]
  generalize rest.dropVoid rest.tokens = ahead at h
  obtain ⟨tokens, fault', trim, scope⟩ := ahead
  cases tokens with
  | nil => cases h
  | cons token tokens =>
    have hpass (scope : Scope) (trim : Bool) {left : List Token}
        (h : skipFrom name 0 tokens = some left) :
        skipTokens ⟨token :: tokens ++ more, fault, trim, scope⟩ name (tokens ++ more) =
          (skipTokens ⟨token :: tokens, fault', trim, scope⟩ name tokens).map
            (fun left => left.followedBy more fault) := by
      rw [skipTokens, skipTokens, skipFrom_append h more, h]
      rfl
    simp only [followedBy, List.cons_append]
    cases token with
    | text raw => exact hpass _ _ h
    | cdata content => exact hpass _ _ h
    | doctype => exact hpass _ _ h
    | finish found =>
      simp only [skipFrom] at h
      simp only
      split
      · rfl
      · next hname =>
        rw [if_neg hname] at h
        exact hpass _ _ h
    | start tag =>
      simp only [skipFrom] at h
      simp only
      generalize scope.enter tag = entered
      obtain ⟨scope, _ | error⟩ := entered
      · split at h
        · next hname =>
          rw [skipFrom_succ] at h
          obtain ⟨inner, hinner, hleft⟩ := Option.bind_eq_some_iff.1 h
          simp only [skipTokens, skipFrom_append hinner more, hinner, hname, if_true, bind,
            Except.bind, skipFrom_append hleft more, hleft]
          rfl
        · next hname =>
          simp only [skipTokens, skipFrom_append h more, h, hname]
          rfl
      · rfl

theorem skipNested_followedBy (hends : EndsInTag rest.tokens) {name : List Char} {depth : Nat}
    {left : List Token} (h : skipFrom name depth rest.tokens = some left) :
    (rest.followedBy more fault).skipNested name depth =
      (rest.skipNested name depth).map (fun left => left.followedBy more fault) := by
  induction depth generalizing rest with
  | zero => exact skip_followedBy more fault hends h
  | succ depth ih =>
    rw [skipFrom_succ'] at h
    obtain ⟨inner, hinner, hleft⟩ := Option.bind_eq_some_iff.1 h
    rw [skipNested, skipNested, skip_followedBy more fault hends hinner]
    cases hskip : rest.skip name with
    | error => rfl
    | ok middle =>
      have hmiddle : middle.tokens = inner :=
        Option.some_inj.1 ((skipFrom_of_skip hskip).symm.trans hinner)
      refine @ih middle ?_ (hmiddle ▸ hleft)
      obtain ⟨passed, -, hpassed⟩ := skipFrom_split hinner
      rw [← hpassed] at hends
      refine hmiddle ▸ hends.of_append ?_
      rintro rfl
      cases hleft

/-- After an end tag a text begins without blanks. -/
theorem trim_of_nextFrom {after : Remainder} {name : List Char}
    (h : rest.nextFrom tokens = .ok (.finish name, after)) : after.trim = true := by
  induction tokens generalizing rest with
  | nil =>
    rw [nextFrom] at h
    split at h <;> cases h
  | cons token tokens ih =>
    cases token with
    | start tag =>
      rw [nextFrom] at h
      split at h <;> cases h
    | finish name =>
      cases h
      rfl
    | doctype => exact ih h
    | cdata content =>
      obtain ⟨found, -, h⟩ := exists_of_bind_ok h
      cases h
    | text raw =>
      rw [nextFrom] at h
      split at h
      · exact ih h
      · obtain ⟨found, -, h⟩ := exists_of_bind_ok h
        cases h

end Remainder

/-! ### What is seen ahead -/

/-- The tag that comes next, after blanks at most. -/
def tagAhead? : List Token → Option Tag
  | .text raw :: tokens => if raw.all Text.isBlank then tagAhead? tokens else none
  | .start tag :: _ => some tag
  | _ => none

/-- Tokens after which a reader sees the same bindings ahead: the same tag comes next, or no tag
that declares a qualifier. -/
def LookAlike (more more' : List Token) : Prop :=
  tagAhead? more = tagAhead? more' ∨
    (∀ tag, tagAhead? more = some tag → tag.Calm) ∧ ∀ tag, tagAhead? more' = some tag → tag.Calm

namespace Scope

/-- The scope once the tag that comes next has been looked at, or that there is none. -/
def seeing (scope : Scope) : Option Tag → Scope
  | some tag => (scope.enter tag).1
  | none => scope.settle

theorem settle_settle (scope : Scope) : scope.settle.settle = scope.settle := by
  obtain ⟨level, bindings, ended⟩ := scope
  cases ended <;> rfl

theorem seeing_settle (scope : Scope) (tag : Option Tag) :
    scope.settle.seeing tag = scope.seeing tag := by
  cases tag with
  | none => exact scope.settle_settle
  | some tag => rw [seeing, seeing, enter, settle_settle, ← enter]

/-- A tag that declares nothing does not change the bindings. -/
theorem bindings_seeing (scope : Scope) {tag : Option Tag}
    (h : ∀ next, tag = some next → next.Calm) :
    (scope.seeing tag).bindings = scope.settle.bindings := by
  cases tag with
  | none => rfl
  | some tag => rw [seeing, enter_eq scope (h tag rfl)]

/-- Only the bindings of a scope matter to what is marked as absent. -/
theorem marksNil_congr {scope scope' : Scope} (h : scope.bindings = scope'.bindings)
    (tag : Tag) : scope.marksNil tag = scope'.marksNil tag := by
  simp only [marksNil, isNil, lookup, h]

end Scope

namespace Remainder

variable {rest : Remainder} {more more' : List Token}

/-- The scope once the first token has been looked at. -/
def scopeAt (rest : Remainder) : Scope :=
  match rest.tokens with
  | .start tag :: _ => rest.scope.seeing (some tag)
  | _ => rest.scope.seeing none

theorem scopeAt_dropVoid (htrim : rest.trim = true) (tokens : List Token) :
    (rest.dropVoid tokens).scopeAt = rest.scope.seeing (tagAhead? tokens) := by
  induction tokens generalizing rest with
  | nil => rfl
  | cons token tokens ih =>
    cases token with
    | text raw =>
      have hvoid : rest.isVoid raw = raw.all Text.isBlank := by rw [isVoid, htrim, Bool.true_and]
      rw [dropVoid, hvoid, tagAhead?]
      split
      · rw [@ih { rest with scope := rest.scope.settle } htrim, Scope.seeing_settle]
      · rfl
    | _ => rfl

/-- Where all tokens have been read, what follows matters only if it binds something. -/
theorem marksNil_spent (htokens : rest.tokens = []) (htrim : rest.trim = true)
    (h : LookAlike more more') (fault fault' : Option SyntaxError) (tag : Tag) :
    (rest.followedBy more fault).scopeAhead.marksNil tag =
      (rest.followedBy more' fault').scopeAhead.marksNil tag := by
  have hahead (more : List Token) (fault : Option SyntaxError) :
      (rest.followedBy more fault).scopeAhead = rest.scope.seeing (tagAhead? more) := by
    rw [followedBy, htokens, List.nil_append]
    exact @scopeAt_dropVoid { rest with tokens := more, fault } htrim more
  rw [hahead, hahead]
  obtain hsame | ⟨hcalm, hcalm'⟩ := h
  · rw [hsame]
  · apply Scope.marksNil_congr
    rw [Scope.bindings_seeing _ hcalm, Scope.bindings_seeing _ hcalm']

end Remainder

/-! ### Sources -/

/-- Marks that close the innermost of some elements leave it. -/
theorem leaving_of_nest {opened names : List (List Char)} {name : List Char} {marks : List Mark}
    (h : nest (opened ++ name :: names) marks = some []) :
    ∃ left, leaving (fun _ => true) opened.length marks = some left := by
  induction marks generalizing opened with
  | nil =>
    have hopen := Option.some_inj.1 h
    simp at hopen
  | cons mark marks ih =>
    cases mark with
    | start tag => exact @ih (tag.name :: opened) ((nest_start _ _ _).symm.trans h)
    | finish found =>
      obtain ⟨others, hothers, h⟩ := nest_finish h
      cases opened with
      | nil => exact ⟨marks, rfl⟩
      | cons first opened =>
        obtain ⟨-, rfl⟩ := List.cons.inj hothers
        exact ih h

namespace Source

/-- A source whose document goes on with other tokens and another fault. -/
def followedBy (source : Source) (more : List Token) (fault : Option SyntaxError) : Source :=
  { source with unread := source.unread.followedBy more fault }

/-- Reading goes on from one source to another: what is to be read again is not over, or it is and
tokens have been read. -/
def Onward (source after : Source) : Prop :=
  after.unread = source.unread ∧ after.replay <:+ source.replay ∨
    after.replay = [] ∧ after.unread.tokens <:+ source.unread.tokens

/-- All tokens have been read, which leaves what is to be read again. -/
def Spent (source : Source) : Prop :=
  source.unread.tokens = []

/-- A source that begins inside of elements of these names, the innermost first, and ends with the
end tag of the last one. -/
structure Inside (source : Source) (names : List (List Char)) : Prop where
  nested : nest names source.marks = some []
  ends : source.Spent ∧ source.unread.trim = true ∨ EndsInTag source.unread.tokens

variable {source middle after : Source} {name : List Char} {names : List (List Char)}

theorem Onward.trans (h : Onward source middle) (h' : Onward middle after) :
    Onward source after := by
  obtain ⟨hunread, hreplay⟩ | ⟨hreplay, htokens⟩ := h
  · obtain ⟨hunread', hreplay'⟩ | ⟨hreplay', htokens'⟩ := h'
    · exact .inl ⟨hunread'.trans hunread, hreplay'.trans hreplay⟩
    · exact .inr ⟨hreplay', hunread ▸ htokens'⟩
  · obtain ⟨hunread', hreplay'⟩ | ⟨hreplay', htokens'⟩ := h'
    · rw [hreplay, List.suffix_nil] at hreplay'
      exact .inr ⟨hreplay', hunread' ▸ htokens⟩
    · exact .inr ⟨hreplay', htokens'.trans htokens⟩

theorem onward_of_next {item : Item} (h : source.next = .ok (item, after)) :
    Onward source after := by
  obtain ⟨replay, unread⟩ := source
  cases replay with
  | cons first replay =>
    cases h
    exact .inl ⟨rfl, List.suffix_cons _ _⟩
  | nil =>
    obtain ⟨⟨item, unread'⟩, hnext, h⟩ := exists_of_bind_ok h
    cases h
    obtain ⟨passed, hpassed, -⟩ := Remainder.nextFrom_split hnext
    exact .inr ⟨rfl, passed, hpassed.symm⟩

theorem onward_of_skip (h : source.skip name = .ok after) : Onward source after := by
  obtain ⟨replay, unread⟩ := source
  have hskip {depth : Nat} {replay : List Item}
      (h : skipFrom unread name depth replay = .ok after) : Onward ⟨replay, unread⟩ after := by
    induction replay generalizing depth with
    | nil =>
      obtain ⟨left, hleft, h⟩ := exists_of_bind_ok h
      cases h
      obtain ⟨passed, -, hpassed⟩ :=
        Remainder.skipFrom_split (Remainder.skipFrom_of_skipNested hleft)
      exact .inr ⟨rfl, passed, hpassed⟩
    | cons item replay ih =>
      have hfirst : Onward ⟨item :: replay, unread⟩ ⟨replay, unread⟩ :=
        .inl ⟨rfl, List.suffix_cons _ _⟩
      cases item with
      | start tag =>
        simp only [skipFrom] at h
        split at h <;> exact hfirst.trans (ih h)
      | finish found =>
        simp only [skipFrom] at h
        split at h
        · cases depth with
          | zero =>
            cases h
            exact hfirst
          | succ depth => exact hfirst.trans (ih h)
        · exact hfirst.trans (ih h)
      | _ => exact hfirst.trans (ih h)
  exact hskip h

theorem Taken.onward {depth : Nat} {items : List Item}
    (h : Taken name depth source items after) : Onward source after := by
  induction h with
  | last first => exact onward_of_next first
  | text first _ ih => exact (onward_of_next first).trans ih
  | mark first _ _ ih => exact (onward_of_next first).trans ih

/-- The next item does not depend on what follows, if it is not the last one. -/
theorem exists_next_of {more : List Token} {fault : Option SyntaxError} {item : Item}
    (ends : source.replay = [] → EndsInTag source.unread.tokens)
    (hnext : (source.followedBy more fault).next = .ok (item, after)) :
    ∃ left, after = left.followedBy more fault ∧ source.next = .ok (item, left) ∧
      ∀ more fault, (source.followedBy more fault).next =
        .ok (item, left.followedBy more fault) := by
  obtain ⟨replay, unread⟩ := source
  cases replay with
  | cons first replay =>
    cases hnext
    exact ⟨⟨replay, unread⟩, rfl, rfl, fun _ _ => rfl⟩
  | nil =>
    have hread (more : List Token) (fault : Option SyntaxError) :
        (unread.followedBy more fault).next =
          unread.next.map (fun found => (found.1, found.2.followedBy more fault)) :=
      unread.nextFrom_followedBy more fault (ends rfl)
    obtain ⟨⟨item, rest⟩, hfound, hnext⟩ := exists_of_bind_ok hnext
    cases hnext
    obtain ⟨⟨item, left⟩, hleft, hfound⟩ := exists_of_map_ok ((hread more fault).symm.trans hfound)
    cases hfound
    refine ⟨⟨[], left⟩, rfl, by rw [next, hleft]; rfl, fun more fault => ?_⟩
    simp only [followedBy, next, hread, hleft]
    rfl

namespace Inside

variable {outer : List Char} {outers : List (List Char)} {more : List Token}
  {fault : Option SyntaxError}

/-- As long as some element is open, tokens come to their end only together with what is to be read
again. -/
theorem onward (h : source.Inside names) (h' : Onward source after)
    (nested : nest (outer :: outers) after.marks = some []) :
    after.Inside (outer :: outers) ∧ (after.Spent → source.Spent) := by
  obtain ⟨hunread, -⟩ | ⟨hreplay, passed, hpassed⟩ := h'
  · exact ⟨⟨nested, by rw [Spent, hunread]; exact h.ends⟩, by rw [Spent, hunread]; exact id⟩
  · have hspent : ¬ after.Spent := by
      intro hspent
      rw [marks, hreplay, hspent] at nested
      cases nested
    refine ⟨⟨nested, .inr ?_⟩, fun h => absurd h hspent⟩
    obtain ⟨hempty, -⟩ | hends := h.ends
    · rw [Spent, ← hpassed, List.append_eq_nil_iff] at hempty
      exact absurd hempty.2 hspent
    · rw [← hpassed] at hends
      exact hends.of_append hspent

theorem next_text (h : source.Inside (outer :: outers)) {content : List Char}
    (hnext : source.next = .ok (.text content, after)) :
    after.Inside (outer :: outers) ∧ (after.Spent → source.Spent) := by
  have hmarks : source.marks = after.marks := (next_marks hnext).1
  exact h.onward (onward_of_next hnext) (hmarks ▸ h.nested)

theorem next_start (h : source.Inside names) {tag : Tag}
    (hnext : source.next = .ok (.start tag, after)) :
    after.Inside (tag.name :: names) ∧ (after.Spent → source.Spent) := by
  have hmarks : source.marks = .start tag :: after.marks := (next_marks hnext).1
  exact h.onward (onward_of_next hnext) ((nest_start _ _ _).symm.trans (hmarks ▸ h.nested))

/-- The end tag of the last element may be the last token. -/
theorem next_finish (h : source.Inside (outer :: outers)) {found : List Char}
    (hnext : source.next = .ok (.finish found, after)) :
    found = outer ∧ after.Inside outers ∧ (after.Spent → source.Spent ∨ outers = []) := by
  have hmarks : source.marks = .finish found :: after.marks := (next_marks hnext).1
  obtain ⟨others, hothers, hnested⟩ := nest_finish (hmarks ▸ h.nested)
  obtain ⟨rfl, rfl⟩ := List.cons.inj hothers
  cases outers with
  | cons outer outers =>
    obtain ⟨hafter, hspent⟩ := h.onward (onward_of_next hnext) hnested
    exact ⟨rfl, hafter, fun h => .inl (hspent h)⟩
  | nil =>
    refine ⟨rfl, ⟨hnested, ?_⟩, fun _ => .inr rfl⟩
    by_cases hspent : after.Spent
    · left
      refine ⟨hspent, ?_⟩
      obtain ⟨replay, unread⟩ := source
      cases replay with
      | cons first replay =>
        cases hnext
        obtain ⟨-, htrim⟩ | hends := h.ends
        · exact htrim
        · exact absurd hspent hends.ne_nil
      | nil =>
        obtain ⟨⟨item, unread'⟩, hread, hnext⟩ := exists_of_bind_ok hnext
        cases hnext
        exact Remainder.trim_of_nextFrom hread
    · right
      obtain ⟨hunread, -⟩ | ⟨-, passed, hpassed⟩ := onward_of_next hnext
      · rw [Spent, hunread] at hspent
        exact hunread ▸ h.ends.resolve_left fun h => hspent h.1
      · have hends := h.ends.resolve_left fun h => by
          rw [Spent, ← hpassed, List.append_eq_nil_iff] at h
          exact hspent h.1.2
        rw [← hpassed] at hends
        exact hends.of_append hspent

theorem skip_followedBy (h : source.Inside (name :: names)) (more : List Token)
    (fault : Option SyntaxError) :
    (source.followedBy more fault).skip name =
      (source.skip name).map (fun left => left.followedBy more fault) := by
  obtain ⟨left, hleft⟩ := @leaving_of_nest [] _ _ _ h.nested
  rw [← @leaving_eq _ _ _ _ [] h.nested, List.count_nil] at hleft
  obtain ⟨replay, unread⟩ := source
  have hends := h.ends
  have hskip {depth : Nat} {replay : List Item}
      (h : leaving (· == name) depth (itemMarks replay ++ tokenMarks unread.tokens) = some left) :
      skipFrom (unread.followedBy more fault) name depth replay =
        (skipFrom unread name depth replay).map (fun left => left.followedBy more fault) := by
    induction replay generalizing depth with
    | nil =>
      rw [show itemMarks [] ++ tokenMarks unread.tokens = tokenMarks unread.tokens from rfl,
        Remainder.leaving_tokenMarks] at h
      obtain ⟨tokens, htokens, -⟩ := Option.map_eq_some_iff.1 h
      have hends : EndsInTag unread.tokens := hends.resolve_left fun hspent => by
        rw [show unread.tokens = [] from hspent.1] at htokens
        cases htokens
      simp only [skipFrom, Remainder.skipNested_followedBy more fault hends htokens]
      cases unread.skipNested name depth <;> rfl
    | cons item replay ih =>
      rw [itemMarks_cons, List.append_assoc] at h
      cases item with
      | start tag =>
        simp only [Item.mark?, Option.toList_some, List.singleton_append, leaving] at h
        simp only [skipFrom]
        split
        · next hname => exact ih (by simpa [hname] using h)
        · next hname => exact ih (by simpa [hname] using h)
      | finish found =>
        simp only [Item.mark?, Option.toList_some, List.singleton_append, leaving] at h
        simp only [skipFrom]
        split
        · next hname =>
          rw [if_pos hname] at h
          cases depth with
          | zero => rfl
          | succ depth => exact ih h
        · next hname => exact ih (by simpa [hname] using h)
      | _ => exact ih h
  exact hskip hleft

/-- The next item does not depend on what follows. -/
theorem exists_next (h : source.Inside (outer :: outers)) {item : Item}
    (hnext : (source.followedBy more fault).next = .ok (item, after)) :
    ∃ left, after = left.followedBy more fault ∧ source.next = .ok (item, left) ∧
      ∀ more fault, (source.followedBy more fault).next =
        .ok (item, left.followedBy more fault) := by
  refine exists_next_of (fun hreplay => h.ends.resolve_left fun hspent => ?_) hnext
  have hnested := h.nested
  rw [marks, hreplay, hspent.1] at hnested
  cases hnested

/-- What is left after an element that is passed over does not depend on what follows. -/
theorem exists_skip (h : source.Inside (name :: names))
    (hskip : (source.followedBy more fault).skip name = .ok after) :
    ∃ left, after = left.followedBy more fault ∧ source.skip name = .ok left ∧
      ∀ more fault, (source.followedBy more fault).skip name =
        .ok (left.followedBy more fault) := by
  rw [h.skip_followedBy] at hskip
  obtain ⟨left, hleft, rfl⟩ := exists_of_map_ok hskip
  exact ⟨left, rfl, hleft, fun more fault => by rw [h.skip_followedBy, hleft]; rfl⟩

/-- An element that is passed over leaves the one around it open. -/
theorem skip (h : source.Inside (name :: outer :: outers)) (hskip : source.skip name = .ok after) :
    after.Inside (outer :: outers) ∧ (after.Spent → source.Spent) :=
  h.onward (onward_of_skip hskip) (nest_of_afterEnd h.nested (afterEnd_of_skip h.nested hskip))

/-- What is set aside does not depend on what follows. -/
theorem exists_taken (opened : List (List Char)) (h : source.Inside (opened ++ name :: names))
    {items : List Item}
    (taken : Taken name (opened.count name) (source.followedBy more fault) items after) :
    ∃ left, after = left.followedBy more fault ∧
      Taken name (opened.count name) source items left ∧
      ∀ more fault, Taken name (opened.count name) (source.followedBy more fault) items
        (left.followedBy more fault) := by
  generalize hdepth : opened.count name = depth at taken ⊢
  generalize hsource : source.followedBy more fault = origin at taken
  induction taken generalizing source opened with
  | last first =>
    subst hsource
    obtain ⟨outer, outers, hnames⟩ :=
      List.exists_cons_of_ne_nil (l := opened ++ name :: names) (by simp)
    obtain ⟨left, rfl, hnext, hall⟩ := (hnames ▸ h).exists_next first
    exact ⟨left, rfl, .last hnext, fun more fault => .last (hall more fault)⟩
  | text first _ ih =>
    subst hsource
    obtain ⟨outer, outers, hnames⟩ :=
      List.exists_cons_of_ne_nil (l := opened ++ name :: names) (by simp)
    obtain ⟨middle, rfl, hnext, hall⟩ := (hnames ▸ h).exists_next first
    obtain ⟨left, rfl, htaken, hrest⟩ :=
      @ih middle opened (hnames ▸ ((hnames ▸ h).next_text hnext).1) hdepth rfl
    exact ⟨left, rfl, .text hnext htaken, fun more fault => .text (hall more fault) (hrest _ _)⟩
  | @mark depth level _ _ _ mark items first step _ ih =>
    subst hsource
    obtain ⟨outer, outers, hnames⟩ :=
      List.exists_cons_of_ne_nil (l := opened ++ name :: names) (by simp)
    obtain ⟨middle, rfl, hnext, hall⟩ := (hnames ▸ h).exists_next first
    obtain ⟨opened', hlevel, hmiddle⟩ : ∃ opened' : List (List Char),
        opened'.count name = level ∧ middle.Inside (opened' ++ name :: names) := by
      cases mark with
      | start tag =>
        refine ⟨tag.name :: opened, ?_, (h.next_start hnext).1⟩
        cases step
        rw [List.count_cons, hdepth]
        split <;> rfl
      | finish found =>
        rw [hnames] at h
        obtain ⟨rfl, hmiddle, -⟩ := h.next_finish hnext
        cases opened with
        | nil =>
          obtain ⟨rfl, rfl⟩ := List.cons.inj hnames
          subst hdepth
          simp [levelStep] at step
        | cons innermost opened =>
          obtain ⟨rfl, rfl⟩ := List.cons.inj hnames
          refine ⟨opened, ?_, hmiddle⟩
          subst hdepth
          by_cases hname : innermost = name <;>
            simpa [levelStep, List.count_cons, hname] using step
    obtain ⟨left, rfl, htaken, hrest⟩ := @ih middle opened' hmiddle hlevel rfl
    exact ⟨left, rfl, .mark hnext step htaken,
      fun more fault => .mark (hall more fault) step (hrest _ _)⟩

end Inside

end Source

end UpdateProtocol.Markup

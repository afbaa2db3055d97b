import UpdateProtocol.Proofs.Markup.Nesting

/-!
# What reading takes away

Every operation of a source takes some of its tokens and items away from the front.  What matters
about these is how many they are and which of them are marks, that is, begin or end an element:
an item takes its own mark (`Source.next_marks`), and passing over an element takes the marks up to
its end (`Source.skip_marks`).
-/

namespace UpdateProtocol

/-- Steps that follow each other give a result only if each of them does. -/
theorem exists_of_bind_ok {ε α β : Type} {x : Except ε α} {f : α → Except ε β} {b : β}
    (h : (x >>= f) = .ok b) : ∃ a, x = .ok a ∧ f a = .ok b := by
  cases x with
  | error => cases h
  | ok a => exact ⟨a, rfl, h⟩

theorem exists_of_map_ok {ε α β : Type} {x : Except ε α} {f : α → β} {b : β}
    (h : x.map f = .ok b) : ∃ a, x = .ok a ∧ f a = b := by
  cases x with
  | error => cases h
  | ok a =>
    cases h
    exact ⟨a, rfl, rfl⟩

namespace Markup

/-- The mark that a token is. -/
def Token.mark? : Token → Option Mark
  | .start tag => some (.start tag)
  | .finish name => some (.finish name)
  | _ => none

/-- The mark that an item is. -/
def Item.mark? : Item → Option Mark
  | .start tag => some (.start tag)
  | .finish name => some (.finish name)
  | _ => none

/-- The marks among some tokens. -/
def tokenMarks (tokens : List Token) : List Mark :=
  tokens.filterMap Token.mark?

/-- The marks among some items. -/
def itemMarks (items : List Item) : List Mark :=
  items.filterMap Item.mark?

/-- The marks that a source still gives. -/
def Source.marks (source : Source) : List Mark :=
  itemMarks source.replay ++ tokenMarks source.unread.tokens

theorem tokenMarks_append (tokens more : List Token) :
    tokenMarks (tokens ++ more) = tokenMarks tokens ++ tokenMarks more :=
  List.filterMap_append

theorem itemMarks_append (items more : List Item) :
    itemMarks (items ++ more) = itemMarks items ++ itemMarks more :=
  List.filterMap_append

theorem itemMarks_cons (item : Item) (items : List Item) :
    itemMarks (item :: items) = item.mark?.toList ++ itemMarks items := by
  rw [itemMarks, List.filterMap_cons]
  cases item.mark? <;> rfl

/-! ### Leaving an element -/

/-- What stands after the end of an element, `depth` elements inside it being open, when only
elements of some names are counted. -/
def leaving (counts : List Char → Bool) : Nat → List Mark → Option (List Mark)
  | _, [] => none
  | depth, .start tag :: marks =>
      leaving counts (if counts tag.name then depth + 1 else depth) marks
  | depth, .finish name :: marks =>
      if counts name then
        match depth with
        | 0 => some marks
        | depth + 1 => leaving counts depth marks
      else leaving counts depth marks

theorem leaving_append {counts : List Char → Bool} {depth : Nat} {marks left : List Mark}
    (h : leaving counts depth marks = some left) (more : List Mark) :
    leaving counts depth (marks ++ more) = some (left ++ more) := by
  induction marks generalizing depth with
  | nil => cases h
  | cons mark marks ih =>
    cases mark with
    | start tag => exact ih h
    | finish name =>
      simp only [leaving, List.cons_append] at h ⊢
      split at h
      · next hname =>
        rw [if_pos hname]
        cases depth with
        | zero =>
          cases h
          rfl
        | succ depth => exact ih h
      · next hname =>
        rw [if_neg hname]
        exact ih h

theorem leaving_mark {name : List Char} {depth level : Nat} {mark : Mark}
    (h : levelStep name depth mark = some level) (marks : List Mark) :
    leaving (· == name) depth (mark :: marks) = leaving (· == name) level marks := by
  cases mark with
  | start tag =>
    cases h
    rfl
  | finish found =>
    simp only [levelStep] at h
    simp only [leaving]
    split at h
    · next hfound =>
      rw [if_pos hfound]
      cases depth with
      | zero => cases h
      | succ depth => rw [Option.some_inj.1 h]
    · next hfound => rw [if_neg hfound, Option.some_inj.1 h]

/-! ### The next item -/

theorem readText_split {collected : List Char} {tokens left : List Token} {content : List Char}
    (h : readText collected tokens = .ok (content, left)) :
    ∃ passed, tokens = passed ++ left ∧ tokenMarks passed = [] ∧
      (textFollows tokens = true → passed ≠ []) := by
  induction tokens generalizing collected with
  | nil =>
    cases h
    exact ⟨[], rfl, rfl, fun e => nomatch e⟩
  | cons token tokens ih =>
    cases token with
    | text raw =>
      obtain ⟨resolved, -, h⟩ := exists_of_bind_ok h
      obtain ⟨passed, rfl, hmarks, -⟩ := ih h
      exact ⟨.text raw :: passed, rfl, hmarks, by simp⟩
    | cdata content =>
      obtain ⟨passed, rfl, hmarks, -⟩ := ih h
      exact ⟨.cdata content :: passed, rfl, hmarks, by simp⟩
    | _ =>
      cases h
      exact ⟨[], rfl, rfl, fun e => nomatch e⟩

namespace Remainder

/-- An item is read from the first tokens.  There may be none of them only at the end. -/
theorem nextFrom_split {rest after : Remainder} {tokens : List Token} {item : Item}
    (h : rest.nextFrom tokens = .ok (item, after)) :
    ∃ passed, tokens = passed ++ after.tokens ∧ tokenMarks passed = item.mark?.toList ∧
      after.fault = rest.fault ∧ (passed ≠ [] ∧ item ≠ .eof ∨
        item = .eof ∧ after.tokens = [] ∧ after.fault = none) := by
  induction tokens generalizing rest with
  | nil =>
    rw [nextFrom] at h
    split at h
    · cases h
    · next hfault =>
      cases h
      exact ⟨[], rfl, rfl, rfl, .inr ⟨rfl, rfl, hfault⟩⟩
  | cons token tokens ih =>
    cases token with
    | start tag =>
      rw [nextFrom] at h
      split at h
      · cases h
        exact ⟨[.start tag], rfl, rfl, rfl, .inl ⟨by simp, by simp⟩⟩
      · cases h
    | finish name =>
      cases h
      exact ⟨[.finish name], rfl, rfl, rfl, .inl ⟨by simp, by simp⟩⟩
    | doctype =>
      obtain ⟨passed, hpassed, hmarks, hfault, hend⟩ := ih h
      refine ⟨.doctype :: passed, by rw [hpassed]; rfl, hmarks, hfault, hend.imp_left fun h => ?_⟩
      exact ⟨by simp, h.2⟩
    | cdata content =>
      obtain ⟨found, hread, h⟩ := exists_of_bind_ok h
      cases h
      obtain ⟨passed, hpassed, hmarks, -⟩ := readText_split hread
      exact ⟨.cdata content :: passed, by rw [hpassed]; rfl, hmarks, rfl, .inl ⟨by simp, by simp⟩⟩
    | text raw =>
      rw [nextFrom] at h
      split at h
      · obtain ⟨passed, hpassed, hmarks, hfault, hend⟩ := ih h
        refine ⟨.text raw :: passed, by rw [hpassed]; rfl, hmarks, hfault,
          hend.imp_left fun h => ?_⟩
        exact ⟨by simp, h.2⟩
      · obtain ⟨found, hread, h⟩ := exists_of_bind_ok h
        cases h
        obtain ⟨passed, hpassed, hmarks, hne⟩ := readText_split hread
        obtain ⟨first, passed, rfl⟩ := List.exists_cons_of_ne_nil (hne rfl)
        obtain ⟨rfl, htokens⟩ := List.cons.inj hpassed
        exact ⟨.text raw :: passed, by rw [htokens]; rfl, hmarks, rfl, .inl ⟨by simp, by simp⟩⟩

/-! ### Passing over an element -/

theorem leaving_tokenMarks (name : List Char) (depth : Nat) (tokens : List Token) :
    leaving (· == name) depth (tokenMarks tokens) =
      (skipFrom name depth tokens).map tokenMarks := by
  induction tokens generalizing depth with
  | nil => rfl
  | cons token tokens ih =>
    cases token with
    | start tag =>
      have hmarks : tokenMarks (.start tag :: tokens) = .start tag :: tokenMarks tokens := rfl
      simp only [hmarks, leaving, ih, skipFrom]
      split <;> rfl
    | finish found =>
      have hmarks : tokenMarks (.finish found :: tokens) = .finish found :: tokenMarks tokens := rfl
      simp only [hmarks, leaving, skipFrom]
      split
      · cases depth with
        | zero => rfl
        | succ depth => exact ih depth
      · exact ih depth
    | _ => exact ih depth

theorem length_of_skipFrom {name : List Char} {depth : Nat} {tokens left : List Token}
    (h : skipFrom name depth tokens = some left) : left.length ≤ tokens.length := by
  induction tokens generalizing depth with
  | nil => cases h
  | cons token tokens ih =>
    apply Nat.le_succ_of_le
    cases token with
    | start tag =>
      simp only [skipFrom] at h
      split at h <;> exact ih h
    | finish found =>
      simp only [skipFrom] at h
      split at h
      · cases depth with
        | zero =>
          cases h
          exact Nat.le_refl _
        | succ depth => exact ih h
      · exact ih h
    | _ => exact ih h

/-- Elements of one name are closed one after the other, the innermost first. -/
theorem skipFrom_succ' (name : List Char) (depth : Nat) (tokens : List Token) :
    skipFrom name (depth + 1) tokens = (skipFrom name 0 tokens).bind (skipFrom name depth) := by
  induction depth with
  | zero => exact skipFrom_succ name 0 tokens
  | succ depth ih =>
    rw [skipFrom_succ, ih, Option.bind_assoc]
    exact congrArg _ (funext fun left => (skipFrom_succ name depth left).symm)

theorem skipFrom_dropVoid (rest : Remainder) (name : List Char) (depth : Nat)
    (tokens : List Token) :
    skipFrom name depth (rest.dropVoid tokens).tokens = skipFrom name depth tokens := by
  induction tokens generalizing rest with
  | nil => rfl
  | cons token tokens ih =>
    cases token with
    | text raw =>
      rw [dropVoid]
      split
      · exact ih _
      · rfl
    | _ => rfl

theorem skipFrom_of_skipTokens {rest left : Remainder} {name : List Char} {tokens : List Token}
    (h : rest.skipTokens name tokens = .ok left) : skipFrom name 0 tokens = some left.tokens := by
  rw [skipTokens] at h
  split at h
  · next found hfound =>
    cases h
    exact hfound
  · cases h

/-- However the first token is looked at, passing over an element ends where the element does. -/
theorem skipFrom_of_skip {rest left : Remainder} {name : List Char}
    (h : rest.skip name = .ok left) : skipFrom name 0 rest.tokens = some left.tokens := by
  rw [← rest.skipFrom_dropVoid]
  simp only [skip] at h
  cases htokens : (rest.dropVoid rest.tokens).tokens with
  | nil =>
    rw [htokens] at h
    cases h
  | cons token tokens =>
    rw [htokens] at h
    cases token with
    | text raw => exact skipFrom_of_skipTokens h
    | cdata content => exact skipFrom_of_skipTokens h
    | doctype => exact skipFrom_of_skipTokens h
    | finish found =>
      simp only [skipFrom] at h ⊢
      split at h
      · next hname =>
        cases h
        rw [if_pos hname]
      · next hname =>
        rw [if_neg hname]
        exact skipFrom_of_skipTokens h
    | start tag =>
      simp only [skipFrom] at h ⊢
      split at h
      · cases h
      · obtain ⟨inner, hinner, h⟩ := exists_of_bind_ok h
        split at h
        · next hname =>
          rw [if_pos hname, skipFrom_succ, skipFrom_of_skipTokens hinner]
          exact skipFrom_of_skipTokens h
        · next hname =>
          cases h
          rw [if_neg hname]
          exact skipFrom_of_skipTokens hinner

theorem skipFrom_of_skipNested {rest left : Remainder} {name : List Char} {depth : Nat}
    (h : rest.skipNested name depth = .ok left) :
    skipFrom name depth rest.tokens = some left.tokens := by
  induction depth generalizing rest with
  | zero => exact skipFrom_of_skip h
  | succ depth ih =>
    obtain ⟨inner, hinner, h⟩ := exists_of_bind_ok h
    rw [skipFrom_succ', skipFrom_of_skip hinner]
    exact ih h

end Remainder

namespace Source

variable {source after : Source}

/-- The end of the document is not among the items to read again. -/
def Proper (source : Source) : Prop :=
  .eof ∉ source.replay

/-- Nothing is left to read. -/
structure Ended (source : Source) : Prop where
  replay_eq : source.replay = []
  tokens_eq : source.unread.tokens = []
  fault_eq : source.unread.fault = none

/-- An item takes its own mark and makes the source smaller, unless it is the end. -/
theorem next_marks {item : Item} (h : source.next = .ok (item, after)) :
    source.marks = item.mark?.toList ++ after.marks ∧ (item ≠ .eof → after.size < source.size) ∧
      after.replay ⊆ source.replay := by
  obtain ⟨replay, unread⟩ := source
  cases replay with
  | cons first replay =>
    cases h
    refine ⟨?_, fun _ => ?_, List.subset_cons_self _ _⟩
    · rw [marks, itemMarks_cons, List.append_assoc, marks]
    · simp only [size, List.length_cons]
      omega
  | nil =>
    obtain ⟨⟨item, unread'⟩, hfound, h⟩ := exists_of_bind_ok h
    cases h
    obtain ⟨passed, hpassed, hmarks, -, hend⟩ := Remainder.nextFrom_split hfound
    simp only at hpassed
    refine ⟨?_, fun hitem => ?_, List.Subset.refl _⟩
    · rw [marks, hpassed, tokenMarks_append, hmarks]
      rfl
    · obtain ⟨hne, -⟩ | ⟨hitem', -⟩ := hend
      · have hpos := List.length_pos_iff.2 hne
        simp only [size, hpassed, List.length_append]
        omega
      · exact absurd hitem' hitem

theorem Proper.next (h : source.Proper) {item : Item} (hnext : source.next = .ok (item, after)) :
    after.Proper :=
  fun hmem => h ((next_marks hnext).2.2 hmem)

theorem Proper.ended (h : source.Proper) (hnext : source.next = .ok (.eof, after)) :
    after.Ended := by
  obtain ⟨replay, unread⟩ := source
  cases replay with
  | cons first replay =>
    cases hnext
    exact absurd List.mem_cons_self h
  | nil =>
    obtain ⟨⟨item, unread'⟩, hfound, hnext⟩ := exists_of_bind_ok hnext
    cases hnext
    obtain ⟨passed, -, -, -, ⟨-, hitem⟩ | ⟨-, htokens, hfault⟩⟩ := Remainder.nextFrom_split hfound
    · exact absurd rfl hitem
    · exact ⟨rfl, htokens, hfault⟩

theorem Ended.next (h : source.Ended) : ∃ after, source.next = .ok (.eof, after) := by
  obtain ⟨replay, tokens, fault, trim, scope⟩ := source
  obtain ⟨hreplay, htokens, hfault⟩ := h
  cases hreplay
  cases htokens
  cases hfault
  exact ⟨_, rfl⟩

theorem skipFrom_marks {unread : Remainder} {name : List Char} {depth : Nat} {replay : List Item}
    (h : skipFrom unread name depth replay = .ok after) :
    leaving (· == name) depth (itemMarks replay ++ tokenMarks unread.tokens) = some after.marks ∧
      after.size ≤ size ⟨replay, unread⟩ ∧ after.replay ⊆ replay := by
  induction replay generalizing depth with
  | nil =>
    obtain ⟨left, hleft, h⟩ := exists_of_bind_ok h
    cases h
    have hskip := Remainder.skipFrom_of_skipNested hleft
    refine ⟨?_, ?_, List.Subset.refl _⟩
    · exact (Remainder.leaving_tokenMarks name depth unread.tokens).trans (by rw [hskip]; rfl)
    · have := Remainder.length_of_skipFrom hskip
      simp only [size]
      omega
  | cons item replay ih =>
    have hsize : size ⟨item :: replay, unread⟩ = size ⟨replay, unread⟩ + 1 := by
      simp only [size, List.length_cons]
      omega
    have hstep {next : Nat} (h : skipFrom unread name next replay = .ok after) :
        leaving (· == name) next (itemMarks replay ++ tokenMarks unread.tokens) =
            some after.marks ∧ after.size ≤ size ⟨item :: replay, unread⟩ ∧
          after.replay ⊆ item :: replay := by
      obtain ⟨hmarks, hle, hsubset⟩ := ih h
      exact ⟨hmarks, by omega, List.subset_cons_of_subset _ hsubset⟩
    cases item with
    | start tag =>
      rw [itemMarks_cons, List.append_assoc]
      simp only [skipFrom] at h
      split at h
      · next hname =>
        have hle := hstep h
        simpa [Item.mark?, leaving, hname] using hle
      · next hname =>
        have hle := hstep h
        simpa [Item.mark?, leaving, hname] using hle
    | finish found =>
      rw [itemMarks_cons, List.append_assoc]
      simp only [skipFrom] at h
      split at h
      · next hname =>
        cases depth with
        | zero =>
          cases h
          refine ⟨?_, by omega, List.subset_cons_self _ _⟩
          simp [Item.mark?, leaving, hname, marks]
        | succ depth =>
          have hle := hstep h
          simpa [Item.mark?, leaving, hname] using hle
      · next hname =>
        have hle := hstep h
        simpa [Item.mark?, leaving, hname] using hle
    | _ => exact hstep h

/-- Passing over an element takes the marks up to its end. -/
theorem skip_marks {name : List Char} (h : source.skip name = .ok after) :
    leaving (· == name) 0 source.marks = some after.marks ∧ after.size ≤ source.size ∧
      after.replay ⊆ source.replay :=
  skipFrom_marks h

end Source

end Markup

end UpdateProtocol

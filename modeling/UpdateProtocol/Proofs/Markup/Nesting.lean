import UpdateProtocol.Proofs.Markup.Stream

/-!
# Passing over elements

An element is passed over, or set aside, by counting the marks of its own name.  Within a node the
count comes back to where it was (`Node.levelAfter_pieces`), so each way of counting stops at the
end tag of the element and nowhere before: over tokens, over items that are read again, and over
items that are being set aside.
-/

namespace UpdateProtocol.Markup

/-- The number of open elements of a name after a mark, unless it is the end of the first. -/
def levelStep (name : List Char) (depth : Nat) : Mark → Option Nat
  | .start tag => some (if tag.name == name then depth + 1 else depth)
  | .finish found =>
      if found == name then
        match depth with
        | 0 => none
        | depth + 1 => some depth
      else some depth

/-- The number of open elements of a name after some marks. -/
def levelAfter (name : List Char) (depth : Nat) (marks : List Mark) : Option Nat :=
  marks.foldlM (levelStep name) depth

theorem levelAfter_cons (name : List Char) (depth : Nat) (mark : Mark) (marks : List Mark) :
    levelAfter name depth (mark :: marks) =
      (levelStep name depth mark).bind (fun depth => levelAfter name depth marks) :=
  List.foldlM_cons

theorem levelAfter_append (name : List Char) (depth : Nat) (marks more : List Mark) :
    levelAfter name depth (marks ++ more) =
      (levelAfter name depth marks).bind (fun depth => levelAfter name depth more) :=
  List.foldlM_append

/-- The marks of some pieces. -/
def marks (pieces : List Piece) : List Mark :=
  pieces.map Piece.mark

theorem levelAfter_piecesAll (name : List Char) (depth : Nat) (nodes : List Node)
    (h : ∀ node ∈ nodes, ∀ depth, levelAfter name depth (marks node.pieces) = some depth) :
    levelAfter name depth (marks (Node.piecesAll nodes)) = some depth := by
  induction nodes with
  | nil => rfl
  | cons node nodes ih =>
    obtain ⟨hnode, hnodes⟩ := List.forall_mem_cons.1 h
    have hmarks : marks (Node.piecesAll (node :: nodes)) =
        marks node.pieces ++ marks (Node.piecesAll nodes) := by
      rw [Node.piecesAll_cons, marks, List.map_append, marks, marks]
    rw [hmarks, levelAfter_append, hnode depth]
    exact ih hnodes

theorem Node.name_tag (node : Node) : node.tag.tag.name = node.name :=
  node.tag.name_tag

/-- Every element that a node opens it closes again. -/
theorem Node.levelAfter_pieces (name : List Char) (node : Node) :
    ∀ depth, levelAfter name depth (marks node.pieces) = some depth := by
  induction node using Node.induct with
  | step node ih =>
    intro depth
    have hmarks : marks node.pieces = .start node.tag.tag ::
        (marks (Node.piecesAll node.children) ++ [.finish node.name]) := by
      rw [node.pieces_eq, Node.content, marks, List.map_cons, List.map_append, marks]
      rfl
    rw [hmarks, levelAfter_cons, levelStep, Option.bind_some, levelAfter_append,
      levelAfter_piecesAll name _ node.children ih, node.name_tag]
    by_cases hname : node.name = name <;> simp [levelAfter, levelStep, hname]

theorem Node.levelAfter_children (name : List Char) (node : Node) (depth : Nat) :
    levelAfter name depth (marks (piecesAll node.children)) = some depth :=
  levelAfter_piecesAll name depth node.children fun child _ => child.levelAfter_pieces name

/-! ### Tokens -/

namespace Remainder

theorem skipFrom_texts (name : List Char) (depth : Nat) (texts : List (List Char))
    (tokens : List Token) :
    skipFrom name depth (texts.map .text ++ tokens) = skipFrom name depth tokens := by
  induction texts with
  | nil => rfl
  | cons raw texts ih => exact ih

theorem skipFrom_mark {name : List Char} {depth next : Nat} {mark : Mark}
    (h : levelStep name depth mark = some next) (tokens : List Token) :
    skipFrom name depth (mark.token :: tokens) = skipFrom name next tokens := by
  cases mark with
  | start tag =>
    cases h
    simp only [Mark.token, skipFrom]
    split <;> rfl
  | finish found =>
    simp only [levelStep] at h
    simp only [Mark.token, skipFrom]
    split at h
    · next hfound =>
      rw [if_pos hfound]
      cases depth with
      | zero => cases h
      | succ depth => rw [Option.some_inj.1 h]
    · next hfound => rw [if_neg hfound, Option.some_inj.1 h]

theorem skipFrom_pieces {name : List Char} {depth after : Nat} {pieces : List Piece}
    (h : levelAfter name depth (marks pieces) = some after) (tokens : List Token) :
    skipFrom name depth (pieces.flatMap Piece.tokens ++ tokens) = skipFrom name after tokens := by
  induction pieces generalizing depth with
  | nil =>
    cases h
    rfl
  | cons piece pieces ih =>
    rw [marks, List.map_cons, levelAfter_cons] at h
    obtain ⟨next, hmark, hmarks⟩ := Option.bind_eq_some_iff.1 h
    rw [List.flatMap_cons, Piece.tokens, List.append_assoc, List.append_assoc, skipFrom_texts,
      List.singleton_append, skipFrom_mark hmark, ih hmarks]

/-- The end of an element is found where its node ends. -/
theorem skipFrom_content (node : Node) (tokens : List Token) :
    skipFrom node.name 0 (node.content.flatMap Piece.tokens ++ tokens) = some tokens := by
  rw [Node.content, List.flatMap_append, List.append_assoc,
    skipFrom_pieces (node.levelAfter_children node.name 0)]
  simp only [List.flatMap_cons, List.flatMap_nil, List.append_nil, Piece.tokens, List.append_assoc,
    skipFrom_texts]
  simp [Mark.token, skipFrom]

/-- Elements of one name are closed one after the other. -/
theorem skipFrom_succ (name : List Char) (depth : Nat) (tokens : List Token) :
    skipFrom name (depth + 1) tokens = (skipFrom name depth tokens).bind (skipFrom name 0) := by
  induction tokens generalizing depth with
  | nil => rfl
  | cons token tokens ih =>
    cases token with
    | text raw => exact ih depth
    | cdata content => exact ih depth
    | doctype => exact ih depth
    | start tag =>
      simp only [skipFrom]
      split
      · exact ih _
      · exact ih _
    | finish found =>
      simp only [skipFrom]
      split
      · cases depth with
        | zero => rfl
        | succ depth => exact ih depth
      · exact ih depth

theorem subset_of_skipFrom {name : List Char} {depth : Nat} {tokens after : List Token}
    (h : skipFrom name depth tokens = some after) : after ⊆ tokens := by
  induction tokens generalizing depth with
  | nil => cases h
  | cons token tokens ih =>
    apply List.subset_cons_of_subset token
    cases token with
    | text raw => exact ih h
    | cdata content => exact ih h
    | doctype => exact ih h
    | start tag =>
      simp only [skipFrom] at h
      split at h
      · exact ih h
      · exact ih h
    | finish found =>
      simp only [skipFrom] at h
      split at h
      · cases depth with
        | zero =>
          cases h
          exact List.Subset.refl _
        | succ depth => exact ih h
      · exact ih h

/-- Blank texts at the front may be dropped. -/
theorem dropVoid_at {rest : Remainder} {tokens : List Token}
    (hcalm : ∀ token ∈ tokens, token.Calm) (hunbound : rest.scope.bindings = []) :
    ∃ later, (rest.dropVoid tokens).At later ∧
      ∀ name, skipFrom name 0 later = skipFrom name 0 tokens := by
  induction tokens generalizing rest with
  | nil => exact ⟨[], ⟨rfl, hcalm, hunbound⟩, fun _ => rfl⟩
  | cons token tokens ih =>
    cases token with
    | text raw =>
      simp only [dropVoid]
      split
      · exact ih (List.forall_mem_cons.1 hcalm).2 (Scope.bindings_settle hunbound)
      · exact ⟨_, ⟨rfl, hcalm, hunbound⟩, fun _ => rfl⟩
    | _ => exact ⟨_, ⟨rfl, hcalm, hunbound⟩, fun _ => rfl⟩

/-- A source that looks ahead finds nothing bound. -/
theorem At.bindings_scopeAhead {rest : Remainder} {tokens : List Token} (h : rest.At tokens) :
    rest.scopeAhead.bindings = [] := by
  obtain ⟨later, hlater, -⟩ := dropVoid_at h.calm h.unbound
  have hsettle := Scope.bindings_settle hlater.unbound
  rw [scopeAhead, h.tokens_eq, hlater.tokens_eq]
  cases later with
  | nil => exact hsettle
  | cons token later =>
    cases token with
    | start tag =>
      have htag : tag.Calm := hlater.calm _ List.mem_cons_self
      simp only [Scope.enter_eq _ htag]
      exact hsettle
    | _ => exact hsettle

theorem skipTokens_eq {rest : Remainder} {name : List Char} {tokens after : List Token}
    (h : skipFrom name 0 tokens = some after) :
    rest.skipTokens name tokens = .ok { rest with tokens := after } := by
  rw [skipTokens, h]

/-- An element is passed over up to its end, whatever its first token is. -/
theorem skip_eq {rest : Remainder} {name : List Char} {tokens after : List Token}
    (hat : rest.At tokens) (h : skipFrom name 0 tokens = some after) :
    ∃ left, rest.skip name = .ok left ∧ left.At after := by
  obtain ⟨later, hlater, hsame⟩ := dropVoid_at hat.calm hat.unbound
  rw [← hsame] at h
  have hcalm : ∀ token ∈ after, token.Calm := fun token hmem =>
    hlater.calm token (subset_of_skipFrom h hmem)
  rw [skip, hat.tokens_eq]
  generalize rest.dropVoid tokens = ahead at hlater
  have hsettle := Scope.bindings_settle hlater.unbound
  simp only [hlater.tokens_eq]
  cases later with
  | nil => cases h
  | cons token later =>
    cases token with
    | text raw => exact ⟨_, skipTokens_eq h, rfl, hcalm, hsettle⟩
    | cdata content => exact ⟨_, skipTokens_eq h, rfl, hcalm, hsettle⟩
    | doctype => exact ⟨_, skipTokens_eq h, rfl, hcalm, hsettle⟩
    | finish found =>
      simp only [skipFrom] at h
      by_cases hfound : found = name
      · simp only [hfound, beq_self_eq_true, if_true, Option.some.injEq] at h ⊢
        exact ⟨_, rfl, h, hcalm, hsettle⟩
      · simp only [beq_eq_false_iff_ne.2 hfound] at h ⊢
        exact ⟨_, skipTokens_eq h, rfl, hcalm, hsettle⟩
    | start tag =>
      have htag : tag.Calm := hlater.calm _ List.mem_cons_self
      simp only [skipFrom] at h
      simp only [ahead.scope.enter_eq htag]
      by_cases hname : tag.name = name
      · simp only [hname, beq_self_eq_true, if_true] at h ⊢
        -- the inner element is closed first, then the outer one
        rw [skipFrom_succ] at h
        obtain ⟨middle, hinner, houter⟩ := Option.bind_eq_some_iff.1 h
        rw [skipTokens_eq hinner]
        exact ⟨_, skipTokens_eq houter, rfl, hcalm, hsettle⟩
      · simp only [beq_eq_false_iff_ne.2 hname] at h ⊢
        rw [skipTokens_eq h]
        exact ⟨_, rfl, rfl, hcalm, hsettle⟩

end Remainder

/-! ### Items -/

namespace Source

theorem skipFrom_text (unread : Remainder) (name : List Char) (depth : Nat) (content : List Char)
    (items : List Item) :
    skipFrom unread name depth (.text content :: items) = skipFrom unread name depth items := rfl

theorem skipFrom_mark {unread : Remainder} {name : List Char} {depth next : Nat} {mark : Mark}
    (h : levelStep name depth mark = some next) (items : List Item) :
    skipFrom unread name depth (mark.item :: items) = skipFrom unread name next items := by
  cases mark with
  | start tag =>
    cases h
    simp only [Mark.item, skipFrom]
    split <;> rfl
  | finish found =>
    simp only [levelStep] at h
    simp only [Mark.item, skipFrom]
    split at h
    · next hfound =>
      rw [if_pos hfound]
      cases depth with
      | zero => cases h
      | succ depth => rw [Option.some_inj.1 h]
    · next hfound => rw [if_neg hfound, Option.some_inj.1 h]

theorem skipFrom_items {unread : Remainder} {name : List Char} {depth after : Nat}
    {pieces : List Piece} {items : List Item} (gives : Gives pieces items)
    (h : levelAfter name depth (marks pieces) = some after) (more : List Item) :
    skipFrom unread name depth (items ++ more) = skipFrom unread name after more := by
  induction gives generalizing depth with
  | nil =>
    cases h
    rfl
  | mark _ _ ih =>
    rw [marks, List.map_cons, levelAfter_cons] at h
    obtain ⟨next, hmark, hmarks⟩ := Option.bind_eq_some_iff.1 h
    rw [List.cons_append, skipFrom_mark hmark, ih hmarks]
  | text content _ _ ih =>
    rw [marks, List.map_cons, levelAfter_cons] at h
    obtain ⟨next, hmark, hmarks⟩ := Option.bind_eq_some_iff.1 h
    rw [List.cons_append, List.cons_append, skipFrom_text, skipFrom_mark hmark, ih hmarks]

variable {source : Source} {node : Node} {pieces : List Piece} {more : List Item}
  {rest : List Token}

/-- Passing over an element leads to what stands after it. -/
theorem Faces.skip (h : source.Faces (node.content ++ pieces) more rest) :
    ∃ after, source.skip node.name = .ok after ∧ after.Faces pieces more rest := by
  obtain ⟨items, tokens, hcontent, hafter⟩ := h.split
  cases hcontent with
  | unread hat =>
    obtain ⟨hreplay, hunread, -⟩ := hat
    obtain ⟨left, hskip, hleft⟩ := Remainder.skip_eq hunread
      (Remainder.skipFrom_content node tokens)
    refine ⟨⟨[], left⟩, ?_, hafter _ ⟨rfl, hleft, by simp⟩⟩
    rw [Source.skip, hreplay, skipFrom, Remainder.skipNested, hskip]
    rfl
  | setAside gives hat =>
    obtain ⟨hreplay, hunread, htrims⟩ := hat
    obtain ⟨first, last, rfl, hfirst, hlast⟩ := gives.split
    have htrim : source.unread.trim = true := htrims (by cases hlast <;> simp)
    refine ⟨⟨items, source.unread⟩, ?_, hafter _ ⟨rfl, hunread, fun _ => htrim⟩⟩
    rw [Source.skip, hreplay, List.append_assoc,
      skipFrom_items hfirst (node.levelAfter_children node.name 0)]
    cases hlast with
    | mark _ hnil =>
      cases hnil
      simp [Mark.item, skipFrom]
    | text content _ hnil =>
      cases hnil
      simp [Mark.item, skipFrom]

/-- A source gives items one after the other and is then another source. -/
inductive Yields : Source → List Item → Source → Prop
  | nil (source : Source) : Yields source [] source
  | cons {source middle after : Source} {item : Item} {items : List Item}
      (first : source.next = .ok (item, middle)) (rest : Yields middle items after) :
      Yields source (item :: items) after

theorem Yields.split {after : Source} {items others : List Item}
    (h : Yields source (items ++ others) after) :
    ∃ middle, Yields source items middle ∧ Yields middle others after := by
  induction items generalizing source with
  | nil => exact ⟨source, .nil source, h⟩
  | cons item items ih =>
    cases h with
    | cons first rest =>
      obtain ⟨middle, hitems, hothers⟩ := ih rest
      exact ⟨middle, .cons first hitems, hothers⟩

/-- All pieces can be read, and blanks beside their tags are never seen. -/
theorem Faces.yields (h : source.Faces pieces more rest) (fresh : source.Fresh) :
    ∃ items after, Gives pieces items ∧ source.Yields items after ∧ after.At more rest ∧
      after.Fresh := by
  induction pieces generalizing source with
  | nil => exact ⟨[], source, .nil, .nil source, faces_nil.1 h, fresh⟩
  | cons piece pieces ih =>
    rcases h.next with ⟨content, middle, hnext, hmiddle, -, hsolid⟩ |
      ⟨middle, hnext, hrest, hfresh, hblank⟩
    · obtain ⟨left, hmark, hrest, hfresh⟩ := hmiddle.next_mark (.inl rfl)
      obtain ⟨items, after, gives, hyields, hat, hafter⟩ := ih hrest hfresh
      exact ⟨_, after, .text content (fun hblank => hsolid ⟨fresh, hblank⟩) gives,
        .cons hnext (.cons hmark hyields), hat, hafter⟩
    · obtain ⟨items, after, gives, hyields, hat, hafter⟩ := ih hrest hfresh
      exact ⟨_, after, .mark hblank gives, .cons hnext hyields, hat, hafter⟩

section Take

variable {name : List Char} {depth fuel : Nat} {taken : List Item} {middle after : Source}

theorem takeElement_text {content : List Char} (h : source.next = .ok (.text content, middle)) :
    takeElement name (fuel + 1) depth taken source =
      takeElement name fuel depth (.text content :: taken) middle := by
  rw [takeElement, h]
  rfl

theorem takeElement_mark {next : Nat} {mark : Mark} (h : source.next = .ok (mark.item, middle))
    (hlevel : levelStep name depth mark = some next) :
    takeElement name (fuel + 1) depth taken source =
      takeElement name fuel next (mark.item :: taken) middle := by
  rw [takeElement, h]
  cases mark with
  | start tag =>
    cases hlevel
    rfl
  | finish found =>
    simp only [levelStep] at hlevel
    show (if found == name then _ else _) = _
    split at hlevel
    · next hfound =>
      rw [if_pos hfound]
      cases depth with
      | zero => cases hlevel
      | succ depth =>
        cases hlevel
        rfl
    · next hfound => rw [if_neg hfound, Option.some_inj.1 hlevel]

theorem takeElement_finish (h : source.next = .ok (.finish name, middle)) :
    takeElement name (fuel + 1) 0 taken source = .ok (.finish name :: taken, middle) := by
  rw [takeElement, h]
  show (if name == name then _ else _) = _
  rw [if_pos (by simp)]

theorem takeElement_items {level : Nat} {items : List Item} (gives : Gives pieces items)
    (h : levelAfter name depth (marks pieces) = some level) (hyields : source.Yields items after) :
    takeElement name (fuel + items.length) depth taken source =
      takeElement name fuel level (items.reverse ++ taken) after := by
  induction gives generalizing depth source taken with
  | nil =>
    cases h
    cases hyields
    rfl
  | mark _ _ ih =>
    rw [marks, List.map_cons, levelAfter_cons] at h
    obtain ⟨next, hmark, hmarks⟩ := Option.bind_eq_some_iff.1 h
    cases hyields with
    | cons hnext hrest =>
      rw [List.length_cons, ← Nat.add_assoc, takeElement_mark hnext hmark, ih hmarks hrest]
      simp
  | text content _ _ ih =>
    rw [marks, List.map_cons, levelAfter_cons] at h
    obtain ⟨next, hmark, hmarks⟩ := Option.bind_eq_some_iff.1 h
    cases hyields with
    | cons htext hrest =>
      cases hrest with
      | cons hnext hrest =>
        rw [List.length_cons, List.length_cons, ← Nat.add_assoc, ← Nat.add_assoc,
          takeElement_text htext, takeElement_mark hnext hmark, ih hmarks hrest]
        simp

end Take

/-- Setting an element aside takes exactly its items. -/
theorem Faces.takeElement (h : source.Faces (node.content ++ pieces) more rest)
    (fresh : source.Fresh) {fuel : Nat} (hfuel : tokenCount node.content ≤ fuel)
    (taken : List Item) :
    ∃ items after, Gives node.content items ∧
      Source.takeElement node.name fuel 0 taken source = .ok (items.reverse ++ taken, after) ∧
      after.Faces pieces more rest ∧ after.Fresh := by
  obtain ⟨others, tokens, hcontent, hafter⟩ := h.split
  obtain ⟨items, after, gives, hyields, hat, hfresh⟩ := hcontent.yields fresh
  refine ⟨items, after, gives, ?_, hafter after hat, hfresh⟩
  have hlength := gives.length_le
  obtain ⟨first, last, rfl, hfirst, hlast⟩ := gives.split
  obtain ⟨middle, hitems, hend⟩ := hyields.split
  obtain ⟨left, rfl⟩ : ∃ left, fuel = (left + last.length) + first.length :=
    ⟨fuel - last.length - first.length, by rw [List.length_append] at hlength; omega⟩
  rw [takeElement_items hfirst (node.levelAfter_children node.name 0) hitems]
  cases hlast with
  | mark _ hnil =>
    cases hnil
    cases hend with
    | cons hnext hrest =>
      cases hrest
      rw [List.length_singleton, takeElement_finish hnext]
      simp [Mark.item]
  | text content _ hnil =>
    cases hnil
    cases hend with
    | cons htext hrest =>
      cases hrest with
      | cons hnext hrest =>
        cases hrest
        rw [List.length_cons, List.length_singleton, ← Nat.add_assoc, takeElement_text htext,
          takeElement_finish hnext]
        simp [Mark.item]

end Source

end UpdateProtocol.Markup

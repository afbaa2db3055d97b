import UpdateProtocol.Proofs.Markup.Aside
import UpdateProtocol.Proofs.Markup.Enclosure

/-!
# Trees

A `TagTree` is an element of which only the tags matter, with the elements inside of it.  Its marks
close all that they open, so whatever is read of an element, after its end tag the reader stands
before the elements that follow it (`Source.Within`).
-/

namespace UpdateProtocol.Markup

/-- An element as a reader meets it: its start tag and the elements inside of it. -/
inductive TagTree where
  | node (tag : Tag) (children : List TagTree)

namespace TagTree

/-- The start tag. -/
def tag : TagTree → Tag
  | node tag _ => tag

/-- The full name. -/
def name (tree : TagTree) : List Char := tree.tag.name

@[simp] theorem tag_node (tag : Tag) (children : List TagTree) :
    (node tag children).tag = tag := rfl

@[simp] theorem name_node (tag : Tag) (children : List TagTree) :
    (node tag children).name = tag.name := rfl

mutual

/-- The marks of an element. -/
def marks : TagTree → List Mark
  | node tag children => .start tag :: (marksAll children ++ [.finish tag.name])

/-- The marks of elements that follow each other. -/
def marksAll : List TagTree → List Mark
  | [] => []
  | tree :: trees => marks tree ++ marksAll trees

end

theorem marksAll_cons (tree : TagTree) (trees : List TagTree) :
    marksAll (tree :: trees) = tree.marks ++ marksAll trees := by rw [marksAll]

theorem marksAll_append (trees more : List TagTree) :
    marksAll (trees ++ more) = marksAll trees ++ marksAll more := by
  induction trees with
  | nil => rfl
  | cons tree trees ih => rw [List.cons_append, marksAll_cons, ih, marksAll_cons, List.append_assoc]

mutual

/-- An element closes all that it opens. -/
theorem balanced_marks : (tree : TagTree) → Balanced tree.marks
  | node tag children => fun names => by
      rw [marks, nest_start, (balanced_marksAll children).nest_append_eq]
      exact nest_finish_self tag.name names []

theorem balanced_marksAll : (trees : List TagTree) → Balanced (marksAll trees)
  | [] => .nil
  | tree :: trees => by
      rw [marksAll]
      exact (balanced_marks tree).append (balanced_marksAll trees)

end

/-- What stands after the elements that are left inside of an element and its end tag. -/
theorem leaving_marksAll (name : List Char) (trees : List TagTree) (more : List Mark) :
    leaving (· == name) 0 (marksAll trees ++ .finish name :: more) = some more := by
  have hnest : nest [name] (marksAll trees ++ [.finish name]) = some [] := by
    rw [(balanced_marksAll trees).nest_append_eq]
    exact nest_finish_self name [] []
  have hleft : leaving (· == name) 0 (marksAll trees ++ [.finish name]) = some [] :=
    (@leaving_eq _ _ _ _ [] hnest).trans ((balanced_marksAll trees).afterEnd_append _)
  have happend := leaving_append hleft more
  rwa [List.append_assoc] at happend

end TagTree

namespace Source

variable {source after : Source} {trees : List TagTree} {name : List Char} {more : List Mark}

/-- A source that stands inside of an element of some name, with these elements before its end tag
and these marks after it. -/
def Within (source : Source) (trees : List TagTree) (name : List Char) (more : List Mark) : Prop :=
  source.marks = TagTree.marksAll trees ++ .finish name :: more

namespace Within

/-- A text is no element. -/
theorem next_text (h : source.Within trees name more) {content : List Char}
    (hnext : source.next = .ok (.text content, after)) : after.Within trees name more :=
  (next_marks hnext).1.symm.trans h

/-- An end tag is that of the element. -/
theorem next_finish (h : source.Within trees name more) {found : List Char}
    (hnext : source.next = .ok (.finish found, after)) :
    trees = [] ∧ found = name ∧ after.marks = more := by
  rw [Within, (next_marks hnext).1] at h
  cases trees with
  | nil =>
    obtain ⟨e, hmore⟩ := List.cons.inj h
    cases e
    exact ⟨rfl, rfl, hmore⟩
  | cons tree trees =>
    obtain ⟨tag, children⟩ := tree
    rw [TagTree.marksAll_cons, TagTree.marks] at h
    cases (List.cons.inj h).1

/-- A start tag is that of the first element inside, and the others stand after it. -/
theorem next_start (h : source.Within trees name more) {tag : Tag}
    (hnext : source.next = .ok (.start tag, after)) :
    ∃ children others, trees = .node tag children :: others ∧
      after.Within children tag.name (TagTree.marksAll others ++ .finish name :: more) := by
  rw [Within, (next_marks hnext).1] at h
  cases trees with
  | nil => cases (List.cons.inj h).1
  | cons tree trees =>
    obtain ⟨found, children⟩ := tree
    rw [TagTree.marksAll_cons, TagTree.marks] at h
    obtain ⟨e, hmarks⟩ := List.cons.inj h
    cases e
    refine ⟨children, trees, rfl, ?_⟩
    rw [Within]
    simpa using hmarks

/-- Whatever reads up to the end of the element takes its marks away. -/
theorem marks_eq_of_leaving (h : source.Within trees name more)
    (hleaving : leaving (· == name) 0 source.marks = some after.marks) : after.marks = more := by
  rw [h, TagTree.leaving_marksAll] at hleaving
  exact (Option.some.inj hleaving).symm

theorem skip (h : source.Within trees name more) (hskip : source.skip name = .ok after) :
    after.marks = more :=
  h.marks_eq_of_leaving (skip_marks hskip).1

/-- An element that is set aside has the marks of its trees. -/
theorem itemMarks_of_taken (h : source.Within trees name more) {items : List Item}
    (taken : Taken name 0 source items after) :
    itemMarks items = TagTree.marksAll trees ++ [.finish name] ∧ after.marks = more := by
  obtain ⟨hmarks, hleaving⟩ := taken.marks_eq
  have hafter : after.marks = more := by
    refine h.marks_eq_of_leaving ?_
    rw [hmarks]
    exact leaving_append hleaving after.marks
  refine ⟨List.append_cancel_right (hmarks.symm.trans (h.trans ?_)), hafter⟩
  rw [hafter]
  simp

/-- The marks of all names lead to the same end. -/
theorem marks_eq_of_afterEnd (h : source.Within trees name more)
    (hend : afterEnd source.marks = some after.marks) : after.marks = more := by
  rw [h, (TagTree.balanced_marksAll trees).afterEnd_append] at hend
  exact (Option.some.inj hend).symm

end Within

end Source

end UpdateProtocol.Markup

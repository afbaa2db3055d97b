import UpdateProtocol.Proofs.Element.Run
import UpdateProtocol.Proofs.Markup.Enclosure

/-!
# What a reading takes away

In nested marks a run takes the marks of its element up to the end tag and no more
(`Run.leaves`).  So a document is never read as an element before the end tag of its root has been
met (`exists_afterEnd_of_read`).
-/

namespace UpdateProtocol.Element

open Markup (Balanced Mark Source Tokens afterEnd nest tokenMarks itemMarks)

/-- How the marks after a task follow from those before it: the element is left, or the marks that
were set aside inside of it stand before its end again. -/
def Task.Leaves (source after : Source) : Task → Prop
  | element _ _ | children _ _ _ => ∀ {name : List Char} {names stack : List (List Char)},
      nest (name :: names) source.marks = some stack → afterEnd source.marks = some after.marks
  | members _ _ _ aside => ∀ {name : List Char} {names stack : List (List Char)},
      nest (name :: names) source.marks = some stack → Balanced (itemMarks aside.reverse) →
        nest (name :: names) after.marks = some stack ∧
          ∃ left, afterEnd source.marks = some left ∧ afterEnd after.marks = some left

section Steps

variable {source middle later : Source} {name text : List Char} {names stack : List (List Char)}
  {next : Markup.Tag} {found : List Char}

theorem marks_of_start (first : source.next = .ok (.start next, middle)) :
    source.marks = .start next :: middle.marks :=
  (Source.next_marks first).1

theorem afterEnd_of_finish (first : source.next = .ok (.finish found, middle)) :
    afterEnd source.marks = some middle.marks := by
  rw [(Source.next_marks first).1]
  rfl

theorem afterEnd_of_content (h : readContent name source = .ok (text, later)) :
    afterEnd source.marks = some later.marks := by
  rcases readContent_cases h with ⟨found, hnext, -⟩ | ⟨middle, found, htext, hnext⟩
  · exact afterEnd_of_finish hnext
  · exact (congrArg afterEnd (Source.next_marks htext).1).trans (afterEnd_of_finish hnext)

/-- An element that has been read leaves the one around it open. -/
theorem afterEnd_of_inner (first : source.next = .ok (.start next, middle))
    (h : nest names source.marks = some stack)
    (inner : nest (next.name :: names) middle.marks = some stack →
      afterEnd middle.marks = some later.marks) :
    nest names later.marks = some stack ∧ afterEnd source.marks = afterEnd later.marks := by
  rw [marks_of_start first] at h ⊢
  exact Markup.afterEnd_start h (inner ((Markup.nest_start _ _ _).symm.trans h))

/-- What was set aside stands before the end tag of the parent again. -/
theorem marks_of_ended (first : source.next = .ok (.finish found, middle))
    (aside : List Markup.Item) :
    Source.marks ⟨aside.reverse ++ .finish found :: middle.replay, middle.unread⟩ =
      itemMarks aside.reverse ++ source.marks := by
  rw [(Source.next_marks first).1, Source.marks, Markup.itemMarks_append, List.append_assoc,
    Markup.itemMarks_cons, List.append_assoc, Source.marks]

/-- An element that is set aside closes all it opens. -/
theorem balanced_of_taken {items : List Markup.Item}
    (h : nest (next.name :: names) middle.marks = some stack)
    (taken : Source.Taken next.name 0 middle items later) :
    afterEnd middle.marks = some later.marks ∧ Balanced (.start next :: itemMarks items) := by
  obtain ⟨hmarks, hclose⟩ := taken.marks_eq
  have hend : afterEnd middle.marks = some later.marks := by
    refine (@Markup.leaving_eq _ _ _ _ [] h).symm.trans ?_
    rw [hmarks]
    exact Markup.leaving_append hclose later.marks
  obtain ⟨passed, hpassed, hnest⟩ := @Markup.leaving_split _ _ _ _ [] _ h hend
  have hitems : itemMarks items = passed := List.append_cancel_right (hmarks.symm.trans hpassed)
  refine ⟨hend, fun others => ?_⟩
  rw [hitems]
  exact (Markup.nest_start _ _ _).trans (hnest others)

end Steps

/-- A run leaves its element. -/
theorem Run.leaves {task : Task} {source after : Source} {found : List Element}
    (h : Run task source found after) : task.Leaves source after := by
  induction h with
  | element _ _ ih => exact ih
  | text first _ ih =>
    intro name names stack h
    have hmarks := (Source.next_marks first).1
    rw [hmarks] at h ⊢
    exact ih h
  | finish first _ =>
    intro name names stack _
    exact afterEnd_of_finish first
  | foreign first _ skip _ ih =>
    intro name names stack h
    obtain ⟨hlater, hend⟩ := afterEnd_of_inner first h fun h => Markup.afterEnd_of_skip h skip
    exact hend.trans (ih hlater)
  | absent first _ _ _ skip _ ih =>
    intro name names stack h
    obtain ⟨hlater, hend⟩ := afterEnd_of_inner first h fun h => Markup.afterEnd_of_skip h skip
    exact hend.trans (ih hlater)
  | attr first _ _ _ content _ _ ih =>
    intro name names stack h
    obtain ⟨hlater, hend⟩ := afterEnd_of_inner first h fun _ => afterEnd_of_content content
    exact hend.trans (ih hlater)
  | child first _ _ _ _ _ inner ih =>
    intro name names stack h
    obtain ⟨hlater, hend⟩ := afterEnd_of_inner first h inner
    exact hend.trans (ih hlater)
  | list first _ _ _ _ _ inner more ih =>
    intro name names stack h
    obtain ⟨hlater, hend⟩ := afterEnd_of_inner first h inner
    obtain ⟨hlast, left, hleft, hleft'⟩ := more hlater .nil
    exact (hend.trans (hleft.trans hleft'.symm)).trans (ih hlast)
  | ended first =>
    intro name names stack h balanced
    rw [marks_of_ended first, balanced.nest_append_eq, balanced.afterEnd_append]
    exact ⟨h, _, afterEnd_of_finish first, afterEnd_of_finish first⟩
  | member first _ _ _ inner ih =>
    intro name names stack h balanced
    obtain ⟨hlater, hend⟩ := afterEnd_of_inner first h inner
    rw [hend]
    exact ih hlater balanced
  | aside first _ taken _ ih =>
    intro name names stack h balanced
    have hmiddle := h
    rw [marks_of_start first, Markup.nest_start] at hmiddle
    obtain ⟨hend, hitems⟩ := balanced_of_taken hmiddle taken
    obtain ⟨hlater, hsource⟩ := afterEnd_of_inner first h fun _ => hend
    rw [hsource]
    refine ih hlater ?_
    rw [List.reverse_append, List.reverse_reverse, List.reverse_cons, List.append_assoc,
      Markup.itemMarks_append]
    exact balanced.append hitems

/-- A document that is read as an element has the end tag of its root. -/
theorem exists_afterEnd_of_read {type : ElementType} {document : Tokens} {element : Element}
    {stack : List (List Char)} (h : read type document.source = .ok element)
    (nested : nest [] (tokenMarks document.tokens) = some stack) :
    ∃ tag marks left, tokenMarks document.tokens = .start tag :: marks ∧
      afterEnd marks = some left := by
  obtain ⟨tag, middle, after, hnext, hrun⟩ := (read_eq_ok_iff (by simp [Source.Proper,
    Tokens.source])).1 h
  have hmarks : tokenMarks document.tokens = .start tag :: middle.marks := marks_of_start hnext
  rw [hmarks, Markup.nest_start] at nested
  exact ⟨tag, middle.marks, after.marks, hmarks, hrun.leaves nested⟩

end UpdateProtocol.Element

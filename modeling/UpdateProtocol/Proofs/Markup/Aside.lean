import UpdateProtocol.Proofs.Markup.Progress

/-!
# Setting an element aside

What is set aside is an element up to its end (`Source.Taken`): with enough fuel this is what
`Source.takeElement` finds, unless the document ends inside the element.
-/

namespace UpdateProtocol.Markup

namespace Source

variable {source after : Source}

/-- The items up to the end of an element of a name, `depth` elements of the same name inside it
being open. -/
inductive Taken (name : List Char) : Nat → Source → List Item → Source → Prop
  | last {source after : Source} (first : source.next = .ok (.finish name, after)) :
      Taken name 0 source [.finish name] after
  | text {depth : Nat} {source middle after : Source} {content : List Char} {items : List Item}
      (first : source.next = .ok (.text content, middle))
      (rest : Taken name depth middle items after) :
      Taken name depth source (.text content :: items) after
  | mark {depth level : Nat} {source middle after : Source} {mark : Mark} {items : List Item}
      (first : source.next = .ok (mark.item, middle))
      (step : levelStep name depth mark = some level) (rest : Taken name level middle items after) :
      Taken name depth source (mark.item :: items) after

theorem item_ne_eof (mark : Mark) : mark.item ≠ .eof := by cases mark <;> simp [Mark.item]

theorem mark?_item (mark : Mark) : mark.item.mark? = some mark := by cases mark <;> rfl

namespace Taken

variable {name : List Char} {depth : Nat} {items : List Item}

/-- Setting aside takes the marks of an element that is complete. -/
theorem marks_eq (h : Taken name depth source items after) :
    source.marks = itemMarks items ++ after.marks ∧
      leaving (· == name) depth (itemMarks items) = some [] := by
  induction h with
  | last first => exact ⟨(next_marks first).1, by simp [itemMarks, Item.mark?, leaving]⟩
  | text first _ ih => exact ⟨(next_marks first).1.trans ih.1, ih.2⟩
  | mark first step _ ih =>
    refine ⟨?_, ?_⟩
    · rw [(next_marks first).1, ih.1, itemMarks_cons, List.append_assoc]
    · rw [itemMarks_cons, mark?_item]
      exact (leaving_mark step _).trans ih.2

theorem size_le (h : Taken name depth source items after) :
    after.size + items.length ≤ source.size := by
  induction h with
  | last first => exact (next_marks first).2.1 (by simp)
  | text first _ ih =>
    have := (next_marks first).2.1 (by simp)
    rw [List.length_cons]
    omega
  | mark first _ _ ih =>
    have := (next_marks first).2.1 (item_ne_eof _)
    rw [List.length_cons]
    omega

theorem proper (h : Taken name depth source items after) :
    .eof ∉ items ∧ after.replay ⊆ source.replay := by
  induction h with
  | last first => exact ⟨by simp, (next_marks first).2.2⟩
  | text first _ ih => exact ⟨by simpa using ih.1, List.Subset.trans ih.2 (next_marks first).2.2⟩
  | mark first _ _ ih =>
    refine ⟨fun hmem => ?_, List.Subset.trans ih.2 (next_marks first).2.2⟩
    rcases List.mem_cons.1 hmem with e | hmem
    · exact item_ne_eof _ e.symm
    · exact ih.1 hmem

theorem takeElement_eq (h : Taken name depth source items after) {fuel : Nat}
    (hfuel : items.length ≤ fuel) (taken : List Item) :
    takeElement name fuel depth taken source = .ok (items.reverse ++ taken, after) := by
  induction h generalizing fuel taken with
  | last first =>
    obtain ⟨fuel, rfl⟩ : ∃ left, fuel = left + 1 := ⟨fuel - 1, by simp at hfuel; omega⟩
    exact takeElement_finish first
  | text first _ ih =>
    rw [List.length_cons] at hfuel
    obtain ⟨fuel, rfl⟩ : ∃ left, fuel = left + 1 := ⟨fuel - 1, by omega⟩
    rw [takeElement_text first, ih (by omega)]
    simp
  | mark first step _ ih =>
    rw [List.length_cons] at hfuel
    obtain ⟨fuel, rfl⟩ : ∃ left, fuel = left + 1 := ⟨fuel - 1, by omega⟩
    rw [takeElement_mark first step, ih (by omega)]
    simp

end Taken

/-- What is set aside is an element up to its end, unless the document ends before. -/
theorem taken_of_takeElement {name : List Char} {fuel depth : Nat} {taken all : List Item}
    (h : takeElement name fuel depth taken source = .ok (all, after)) (proper : source.Proper)
    (hfuel : source.size ≤ fuel) :
    (∃ items, all = items.reverse ++ taken ∧ Taken name depth source items after) ∨
      after.Ended := by
  induction fuel generalizing depth taken source with
  | zero =>
    rw [size] at hfuel
    omega
  | succ fuel ih =>
    obtain ⟨⟨item, middle⟩, hnext, hitem⟩ := exists_of_bind_ok h
    have hrest {level : Nat} (hne : item ≠ .eof)
        (h : takeElement name fuel level (item :: taken) middle = .ok (all, after)) :
        (∃ items, all = items.reverse ++ item :: taken ∧ Taken name level middle items after) ∨
          after.Ended := by
      have := (next_marks hnext).2.1 hne
      exact ih h (proper.next hnext) (by omega)
    have hmark {mark : Mark} {level : Nat} (hitem : item = mark.item)
        (hlevel : levelStep name depth mark = some level) :
        (∃ items, all = items.reverse ++ taken ∧ Taken name depth source items after) ∨
          after.Ended := by
      subst hitem
      rw [takeElement_mark hnext hlevel] at h
      obtain ⟨items, hall, htaken⟩ | hended := hrest (item_ne_eof mark) h
      · exact .inl ⟨mark.item :: items, by simp [hall], .mark hnext hlevel htaken⟩
      · exact .inr hended
    cases item with
    | eof =>
      cases hitem
      exact .inr (proper.ended hnext)
    | text content =>
      rw [takeElement_text hnext] at h
      obtain ⟨items, hall, htaken⟩ | hended := hrest (by simp) h
      · exact .inl ⟨.text content :: items, by simp [hall], .text hnext htaken⟩
      · exact .inr hended
    | start tag => exact @hmark (.start tag) _ rfl rfl
    | finish found =>
      by_cases hfound : found = name
      · subst hfound
        cases depth with
        | zero =>
          rw [takeElement_finish hnext] at h
          cases h
          exact .inl ⟨[.finish found], rfl, .last hnext⟩
        | succ depth =>
          have hlevel : levelStep found (depth + 1) (.finish found) = some depth := by
            simp [levelStep]
          exact hmark rfl hlevel
      · have hlevel : levelStep name depth (.finish found) = some depth := by
          simp [levelStep, hfound]
        exact hmark rfl hlevel

end Source

end UpdateProtocol.Markup

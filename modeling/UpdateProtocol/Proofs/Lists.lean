import Mathlib.Data.List.Forall2

/-!
# Lists

What is needed here about related lists, about words in front of a separator and about lists of
named values.
-/

namespace UpdateProtocol

section Related

variable {α β : Type} {R S : α → β → Prop} {as : List α} {bs : List β}

/-- A relation may be replaced by one that follows from it for the members of the first list. -/
theorem forall₂_of_mem (h : List.Forall₂ R as bs) (hR : ∀ a ∈ as, ∀ b, R a b → S a b) :
    List.Forall₂ S as bs := by
  induction h with
  | nil => exact .nil
  | cons first _ ih =>
    obtain ⟨hfirst, hrest⟩ := List.forall_mem_cons.1 hR
    exact .cons (hfirst _ first) (ih hrest)

theorem exists_of_forall₂ (h : List.Forall₂ R as bs) {b : β} (hb : b ∈ bs) : ∃ a ∈ as, R a b := by
  induction h with
  | nil => cases hb
  | cons first _ ih =>
    rcases List.mem_cons.1 hb with rfl | hb
    · exact ⟨_, List.mem_cons_self, first⟩
    · obtain ⟨a, ha, h⟩ := ih hb
      exact ⟨a, List.mem_cons_of_mem _ ha, h⟩

/-- A partner can be found for all together if one can be found for each. -/
theorem exists_forall₂_iff : (∃ bs, List.Forall₂ R as bs) ↔ ∀ a ∈ as, ∃ b, R a b := by
  induction as with
  | nil => simp
  | cons a as ih =>
    rw [List.forall_mem_cons, ← ih]
    constructor
    · rintro ⟨_, _ | ⟨hfirst, hrest⟩⟩
      exact ⟨⟨_, hfirst⟩, _, hrest⟩
    · rintro ⟨⟨b, hfirst⟩, bs, hrest⟩
      exact ⟨b :: bs, .cons hfirst hrest⟩

/-- What related members have in common, the lists have. -/
theorem map_eq_of_forall₂ {γ : Type} {f : α → γ} {g : β → γ} (h : List.Forall₂ R as bs)
    (hR : ∀ {a b}, R a b → g b = f a) : bs.map g = as.map f := by
  induction h with
  | nil => rfl
  | cons first _ ih => rw [List.map_cons, List.map_cons, hR first, ih]

end Related

/-- A single member stands in only one order. -/
theorem eq_of_perm_of_length_le {α : Type} {as bs : List α} (h : as.Perm bs)
    (hlength : as.length ≤ 1) : as = bs := by
  rcases as with _ | ⟨a, _ | ⟨b, as⟩⟩
  · exact h.nil_eq
  · exact h.singleton_eq
  · simp at hlength

section Index

variable {α : Type} {before : List α} {n : Nat} (h : before.length = n) (a : α) (after : List α)

include h

theorem eraseIdx_append_cons : (before ++ a :: after).eraseIdx n = before ++ after := by
  simp [List.eraseIdx_append_of_length_le, h]

theorem modify_append_cons (f : α → α) :
    (before ++ a :: after).modify n f = before ++ f a :: after := by
  simp [List.modify_eq_take_drop, ← h]

end Index

section Word

variable {α : Type} [BEq α] [LawfulBEq α] {separator : α} {word : List α} (h : separator ∉ word)
  (rest : List α)

include h

theorem ne_separator_of_mem : ∀ a ∈ word, (a != separator) = true :=
  fun _ ha => bne_iff_ne.2 fun e => h (e ▸ ha)

theorem takeWhile_word : (word ++ separator :: rest).takeWhile (· != separator) = word := by
  rw [List.takeWhile_append_of_pos (ne_separator_of_mem h)]
  simp

theorem dropWhile_word :
    (word ++ separator :: rest).dropWhile (· != separator) = separator :: rest := by
  rw [List.dropWhile_append_of_pos (ne_separator_of_mem h)]
  simp

end Word

/-- Without the value of a name that stands once, the name is not found any more. -/
theorem lookup_append {β : Type} {before after : List (String × β)} {value : String × β}
    (once : ((before ++ value :: after).map Prod.fst).Nodup) (name : String) :
    (before ++ after).lookup name =
      if value.1 = name then none else (before ++ value :: after).lookup name := by
  obtain ⟨known, content⟩ := value
  have hnodup := (List.perm_middle.map Prod.fst).nodup_iff.1 once
  rw [List.map_cons, List.nodup_cons] at hnodup
  split_ifs with hname
  · subst hname
    refine List.lookup_eq_none_iff.2 fun other hother => bne_iff_ne.2 fun e => hnodup.1 ?_
    exact List.mem_map.2 ⟨other, hother, e.symm⟩
  · have hne : (name == known) = false := beq_false_of_ne (Ne.symm hname)
    simp [List.lookup_append, List.lookup_cons, hne]

/-- A name is not found exactly if it does not stand there. -/
theorem lookup_eq_none_iff_not_mem {β : Type} {values : List (String × β)} {name : String} :
    values.lookup name = none ↔ name ∉ values.map Prod.fst := by
  rw [List.lookup_eq_none_iff]
  constructor
  · intro h hmem
    obtain ⟨value, hvalue, rfl⟩ := List.mem_map.1 hmem
    simpa using h value hvalue
  · exact fun h value hvalue => bne_iff_ne.2 fun e => h (List.mem_map.2 ⟨value, hvalue, e.symm⟩)

/-- Where every name stands once, what is found is what stands there. -/
theorem lookup_eq_some_iff_mem {β : Type} {values : List (String × β)}
    (once : (values.map Prod.fst).Nodup) {name : String} {value : β} :
    values.lookup name = some value ↔ (name, value) ∈ values := by
  constructor
  · intro h
    obtain ⟨before, after, rfl, -⟩ := List.lookup_eq_some_iff.1 h
    simp
  · intro h
    obtain ⟨before, after, rfl⟩ := List.append_of_mem h
    refine List.lookup_eq_some_iff.2 ⟨before, after, rfl, fun other hother => bne_iff_ne.2 ?_⟩
    rintro rfl
    rw [List.map_append, List.nodup_append] at once
    exact once.2.2 _ (List.mem_map_of_mem hother) _ (by simp) rfl

/-- Where every name stands once, a value is found wherever it stands. -/
theorem lookup_perm {β : Type} {values found : List (String × β)} (h : found.Perm values)
    (once : (values.map Prod.fst).Nodup) (name : String) :
    found.lookup name = values.lookup name := by
  induction h with
  | nil => rfl
  | cons value _ ih =>
    rw [List.lookup_cons, List.lookup_cons, ih (List.nodup_cons.1 once).2]
  | swap first second values =>
    obtain ⟨first, v⟩ := first
    obtain ⟨second, w⟩ := second
    have hne : second ≠ first := fun e => (List.nodup_cons.1 once).1 (by simp [e])
    simp only [List.lookup_cons]
    cases hsecond : name == second with
    | false => rfl
    | true =>
      have hfirst : (name == first) = false := by
        rw [eq_of_beq hsecond]
        exact beq_false_of_ne hne
      rw [hfirst]
  | trans hmiddle hlast ihmiddle ihlast =>
    rw [ihmiddle ((hlast.map Prod.fst).nodup_iff.2 once), ihlast once]

end UpdateProtocol

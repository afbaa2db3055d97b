import UpdateProtocol.Proofs.Element.Enclosure
import UpdateProtocol.Proofs.Markup.TagTree

/-!
# Parts that stand twice

A tree from which an element is read repeats no child that may stand once, neither beside the first
one nor with a list between the two, and whatever the children are like (`Run.unrepeated`).  Nothing
is known of what stands inside of an element that is marked as absent, so this is said only of
elements with no attribute that could mark them.
-/

namespace UpdateProtocol

open Markup (Mark Source Tag TagTree itemMarks)
open Markup.Source (Within)

/-- Whether some attribute of a tag could mark the element as absent. -/
def Markup.Tag.NamesNil (tag : Tag) : Prop :=
  ∃ attr, .ok attr ∈ tag.attributes true ∧ Markup.localName attr.name = "nil".toList

namespace Element

theorem isAbsent_eq_false {source : Source} {parent tag : Tag} (hparent : ¬ parent.NamesNil)
    (htag : ¬ tag.NamesNil) : isAbsent source parent tag = false := by
  have hnone {scope : Markup.Scope} {tag : Tag} (h : ¬ tag.NamesNil) :
      scope.marksNil tag = false := by
    refine List.any_eq_false.2 fun item hitem => ?_
    cases item with
    | error => simp
    | ok attr =>
      have hname : Markup.localName attr.name ≠ "nil".toList := fun e => h ⟨attr, hitem, e⟩
      show ¬ scope.isNil attr = true
      rw [Markup.Scope.isNil, beq_false_of_ne hname]
      simp
  rw [isAbsent, hnone hparent, hnone htag, Bool.or_false]

/-! ### Trees that repeat nothing -/

/-- Two elements are not the same child of a type. -/
def Apart (type : ElementType) (tree later : TagTree) : Prop :=
  ∀ part, type.named? tree.name = some (.child part) → type.named? later.name ≠ some (.child part)

/-- A tree in which no child stands twice that may stand once. -/
inductive Unrepeated : ElementType → TagTree → Prop
  | intro {type : ElementType} {tag : Tag} {trees : List TagTree}
      (once : trees.Pairwise (Apart type))
      (inner : ¬ tag.NamesNil → ∀ tree ∈ trees, ¬ tree.tag.NamesNil → ∀ part,
        type.named? tree.name = some (.child part) ∨ type.named? tree.name = some (.member part) →
          Unrepeated part tree) : Unrepeated type (.node tag trees)

/-- Trees that repeat nothing in the rest of an element after a draft of it. -/
structure RestUnrepeated (type : ElementType) (tag : Tag) (draft : Draft) (trees : List TagTree) :
    Prop where
  once : trees.Pairwise (Apart type)
  unmet : ∀ tree ∈ trees, ∀ part, type.named? tree.name = some (.child part) →
    part.tag ∉ draft.seen
  inner : ¬ tag.NamesNil → ∀ tree ∈ trees, ¬ tree.tag.NamesNil → ∀ part,
    type.named? tree.name = some (.child part) ∨ type.named? tree.name = some (.member part) →
      Unrepeated part tree

namespace RestUnrepeated

variable {type part : ElementType} {tag : Tag} {draft met : Draft} {tree : TagTree}
  {trees : List TagTree}

theorem nil : RestUnrepeated type tag draft [] :=
  ⟨.nil, by simp, by simp⟩

/-- An element that is no child of its own may stand anywhere. -/
theorem cons_other (h : RestUnrepeated type tag met trees) (hseen : draft.seen ⊆ met.seen)
    (hother : ∀ part, type.named? tree.name ≠ some (.child part))
    (hinner : ∀ part, type.named? tree.name = some (.member part) → Unrepeated part tree) :
    RestUnrepeated type tag draft (tree :: trees) where
  once := List.pairwise_cons.2 ⟨fun _ _ part hpart => absurd hpart (hother part), h.once⟩
  unmet := List.forall_mem_cons.2 ⟨fun part hpart => absurd hpart (hother part),
    fun later hlater part hpart hmem => h.unmet later hlater part hpart (hseen hmem)⟩
  inner hnil := List.forall_mem_cons.2 ⟨fun _ part hpart => hpart.elim
    (fun hpart => absurd hpart (hother part)) (hinner part), h.inner hnil⟩

/-- An element that is neither a child nor a member may stand anywhere. -/
theorem cons_stranger (h : RestUnrepeated type tag met trees) (hseen : draft.seen ⊆ met.seen)
    (hstranger : ∀ part, type.named? tree.name ≠ some (.child part) ∧
      type.named? tree.name ≠ some (.member part)) :
    RestUnrepeated type tag draft (tree :: trees) :=
  h.cons_other hseen (fun part => (hstranger part).1)
    fun part hpart => absurd hpart (hstranger part).2

/-- A child that is new is not repeated, since it has been met when the others are read. -/
theorem cons_child (h : RestUnrepeated type tag met trees)
    (hseen : met.seen = part.tag :: draft.seen) (hnew : part.tag ∉ draft.seen)
    (hfield : type.named? tree.name = some (.child part))
    (hinner : ¬ tag.NamesNil → ¬ tree.tag.NamesNil → Unrepeated part tree) :
    RestUnrepeated type tag draft (tree :: trees) := by
  have hpart {other : ElementType} (hother : type.named? tree.name = some (.child other)) :
      other = part := by
    rw [hfield] at hother
    cases hother
    rfl
  refine ⟨List.pairwise_cons.2 ⟨fun later hlater other hother hagain => ?_, h.once⟩,
    List.forall_mem_cons.2 ⟨fun other hother => ?_, fun later hlater other hother hmem => ?_⟩,
    fun hnil => List.forall_mem_cons.2 ⟨fun htree other hother => ?_, h.inner hnil⟩⟩
  · rw [hpart hother] at hagain
    exact h.unmet later hlater part hagain (hseen ▸ List.mem_cons_self)
  · rw [hpart hother]
    exact hnew
  · exact h.unmet later hlater other hother (hseen ▸ List.mem_cons_of_mem _ hmem)
  · rcases hother with hother | hother
    · rw [hpart hother]
      exact hinner hnil htree
    · rw [hfield] at hother
      cases hother

/-- The members of a list may stand anywhere. -/
theorem of_filter {name : List Char}
    (h : RestUnrepeated type tag met (trees.filter (fun tree => !(tree.name == name))))
    (hseen : draft.seen ⊆ met.seen) (hfield : type.named? name = some (.member part))
    (members : ∀ tree ∈ trees, tree.name = name → Unrepeated part tree) :
    RestUnrepeated type tag draft trees := by
  induction trees with
  | nil => exact .nil
  | cons tree trees ih =>
    obtain ⟨htree, hmembers⟩ := List.forall_mem_cons.1 members
    by_cases hname : tree.name = name
    · rw [List.filter_cons_of_neg (by simp [hname])] at h
      refine (ih h hmembers).cons_other (List.Subset.refl _) (fun other hother => ?_)
        fun other hother => ?_
      · rw [hname, hfield] at hother
        cases hother
      · rw [hname, hfield] at hother
        cases hother
        exact htree hname
    · rw [List.filter_cons_of_pos (by simpa using hname)] at h
      obtain ⟨hfirst, honce⟩ := List.pairwise_cons.1 h.once
      obtain ⟨hunmet, hrest⟩ := List.forall_mem_cons.1 h.unmet
      have hothers := ih ⟨honce, hrest, fun hnil => (List.forall_mem_cons.1 (h.inner hnil)).2⟩
        hmembers
      refine ⟨List.pairwise_cons.2 ⟨fun later hlater other hother hagain => ?_, hothers.once⟩,
        List.forall_mem_cons.2 ⟨fun other hother hmem => hunmet other hother (hseen hmem),
          hothers.unmet⟩,
        fun hnil => List.forall_mem_cons.2 ⟨(List.forall_mem_cons.1 (h.inner hnil)).1,
          hothers.inner hnil⟩⟩
      have hlaterName : later.name ≠ name := by
        intro e
        rw [e, hfield] at hagain
        cases hagain
      exact hfirst later (List.mem_filter.2 ⟨hlater, by simpa using hlaterName⟩) other hother hagain

end RestUnrepeated

/-! ### Runs -/

/-- What is known of a task that has been done inside of an element. -/
def Task.Unrepeats (source after : Source) : Task → Prop
  | element type tag => ∀ {trees : List TagTree} {more : List Mark},
      source.Within trees tag.name more → Unrepeated type (.node tag trees) ∧ after.marks = more
  | children type tag draft => ∀ {trees : List TagTree} {name : List Char} {more : List Mark},
      source.Within trees name more →
        RestUnrepeated type tag draft trees ∧ after.marks = more
  | members part name _ aside => ∀ {trees : List TagTree} {parent : List Char} {more : List Mark},
      source.Within trees parent more →
        (∀ tree ∈ trees, tree.name = name → Unrepeated part tree) ∧
          after.marks = itemMarks aside.reverse ++
            TagTree.marksAll (trees.filter (fun tree => !(tree.name == name))) ++
              .finish parent :: more

/-- Whatever is read, it is read from a tree that repeats nothing. -/
theorem Run.unrepeated {task : Task} {source after : Source} {found : List Element}
    (h : Run task source found after) : task.Unrepeats source after := by
  induction h with
  | element _ _ ih =>
    intro trees more within
    obtain ⟨rest, hmarks⟩ := ih within
    exact ⟨.intro rest.once rest.inner, hmarks⟩
  | text first _ ih => exact fun within => ih (within.next_text first)
  | finish first _ =>
    intro trees name more within
    obtain ⟨rfl, -, hmarks⟩ := within.next_finish first
    exact ⟨.nil, hmarks⟩
  | foreign first unknown skip _ ih =>
    intro trees name more within
    obtain ⟨children, others, rfl, hinside⟩ := within.next_start first
    obtain ⟨rest, hmarks⟩ := ih (hinside.skip skip)
    exact ⟨rest.cons_stranger (List.Subset.refl _) (by simp [unknown]), hmarks⟩
  | @absent type tag next draft met field source middle later after found first known new absent
      skip _ ih =>
    intro trees name more within
    obtain ⟨children, others, rfl, hinside⟩ := within.next_start first
    obtain ⟨rest, hmarks⟩ := ih (hinside.skip skip)
    refine ⟨?_, hmarks⟩
    cases field with
    | attr kind =>
      obtain ⟨-, rfl⟩ := meet_eq_ok new
      exact rest.cons_stranger (List.subset_cons_self _ _) (by simp [known])
    | child part =>
      obtain ⟨hnew, rfl⟩ := meet_eq_ok new
      -- what stands in it is not known, but then one of the two tags names the mark
      refine rest.cons_child rfl hnew known fun htag hnext => ?_
      rw [isAbsent_eq_false htag (by simpa using hnext), Bool.and_false] at absent
      cases absent
    | member part => cases absent
  | attr first known new _ content _ _ ih =>
    intro trees name more within
    obtain ⟨children, others, rfl, hinside⟩ := within.next_start first
    obtain ⟨rest, hmarks⟩ := ih (hinside.marks_eq_of_afterEnd (afterEnd_of_content content))
    obtain ⟨-, rfl⟩ := meet_eq_ok new
    exact ⟨rest.cons_stranger (List.subset_cons_self _ _) (by simp [known]), hmarks⟩
  | child first known new _ _ _ ihinner ih =>
    intro trees name more within
    obtain ⟨children, others, rfl, hinside⟩ := within.next_start first
    obtain ⟨hinner, hlater⟩ := ihinner hinside
    obtain ⟨rest, hmarks⟩ := ih hlater
    obtain ⟨hnew, rfl⟩ := meet_eq_ok new
    exact ⟨rest.cons_child rfl hnew known fun _ _ => hinner, hmarks⟩
  | list first known new _ _ _ ihinner ihmore ih =>
    intro trees name more within
    obtain ⟨children, others, rfl, hinside⟩ := within.next_start first
    obtain ⟨hinner, hlater⟩ := ihinner hinside
    obtain ⟨hmembers, hlast⟩ := ihmore hlater
    obtain ⟨rest, hmarks⟩ := ih hlast
    obtain ⟨-, rfl⟩ := meet_eq_ok new
    -- the rest is read without the later members, which the list has taken from among it
    have hothers := rest.of_filter (List.subset_cons_self _ _) known hmembers
    refine ⟨hothers.cons_other (List.Subset.refl _) (fun part hpart => ?_) (fun part hpart => ?_),
      hmarks⟩
    · simp [known] at hpart
    · simp only [TagTree.name_node, known, Option.some_inj, Field.member.injEq] at hpart
      exact hpart ▸ hinner
  | ended first =>
    intro trees parent more within
    obtain ⟨rfl, rfl, hmarks⟩ := within.next_finish first
    refine ⟨by simp, ?_⟩
    rw [marks_of_ended first, within]
    simp
  | member first same _ _ ihinner ih =>
    intro trees parent more within
    obtain ⟨children, others, rfl, hinside⟩ := within.next_start first
    obtain ⟨hinner, hlater⟩ := ihinner hinside
    obtain ⟨hmembers, hmarks⟩ := ih hlater
    refine ⟨List.forall_mem_cons.2 ⟨fun _ => hinner, hmembers⟩, ?_⟩
    rw [List.filter_cons_of_neg (by simpa using same)]
    exact hmarks
  | aside first other taken _ ih =>
    intro trees parent more within
    obtain ⟨children, others, rfl, hinside⟩ := within.next_start first
    obtain ⟨hitems, hlater⟩ := hinside.itemMarks_of_taken taken
    obtain ⟨hmembers, hmarks⟩ := ih hlater
    refine ⟨List.forall_mem_cons.2 ⟨fun e => absurd e other, hmembers⟩, ?_⟩
    rw [hmarks, List.filter_cons_of_pos (by simpa using other), List.reverse_append,
      List.reverse_reverse, List.reverse_cons, Markup.itemMarks_append, Markup.itemMarks_append,
      hitems, TagTree.marksAll_cons, TagTree.marks]
    simp [itemMarks, Markup.Item.mark?]

end Element

end UpdateProtocol

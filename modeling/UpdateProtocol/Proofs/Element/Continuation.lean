import UpdateProtocol.Proofs.Element.Enclosure
import UpdateProtocol.Proofs.Markup.Continuation

/-!
# Readings of documents that go on

A run does not depend on what follows the root of the document (`Run.exists_followedBy`), but for
one thing.  The members of the root's list are read up to its end tag, so what stood between them is
read with a look at what follows the root.  There it matters to a field that may be marked as
absent, and to nothing else.
-/

namespace UpdateProtocol

open Markup (Balanced Source SyntaxError Tag Token LookAlike itemMarks nest)

/-! ### Types without absent parts -/

/-- An attribute that is never marked as absent. -/
def Field.isPlain : Field → Bool
  | .attr kind => !kind.nullable
  | _ => false

/-- Whether a type knows nothing but attributes, none of which may be marked as absent. -/
def ElementType.isPlain (type : ElementType) : Bool :=
  type.fields.all Field.isPlain

/-- A field that is never marked as absent and has no such field inside of it.  The members of a
list do not count. -/
def Field.isSteady : Field → Bool
  | .attr kind => !kind.nullable
  | .child part => !part.isNullable && part.isPlain
  | .member _ => true

/-- Whether all fields of a type are steady. -/
def ElementType.isSteady (type : ElementType) : Bool :=
  type.fields.all Field.isSteady

section Steady

variable {type part : ElementType} {field : Field} {name : List Char}

theorem ElementType.mem_fields_of_named? (h : type.named? name = some field) :
    field ∈ type.fields :=
  List.mem_of_find?_eq_some h

theorem ElementType.isSteady_of_isPlain (h : type.isPlain = true) : type.isSteady = true := by
  rw [isPlain, List.all_eq_true] at h
  rw [isSteady, List.all_eq_true]
  intro field hfield
  have hplain := h field hfield
  cases field with
  | attr kind => exact hplain
  | _ => cases hplain

theorem ElementType.member?_of_isPlain (h : type.isPlain = true) : type.member? = none := by
  rw [isPlain, List.all_eq_true] at h
  cases hmember : type.member? with
  | none => rfl
  | some part => cases h (.member part) (by simp [fields, hmember])

theorem Field.isNullable_of_isSteady (h : field.isSteady = true) : field.isNullable = false := by
  cases field with
  | attr kind => simpa [isSteady, isNullable] using h
  | child part =>
    simp only [isSteady, Bool.and_eq_true, Bool.not_eq_true'] at h
    exact h.1
  | member part => rfl

theorem ElementType.steady_of_named? (h : type.isSteady = true)
    (known : type.named? name = some field) : field.isSteady = true :=
  List.all_eq_true.1 h field (mem_fields_of_named? known)

end Steady

namespace Element

/-- A reading that does not ask for what is marked as absent, at least after the members of its own
list. -/
def Task.Steady : Task → Prop
  | element type _ | children type _ _ => type.isSteady = true
  | members _ _ _ _ => True

/-- A reading that does not ask for what is marked as absent any more. -/
def Task.Quiet : Task → Prop
  | element type _ => type.isPlain = true
  | children type _ draft => type.isSteady = true ∧
      ∀ part, type.member? = some part → (Field.member part).key ∈ draft.seen
  | members _ _ _ _ => False

/-- The names of the elements that are open after a task. -/
def Task.outside (name : List Char) (names : List (List Char)) : Task → List (List Char)
  | element _ _ | children _ _ _ => names
  | members _ _ _ _ => name :: names

section Quiet

variable {type : ElementType} {tag : Tag} {draft met : Draft} {field : Field} {name : List Char}

theorem Task.Quiet.congr (h : (Task.children type tag draft).Quiet) {draft' : Draft}
    (hseen : draft.seen ⊆ draft'.seen) : (Task.children type tag draft').Quiet :=
  ⟨h.1, fun part hpart => hseen (h.2 part hpart)⟩

theorem subset_seen_of_meet (h : draft.meet field = .ok met) : draft.seen ⊆ met.seen := by
  obtain ⟨-, rfl⟩ := meet_eq_ok h
  exact List.subset_cons_self _ _

/-- After the list has been met there is no more of it. -/
theorem Task.Quiet.not_member (h : (Task.children type tag draft).Quiet) {part : ElementType}
    (known : type.named? name = some (.member part)) : draft.meet (.member part) ≠ .ok met :=
  fun hmeet => (meet_eq_ok hmeet).1 (h.2 part (ElementType.member?_of_named? known))

theorem quiet_of_list {part : ElementType} (steady : type.isSteady = true)
    (known : type.named? name = some (.member part))
    (hmeet : draft.meet (.member part) = .ok met) (members : List Element) :
    (Task.children type tag (met.addChildren members)).Quiet := by
  refine ⟨steady, fun part' hpart' => ?_⟩
  rw [ElementType.member?_of_named? known, Option.some_inj] at hpart'
  obtain ⟨-, rfl⟩ := meet_eq_ok hmeet
  rw [← hpart']
  exact List.mem_cons_self

end Quiet

/-! ### Runs -/

section Continuation

variable {more more' : List Token} {fault fault' : Option SyntaxError}

/-- What is marked as absent where what follows looks alike, or is not looked at. -/
theorem isAbsent_followedBy {source : Source} {names : List (List Char)}
    (h : source.Inside names) {nullable : Bool}
    (quiet : source.Spent → LookAlike more more' ∨ nullable = false) (parent tag : Markup.Tag) :
    (nullable && isAbsent (source.followedBy more fault) parent tag) =
      (nullable && isAbsent (source.followedBy more' fault') parent tag) := by
  obtain ⟨hspent, htrim⟩ | hends := h.ends
  · obtain hlook | rfl := quiet hspent
    · simp only [isAbsent, Source.followedBy,
        Markup.Remainder.marksNil_spent hspent htrim hlook fault fault']
    · rfl
  · simp only [isAbsent, Source.followedBy, Markup.Remainder.scopeAhead_followedBy _ _ hends]

theorem exists_content {source after : Source} {name text outer : List Char}
    {outers : List (List Char)} (h : source.Inside (outer :: outers))
    (hcontent : readContent name (source.followedBy more fault) = .ok (text, after)) :
    ∃ left : Source, after = left.followedBy more fault ∧
      (∀ more fault, readContent name (source.followedBy more fault) =
        .ok (text, left.followedBy more fault)) ∧
      left.Inside outers ∧ (left.Spent → source.Spent ∨ outers = []) := by
  rcases readContent_cases hcontent with ⟨found, hnext, rfl⟩ | ⟨middle, found, htext, hnext⟩
  · obtain ⟨left, rfl, hleft, hall⟩ := h.exists_next hnext
    obtain ⟨-, hinside, hspent⟩ := h.next_finish hleft
    refine ⟨left, rfl, fun more fault => ?_, hinside, hspent⟩
    simp only [readContent, hall, lift_ok, ok_bind]
  · obtain ⟨middle, rfl, hmiddle, hfirst⟩ := h.exists_next htext
    obtain ⟨hinside, hback⟩ := h.next_text hmiddle
    obtain ⟨left, rfl, hleft, hall⟩ := hinside.exists_next hnext
    obtain ⟨-, hinside, hspent⟩ := hinside.next_finish hleft
    refine ⟨left, rfl, fun more fault => ?_, hinside, fun h => (hspent h).imp_left hback⟩
    simp only [readContent, hfirst, lift_ok, ok_bind, hall]

/-- A task inside of an element whose reading does not depend on which of two continuations
follows. -/
structure Task.Ready (task : Task) (more more' : List Token) (source : Source) (name : List Char)
    (names : List (List Char)) : Prop where
  inside : source.Inside (name :: names)
  balanced : Balanced (itemMarks task.aside.reverse)
  steady : names = [] → LookAlike more more' ∨ task.Steady
  quiet : source.Spent → LookAlike more more' ∨ task.Quiet

namespace Task.Ready

variable {type part : ElementType} {tag next : Markup.Tag} {draft met : Draft}
  {source middle later : Source} {name : List Char} {names : List (List Char)} {field : Field}
  {aside : List Markup.Item} {members : List Element}

/-- Going on with an element later. -/
theorem children (h : (Task.children type tag draft).Ready more more' source name names)
    (inside : later.Inside (name :: names)) (spent : later.Spent → source.Spent) {draft' : Draft}
    (seen : draft.seen ⊆ draft'.seen) :
    (Task.children type tag draft').Ready more more' later name names :=
  ⟨inside, .nil, h.steady, fun hspent => (h.quiet (spent hspent)).imp_right fun h => h.congr seen⟩

/-- Beginning with an element inside of another one. -/
theorem inner {task : Task} (h : task.Ready more more' source name names)
    (first : source.next = .ok (.start next, middle))
    (plain : task.Quiet → part.isPlain = true) :
    (Task.element part next).Ready more more' middle next.name (name :: names) := by
  obtain ⟨hmiddle, hspent⟩ := h.inside.next_start first
  exact ⟨hmiddle, .nil, fun h => absurd h (by simp),
    fun h' => (h.quiet (hspent h')).imp_right plain⟩

theorem isNullable_eq (h : (Task.children type tag draft).Ready more more' source name names)
    (known : type.named? next.name = some field) (spent : middle.Spent → source.Spent) :
    middle.Spent → LookAlike more more' ∨ field.isNullable = false := fun hspent =>
  (h.quiet (spent hspent)).imp_right fun hquiet =>
    Field.isNullable_of_isSteady (ElementType.steady_of_named? hquiet.1 known)

end Task.Ready

/-- What a run finds does not depend on what follows the outermost element. -/
theorem Run.exists_followedBy {task : Task} {origin after : Source} {found : List Element}
    (h : Run task origin found after) {source : Source} {name : List Char}
    {names : List (List Char)} (horigin : origin = source.followedBy more fault)
    (ready : task.Ready more more' source name names) :
    ∃ left : Source, after = left.followedBy more fault ∧
      Run task (source.followedBy more' fault') found (left.followedBy more' fault') ∧
      left.Inside (task.outside name names) ∧ (left.Spent → source.Spent ∨ names = []) := by
  induction h generalizing source name names with
  | element attributes _ ih =>
    obtain ⟨left, hleft, hrun, hinside⟩ := ih horigin ⟨ready.inside, .nil, ready.steady,
      fun h => (ready.quiet h).imp_right fun hplain =>
        ⟨ElementType.isSteady_of_isPlain hplain, by simp [ElementType.member?_of_isPlain hplain]⟩⟩
    exact ⟨left, hleft, .element attributes hrun, hinside⟩
  | text first _ ih =>
    subst horigin
    obtain ⟨middle, rfl, hnext, hall⟩ := ready.inside.exists_next first
    obtain ⟨hmiddle, hspent⟩ := ready.inside.next_text hnext
    obtain ⟨left, hleft, hrun, hinside, hback⟩ :=
      ih rfl (ready.children hmiddle hspent (List.Subset.refl _))
    exact ⟨left, hleft, .text (hall _ _) hrun, hinside, fun h => (hback h).imp_left hspent⟩
  | finish first complete =>
    subst horigin
    obtain ⟨left, rfl, hnext, hall⟩ := ready.inside.exists_next first
    obtain ⟨-, hinside, hback⟩ := ready.inside.next_finish hnext
    exact ⟨left, rfl, .finish (hall _ _) complete, hinside, hback⟩
  | foreign first unknown skip _ ih =>
    subst horigin
    obtain ⟨middle, rfl, hnext, hall⟩ := ready.inside.exists_next first
    obtain ⟨hmiddle, hspent⟩ := ready.inside.next_start hnext
    obtain ⟨later, rfl, hskip, hskips⟩ := hmiddle.exists_skip skip
    obtain ⟨hlater, hspent'⟩ := hmiddle.skip hskip
    obtain ⟨left, hleft, hrun, hinside, hback⟩ :=
      ih rfl (ready.children hlater (fun h => hspent (hspent' h)) (List.Subset.refl _))
    exact ⟨left, hleft, .foreign (hall _ _) unknown (hskips _ _) hrun, hinside,
      fun h => (hback h).imp_left fun h => hspent (hspent' h)⟩
  | absent first known new absent skip _ ih =>
    subst horigin
    obtain ⟨middle, rfl, hnext, hall⟩ := ready.inside.exists_next first
    obtain ⟨hmiddle, hspent⟩ := ready.inside.next_start hnext
    rw [isAbsent_followedBy hmiddle (ready.isNullable_eq known hspent)] at absent
    obtain ⟨later, rfl, hskip, hskips⟩ := hmiddle.exists_skip skip
    obtain ⟨hlater, hspent'⟩ := hmiddle.skip hskip
    obtain ⟨left, hleft, hrun, hinside, hback⟩ :=
      ih rfl (ready.children hlater (fun h => hspent (hspent' h)) (subset_seen_of_meet new))
    exact ⟨left, hleft, .absent (hall _ _) known new absent (hskips _ _) hrun, hinside,
      fun h => (hback h).imp_left fun h => hspent (hspent' h)⟩
  | @attr type tag next draft met kind _ _ _ _ _ _ found first known new present content read _
      ih =>
    subst horigin
    obtain ⟨middle, rfl, hnext, hall⟩ := ready.inside.exists_next first
    obtain ⟨hmiddle, hspent⟩ := ready.inside.next_start hnext
    have hnullable : middle.Spent → LookAlike more more' ∨ kind.nullable = false :=
      ready.isNullable_eq known hspent
    rw [isAbsent_followedBy hmiddle hnullable] at present
    obtain ⟨later, rfl, hcontents, hlater, hspent'⟩ := exists_content hmiddle content
    have hspent' (h : later.Spent) : middle.Spent := (hspent' h).resolve_right (by simp)
    obtain ⟨left, hleft, hrun, hinside, hback⟩ :=
      ih rfl (ready.children hlater (fun h => hspent (hspent' h))
        (show draft.seen ⊆ met.seen from subset_seen_of_meet new))
    exact ⟨left, hleft, .attr (hall _ _) known new present (hcontents _ _) read hrun, hinside,
      fun h => (hback h).imp_left fun h => hspent (hspent' h)⟩
  | @child type part tag next draft met child _ _ _ _ found first known new present inner rest
      ihinner ih =>
    subst horigin
    obtain ⟨middle, rfl, hnext, hall⟩ := ready.inside.exists_next first
    obtain ⟨hmiddle, hspent⟩ := ready.inside.next_start hnext
    have hnullable : middle.Spent → LookAlike more more' ∨ part.isNullable = false :=
      ready.isNullable_eq known hspent
    rw [isAbsent_followedBy hmiddle hnullable] at present
    have hplain (hquiet : (Task.children type tag draft).Quiet) : part.isPlain = true := by
      have hsteady := ElementType.steady_of_named? hquiet.1 known
      simp only [Field.isSteady, Bool.and_eq_true] at hsteady
      exact hsteady.2
    obtain ⟨later, rfl, hinner, hlater, hspent'⟩ := ihinner rfl (ready.inner hnext hplain)
    have hspent' (h : later.Spent) : middle.Spent := (hspent' h).resolve_right (by simp)
    obtain ⟨left, hleft, hrun, hinside, hback⟩ :=
      ih rfl (ready.children hlater (fun h => hspent (hspent' h))
        (show draft.seen ⊆ met.seen from subset_seen_of_meet new))
    exact ⟨left, hleft, .child (hall _ _) known new present hinner hrun, hinside,
      fun h => (hback h).imp_left fun h => hspent (hspent' h)⟩
  | @list type part tag next draft met member members found _ _ _ _ _ first known new inner more
      rest ihinner ihmore ih =>
    subst horigin
    obtain ⟨middle, rfl, hnext, hall⟩ := ready.inside.exists_next first
    obtain ⟨hmiddle, hspent⟩ := ready.inside.next_start hnext
    have hloud : ¬ (Task.children type tag draft).Quiet := fun h => h.not_member known new
    obtain ⟨later, rfl, hinner, hlater, hspent'⟩ :=
      ihinner rfl (ready.inner hnext fun h => absurd h hloud)
    have hspent' (h : later.Spent) : source.Spent :=
      hspent ((hspent' h).resolve_right (by simp))
    obtain ⟨last, rfl, hmore, hlast, hspent''⟩ := ihmore rfl ⟨hlater, .nil, fun _ => .inr trivial,
      fun h => (ready.quiet (hspent' h)).imp_right fun h => absurd h hloud⟩
    obtain ⟨left, hleft, hrun, hinside, hback⟩ := ih rfl ⟨hlast, .nil, ready.steady, fun h => by
      rcases hspent'' h with h | h
      · exact (ready.quiet (hspent' h)).imp_right fun h => absurd h hloud
      · exact (ready.steady h).imp_right fun h => quiet_of_list h known new members⟩
    refine ⟨left, hleft, .list (hall _ _) known new hinner hmore hrun, hinside, fun h => ?_⟩
    rcases hback h with h | h
    · exact (hspent'' h).imp_left hspent'
    · exact .inr h
  | @ended _ _ last _ aside _ _ first =>
    subst horigin
    obtain ⟨middle, rfl, hnext, hall⟩ := ready.inside.exists_next first
    obtain ⟨-, hinside, hback⟩ := ready.inside.next_finish hnext
    refine ⟨⟨aside.reverse ++ .finish last :: middle.replay, middle.unread⟩, rfl,
      .ended (hall _ _), ⟨?_, hinside.ends⟩, hback⟩
    rw [marks_of_ended hnext]
    exact (ready.balanced.nest_append_eq _ _).trans ready.inside.nested
  | member first same _ _ ihinner ih =>
    subst horigin
    obtain ⟨middle, rfl, hnext, hall⟩ := ready.inside.exists_next first
    obtain ⟨hmiddle, hspent⟩ := ready.inside.next_start hnext
    obtain ⟨later, rfl, hinner, hlater, hspent'⟩ :=
      ihinner rfl (ready.inner hnext fun h => h.elim)
    have hspent' (h : later.Spent) : source.Spent :=
      hspent ((hspent' h).resolve_right (by simp))
    obtain ⟨left, hleft, hrun, hinside, hback⟩ := ih rfl ⟨hlater, ready.balanced, ready.steady,
      fun h => ready.quiet (hspent' h)⟩
    exact ⟨left, hleft, .member (hall _ _) same hinner hrun, hinside,
      fun h => (hback h).imp_left hspent'⟩
  | @aside part _ next members found aside items _ _ _ _ first other taken _ ih =>
    subst horigin
    obtain ⟨middle, rfl, hnext, hall⟩ := ready.inside.exists_next first
    obtain ⟨hmiddle, hspent⟩ := ready.inside.next_start hnext
    obtain ⟨later, rfl, htaken, htakens⟩ := Source.Inside.exists_taken [] hmiddle taken
    obtain ⟨hend, hitems⟩ := balanced_of_taken hmiddle.nested htaken
    obtain ⟨hlater, hspent'⟩ := hmiddle.onward htaken.onward
      (Markup.nest_of_afterEnd hmiddle.nested hend)
    have hbalanced : Balanced (itemMarks (items.reverse ++ .start next :: aside).reverse) := by
      rw [List.reverse_append, List.reverse_reverse, List.reverse_cons, List.append_assoc,
        Markup.itemMarks_append]
      exact ready.balanced.append hitems
    obtain ⟨left, hleft, hrun, hinside, hback⟩ := ih rfl ⟨hlater, hbalanced, ready.steady,
      fun h => ready.quiet (hspent (hspent' h))⟩
    exact ⟨left, hleft, .aside (hall _ _) other (htakens _ _) hrun, hinside,
      fun h => (hback h).imp_left fun h => hspent (hspent' h)⟩

end Continuation

end Element

end UpdateProtocol

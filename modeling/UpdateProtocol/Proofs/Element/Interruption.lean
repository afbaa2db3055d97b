import UpdateProtocol.Proofs.Element.Doubling

/-!
# Character data between the tags of an element

Between two tags of the text of an element stands character data (`Element.Interrupted`).  Before
the first member of the list of the element that it stands in it is passed over: the text describes
what it described without it (`Interrupted.exists_node`).  After a member it is not expected, and
the text describes no element of its type any more.
-/

namespace UpdateProtocol

open Markup (Gap Node TagLayout)

/-- Character data that is not only blanks and in which neither markup nor a reference begins. -/
structure StrayText where
  chars : List Char
  noMarkup : '<' ∉ chars
  noReference : '&' ∉ chars
  visible : ¬ chars.all Text.isBlank = true

namespace StrayText

variable (stray : StrayText)

/-- A gap with nothing but the character data. -/
def gap : Gap where
  text := ⟨stray.chars, stray.noMarkup⟩

@[simp] theorem write_gap : stray.gap.write = stray.chars := by
  simp [gap, Gap.write]

theorem texts_gap : stray.gap.texts = [stray.chars] := by
  have hne : stray.chars ≠ [] := by
    intro h
    exact stray.visible (by rw [h]; rfl)
  simp [gap, Gap.texts, hne]

theorem calm_gap : stray.gap.Calm := by
  rw [Gap.Calm, texts_gap, List.forall_mem_singleton]
  exact stray.noReference

theorem not_isBlank_gap : ¬ stray.gap.IsBlank := by
  rw [Gap.IsBlank, texts_gap, List.forall_mem_singleton]
  exact stray.visible

end StrayText

/-! ### Replacing a child -/

/-- An element of this type is what children of a name are. -/
def ElementType.Names (type : ElementType) (name : List Char) (part : ElementType) : Prop :=
  type.named? name = some (.child part) ∨ type.named? name = some (.member part)

/-- The name of a type stands for elements of this type. -/
theorem ElementType.Names.eq_of_tag {type part found : ElementType}
    (known : part ∈ type.children ∨ type.member? = some part)
    (h : type.Names part.tag.toList found) : found = part := by
  rcases known with hpart | hpart
  · have hfield := type.named?_child part hpart
    rcases h with h | h <;> rw [hfield] at h <;> cases h
    rfl
  · have hfield := type.named?_member part hpart
    rcases h with h | h <;> rw [hfield] at h <;> cases h
    rfl

/-- Nodes may be replaced by others of the same names that describe as much. -/
theorem ChildrenDescribe.replace {Describe : Node → Element → Prop} {type : ElementType}
    {nodes others : List Node} {elements : List Element}
    (h : ChildrenDescribe Describe nodes type elements)
    (each : List.Forall₂ (fun node other => other.name = node.name ∧ ∀ element,
      type.Names node.name element.type → Describe node element → Describe other element)
      nodes others) :
    ChildrenDescribe Describe others type elements := by
  induction h generalizing others with
  | nil =>
    cases each
    exact .nil
  | foreign unknown _ ih =>
    obtain ⟨other, others, ⟨name, -⟩, hothers, rfl⟩ := List.forall₂_cons_left_iff.1 each
    exact .foreign (by rwa [name]) (ih hothers)
  | child field describe _ ih =>
    obtain ⟨other, others, ⟨name, mono⟩, hothers, rfl⟩ := List.forall₂_cons_left_iff.1 each
    exact .child (by rwa [name]) (mono _ (.inl field) describe) (ih hothers)
  | member field describe _ ih =>
    obtain ⟨other, others, ⟨name, mono⟩, hothers, rfl⟩ := List.forall₂_cons_left_iff.1 each
    exact .member (by rwa [name]) (mono _ (.inr field) describe) (ih hothers)

section Replacing

variable {type : ElementType} {before after : List Node} {node other : Node} {lead trail : Gap}
  {tag : TagLayout} {element : Element}

/-- A node of the same name may stand where another one stands, unless it has a text before it and
follows a member. -/
theorem Orderly.replace (h : Orderly type (before ++ node :: after) trail)
    (name : other.name = node.name)
    (silent : ∀ first ∈ before, type.isMember first.name = true → other.lead.IsBlank) :
    Orderly type (before ++ other :: after) trail := by
  obtain ⟨hbefore, hmiddle, hacross⟩ := List.pairwise_append.1 h.follows
  obtain ⟨hnode, hafter⟩ := List.pairwise_cons.1 hmiddle
  refine ⟨List.pairwise_append.2 ⟨hbefore, List.pairwise_cons.2 ⟨fun later hlater => ?_, hafter⟩,
    fun first hfirst later hlater => ?_⟩, fun first hfirst hmember => ?_⟩
  · obtain ⟨once, same, quiet⟩ := hnode later hlater
    rw [← name] at once same quiet
    exact ⟨once, same, quiet⟩
  · rcases List.mem_cons.1 hlater with rfl | hlater
    · obtain ⟨once, same, -⟩ := hacross first hfirst node List.mem_cons_self
      rw [← name] at once same
      exact ⟨once, same, silent first hfirst⟩
    · exact hacross first hfirst later (List.mem_cons_of_mem _ hlater)
  · rcases List.mem_append.1 hfirst with hfirst | hfirst
    · exact h.silent first (List.mem_append_left _ hfirst) hmember
    · rcases List.mem_cons.1 hfirst with rfl | hfirst
      · exact h.silent node (List.mem_append_right _ List.mem_cons_self) (name ▸ hmember)
      · exact h.silent first (List.mem_append_right _ (List.mem_cons_of_mem _ hfirst)) hmember

/-- A child may be replaced by one of the same name that describes as much, unless that has a text
before it and follows a member. -/
theorem Describes.replace_child
    (h : Describes (.paired lead tag (before ++ node :: after) trail) element)
    (name : other.name = node.name)
    (describe : ∀ child, element.type.Names node.name child.type → Describes node child →
      Describes other child)
    (silent : ∀ first ∈ before, element.type.isMember first.name = true → other.lead.IsBlank) :
    Describes (.paired lead tag (before ++ other :: after) trail) element := by
  cases h with
  | intro distinct attributes perm once complete children orderly =>
  refine .intro distinct attributes perm once complete (children.replace ?_)
    (orderly.replace name silent)
  exact List.rel_append (List.forall₂_same.2 fun _ _ => ⟨rfl, fun _ _ h => h⟩)
    (.cons ⟨name, describe⟩ (List.forall₂_same.2 fun _ _ => ⟨rfl, fun _ _ h => h⟩))

/-- A text may stand before the end tag if no member of the list does. -/
theorem Describes.replace_trail {nodes : List Node} {gap : Gap}
    (h : Describes (.paired lead tag nodes trail) element)
    (quiet : ∀ node ∈ nodes, ¬ element.type.isMember node.name = true) :
    Describes (.paired lead tag nodes gap) element := by
  cases h with
  | intro distinct attributes perm once complete children orderly =>
  exact .intro distinct attributes perm once complete children
    ⟨orderly.follows, fun node hnode hmember => absurd hmember (quiet node hnode)⟩

/-- After a member of the list no text stands before a child. -/
theorem Describes.isBlank_lead {first : Node}
    (h : Describes (.paired lead tag (before ++ node :: after) trail) element)
    (hfirst : first ∈ before) (hmember : element.type.isMember first.name = true) :
    node.lead.IsBlank := by
  cases h with
  | intro _ _ _ _ _ _ orderly =>
  obtain ⟨-, -, hacross⟩ := List.pairwise_append.1 orderly.follows
  exact (hacross first hfirst node List.mem_cons_self).silent hmember

/-- After a member of the list no text stands before the end tag. -/
theorem Describes.isBlank_trail {nodes : List Node} {first : Node}
    (h : Describes (.paired lead tag nodes trail) element) (hfirst : first ∈ nodes)
    (hmember : element.type.isMember first.name = true) : trail.IsBlank := by
  cases h with
  | intro _ _ _ _ _ _ orderly => exact orderly.silent first hfirst hmember

end Replacing

namespace Element

/-! ### Interrupted texts -/

/-- The text of an element with a text between two of its tags, and whether a member of the list of
the element that the text stands in stands before it. -/
inductive Interrupted (stray : StrayText) : Element → Bool → List Char → Prop
  | here {type : ElementType} {values : List (String × Value)} {before after : List Element}
      (paired : before ++ after ≠ []) :
      Interrupted stray (mk type values (before ++ after))
        (before.any (fun child => type.member? == some child.type))
        ((tagLayout type values).enclose (Node.writeAll (before.map layout) ++ stray.chars ++
          Node.writeAll (after.map layout)))
  | inside {type : ElementType} {values : List (String × Value)} {child : Element}
      {before after : List Element} {late : Bool} {text : List Char}
      (inner : Interrupted stray child late text) :
      Interrupted stray (mk type values (before ++ child :: after)) late
        ((tagLayout type values).enclose (Node.writeAll (before.map layout) ++ text ++
          Node.writeAll (after.map layout)))

theorem write_layout_mk {type : ElementType} {values : List (String × Value)}
    {children : List Element} (h : children ≠ []) : (mk type values children).layout.write =
      (tagLayout type values).enclose (Node.writeAll (children.map layout)) := by
  obtain ⟨child, children, rfl⟩ := List.exists_cons_of_ne_nil h
  simp [layout, layoutAll_eq, Node.write, TagLayout.enclose]

/-- The members of a list are the children of its type. -/
theorem isMember_layout_iff {type : ElementType} {child : Element}
    (known : child.type ∈ type.children ∨ type.member? = some child.type) :
    type.isMember child.layout.name = true ↔ type.member? = some child.type := by
  rw [name_layout]
  exact ⟨ElementType.member?_of_isMember known,
    fun h => ElementType.isMember_iff.2 ⟨_, type.named?_member _ h⟩⟩

theorem any_member_iff {type : ElementType} {children : List Element}
    (known : ∀ child ∈ children, child.type ∈ type.children ∨ type.member? = some child.type) :
    children.any (fun child => type.member? == some child.type) = true ↔
      ∃ node ∈ children.map layout, type.isMember node.name = true := by
  rw [List.any_eq_true]
  constructor
  · rintro ⟨child, hchild, htype⟩
    exact ⟨_, List.mem_map_of_mem hchild,
      (isMember_layout_iff (known child hchild)).2 (eq_of_beq htype)⟩
  · rintro ⟨_, hnode, hmember⟩
    obtain ⟨child, hchild, rfl⟩ := List.mem_map.1 hnode
    exact ⟨child, hchild, beq_iff_eq.2 ((isMember_layout_iff (known child hchild)).1 hmember)⟩

theorem not_isMember_of_early {type : ElementType} {children : List Element}
    (known : ∀ child ∈ children, child.type ∈ type.children ∨ type.member? = some child.type)
    (early : children.any (fun child => type.member? == some child.type) = false) :
    ∀ node ∈ children.map layout, ¬ type.isMember node.name = true := fun node hnode hmember =>
  Bool.false_ne_true (early.symm.trans ((any_member_iff known).2 ⟨node, hnode, hmember⟩))

namespace Interrupted

variable {stray : StrayText} {element : Element} {late : Bool} {text : List Char}

/-- The text is put in at one place. -/
theorem exists_write (h : Interrupted stray element late text) :
    ∃ first rest, element.layout.write = first ++ rest ∧ text = first ++ stray.chars ++ rest := by
  induction h with
  | @here type values before after paired =>
    refine ⟨['<'] ++ (tagLayout type values).write ++ ['>'] ++ Node.writeAll (before.map layout),
      Node.writeAll (after.map layout) ++ ['<', '/'] ++ (tagLayout type values).name.chars ++ ['>'],
      ?_, ?_⟩
    · simp [write_layout_mk paired, TagLayout.enclose, Node.writeAll_eq]
    · simp [TagLayout.enclose]
  | @inside type values child before after late text inner ih =>
    obtain ⟨first, rest, hchild, rfl⟩ := ih
    refine ⟨['<'] ++ (tagLayout type values).write ++ ['>'] ++ Node.writeAll (before.map layout) ++
      first, rest ++ Node.writeAll (after.map layout) ++ ['<', '/'] ++
        (tagLayout type values).name.chars ++ ['>'], ?_, ?_⟩
    · simp [layout_mk_append, Node.write, Node.writeAll_eq, hchild, tagLayout]
    · simp [TagLayout.enclose]

end Interrupted

/-! ### Interrupted nodes -/

/-- A node for the text of an element with a text in it: it describes the element as before unless
the text comes late, when it describes no element of the type. -/
structure InterruptedNode (element : Element) (late : Bool) (text : List Char) (node : Node) :
    Prop where
  write_eq : text = node.write
  lead_eq : node.lead = {}
  name_eq : node.name = element.type.tag.toList
  calm : node.Calm
  describes : late = false → ∀ found, found.type = element.type →
    Describes element.layout found → Describes node found
  refused : late = true → ∀ found, Describes node found → found.type ≠ element.type

section Nodes

variable {type : ElementType} {values : List (String × Value)} (fits : Fits type.attributes values)

include fits

/-- The text stands before the end tag. -/
theorem interruptedNode_trail (stray : StrayText) {children : List Element} (paired : children ≠ [])
    (known : ∀ child ∈ children, child.type ∈ type.children ∨ type.member? = some child.type)
    (valid : ∀ child ∈ children, child.Valid) :
    InterruptedNode (mk type values children)
      (children.any (fun child => type.member? == some child.type))
      ((tagLayout type values).enclose (Node.writeAll (children.map layout) ++ stray.chars))
      (.paired {} (tagLayout type values) (children.map layout) stray.gap) where
  write_eq := by simp [TagLayout.enclose, Node.write]
  lead_eq := rfl
  name_eq := Markup.Name.chars_ofString type.plainName_tag
  calm := Node.calm_of Markup.Gap.calm_empty (undeclared_tagLayout fits) (calm_layout valid)
    stray.calm_gap
  describes early found htype describe := by
    obtain ⟨child, children, rfl⟩ := List.exists_cons_of_ne_nil paired
    rw [layout, layoutAll_eq] at describe
    exact describe.replace_trail (htype ▸ not_isMember_of_early known early)
  refused late found describe htype := by
    obtain ⟨first, hfirst, hmember⟩ := (any_member_iff known).1 late
    exact stray.not_isBlank_gap (describe.isBlank_trail hfirst (htype ▸ hmember))

/-- The text stands before the start tag of a child. -/
theorem interruptedNode_lead (stray : StrayText) {before after : List Element} {child : Element}
    (known : ∀ child ∈ before, child.type ∈ type.children ∨ type.member? = some child.type)
    (valid : ∀ other ∈ before ++ child :: after, other.Valid) :
    InterruptedNode (mk type values (before ++ child :: after))
      (before.any (fun child => type.member? == some child.type))
      ((tagLayout type values).enclose (Node.writeAll (before.map layout) ++ stray.chars ++
        Node.writeAll ((child :: after).map layout)))
      (.paired {} (tagLayout type values)
        (before.map layout ++ child.layout.withLead stray.gap :: after.map layout) {}) where
  write_eq := by
    simp [TagLayout.enclose, Node.write, Node.writeAll_eq,
      Node.write_withLead _ (lead_layout child)]
  lead_eq := rfl
  name_eq := Markup.Name.chars_ofString type.plainName_tag
  calm := by
    have calm := calm_layout valid
    simp only [List.map_append, List.map_cons, List.forall_mem_append, List.forall_mem_cons] at calm
    refine Node.calm_of Markup.Gap.calm_empty (undeclared_tagLayout fits) ?_ Markup.Gap.calm_empty
    exact List.forall_mem_append.2 ⟨calm.1,
      List.forall_mem_cons.2 ⟨calm.2.1.withLead _ stray.calm_gap, calm.2.2⟩⟩
  describes early found htype describe := by
    rw [layout_mk_append] at describe
    refine describe.replace_child (Node.name_withLead _) (fun _ _ h => h.withLead _) ?_
    rw [htype]
    exact fun first hfirst hmember =>
      absurd hmember (not_isMember_of_early known early first hfirst)
  refused late found describe htype := by
    obtain ⟨first, hfirst, hmember⟩ := (any_member_iff known).1 late
    have hblank := describe.isBlank_lead hfirst (htype ▸ hmember)
    rw [Node.lead_withLead] at hblank
    exact stray.not_isBlank_gap hblank

/-- The text stands somewhere in a child. -/
theorem interruptedNode_inside {before after : List Element} {child : Element} {node : Node}
    {late : Bool} {text : List Char}
    (known : child.type ∈ type.children ∨ type.member? = some child.type)
    (valid : ∀ other ∈ before ++ after, other.Valid)
    (inner : InterruptedNode child late text node) :
    InterruptedNode (mk type values (before ++ child :: after)) late
      ((tagLayout type values).enclose (Node.writeAll (before.map layout) ++ text ++
        Node.writeAll (after.map layout)))
      (.paired {} (tagLayout type values) (before.map layout ++ node :: after.map layout) {}) where
  write_eq := by simp [TagLayout.enclose, Node.write, Node.writeAll_eq, inner.write_eq]
  lead_eq := rfl
  name_eq := Markup.Name.chars_ofString type.plainName_tag
  calm := by
    have calm := calm_layout valid
    rw [List.map_append, List.forall_mem_append] at calm
    refine Node.calm_of Markup.Gap.calm_empty (undeclared_tagLayout fits) ?_ Markup.Gap.calm_empty
    exact List.forall_mem_append.2 ⟨calm.1, List.forall_mem_cons.2 ⟨inner.calm, calm.2⟩⟩
  describes early found htype describe := by
    rw [layout_mk_append] at describe
    refine describe.replace_child (inner.name_eq.trans (name_layout child).symm)
      (fun other hother => inner.describes early other ?_) fun _ _ _ => ?_
    · rw [name_layout, htype] at hother
      exact hother.eq_of_tag known
    · rw [inner.lead_eq]
      exact Markup.Gap.isBlank_empty
  refused late := not_describes_of_child (List.mem_append_right _ List.mem_cons_self) inner.name_eq
    known (inner.refused late)

end Nodes

/-- Wherever the text stands, there is a node for it. -/
theorem Interrupted.exists_node {stray : StrayText} {element : Element} {late : Bool}
    {text : List Char} (h : Interrupted stray element late text) (valid : element.Valid) :
    ∃ node, InterruptedNode element late text node := by
  induction h with
  | @here type values before after paired =>
    cases valid with
    | intro fits known compatible valid =>
    have hbefore := (List.forall_mem_append.1 known).1
    cases after with
    | nil =>
      rw [List.append_nil] at paired valid ⊢
      rw [List.map_nil, Node.writeAll, List.append_nil]
      exact ⟨_, interruptedNode_trail fits stray paired hbefore valid⟩
    | cons child after => exact ⟨_, interruptedNode_lead fits stray hbefore valid⟩
  | inside inner ih =>
    cases valid with
    | intro fits known compatible valid =>
    simp only [List.forall_mem_append, List.forall_mem_cons] at known valid
    obtain ⟨node, hnode⟩ := ih valid.2.1
    exact ⟨_, interruptedNode_inside fits known.2.1
      (List.forall_mem_append.2 ⟨valid.1, valid.2.2⟩) hnode⟩

end Element

end UpdateProtocol

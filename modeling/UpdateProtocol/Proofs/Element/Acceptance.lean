import UpdateProtocol.Proofs.Document.Decoding
import UpdateProtocol.Proofs.Element.Foreign
import UpdateProtocol.Proofs.Element.Run

/-!
# What an element has been read from

Only what a node describes can be read from it (`Run.describes`), so a document whose root describes
no element of the expected type is refused (`decode_refused`).

The induction is on the run.  What is known of a task when it is done depends on its kind
(`Task.Accepts`): a list has taken its members from among the nodes that were left in the parent,
and the rest of the parent is then read from the nodes between them.
-/

namespace UpdateProtocol

open Markup (Gap Gives Item Node Source Tag Token)
open Markup.Node (piecesAll)

/-! ### Sources -/

namespace Markup.Source.Faces

variable {source middle : Source} {nodes : List Node} {trail : Gap} {name : List Char}
  {more : List Item} {rest : List Token}

/-- An item in front is a text before the first mark or the mark itself. -/
theorem next_cases {piece : Piece} {pieces : List Piece} {item : Item}
    (h : source.Faces (piece :: pieces) more rest) (hnext : source.next = .ok (item, middle)) :
    (∃ content, item = .text content ∧
        middle.Faces (⟨{}, piece.mark⟩ :: pieces) more rest) ∨
      item = piece.mark.item ∧ middle.Faces pieces more rest ∧ middle.Fresh ∧
        piece.gap.IsBlank := by
  rcases h.next with ⟨content, after, hfirst, hfaces, -⟩ | ⟨after, hfirst, hfaces⟩
  · rw [hnext] at hfirst
    cases hfirst
    exact .inl ⟨content, rfl, hfaces⟩
  · rw [hnext] at hfirst
    cases hfirst
    exact .inr ⟨rfl, hfaces⟩

/-- A start tag in front is that of the first node. -/
theorem next_start (h : source.Faces (piecesAll nodes ++ [⟨trail, .finish name⟩]) more rest)
    {tag : Tag} (hnext : source.next = .ok (.start tag, middle)) :
    ∃ node others, nodes = node :: others ∧ tag = node.tag.tag ∧
      middle.Faces (node.content ++ (piecesAll others ++ [⟨trail, .finish name⟩])) more rest ∧
      middle.Fresh ∧ node.lead.IsBlank := by
  cases nodes with
  | nil => rcases h.next_cases hnext with ⟨_, e, -⟩ | ⟨e, -⟩ <;> cases e
  | cons node others =>
    rw [Node.piecesAll_cons, node.pieces_eq, List.cons_append, List.cons_append,
      List.append_assoc] at h
    rcases h.next_cases hnext with ⟨_, e, -⟩ | ⟨e, hfaces, hfresh, hblank⟩
    · cases e
    · cases e
      exact ⟨node, others, rfl, rfl, hfaces, hfresh, hblank⟩

/-- An end tag in front is that of the parent. -/
theorem next_finish (h : source.Faces (piecesAll nodes ++ [⟨trail, .finish name⟩]) more rest)
    {found : List Char} (hnext : source.next = .ok (.finish found, middle)) :
    nodes = [] ∧ found = name ∧ middle.At more rest ∧ middle.Fresh ∧ trail.IsBlank := by
  cases nodes with
  | nil =>
    rcases h.next_cases hnext with ⟨_, e, -⟩ | ⟨e, hfaces, hfresh, hblank⟩
    · cases e
    · cases e
      exact ⟨rfl, rfl, faces_nil.1 hfaces, hfresh, hblank⟩
  | cons node others =>
    rw [Node.piecesAll_cons, node.pieces_eq, List.cons_append, List.cons_append] at h
    rcases h.next_cases hnext with ⟨_, e, -⟩ | ⟨e, -⟩ <;> cases e

/-- After a text its gap is empty. -/
theorem next_text (h : source.Faces (piecesAll nodes ++ [⟨trail, .finish name⟩]) more rest)
    {content : List Char} (hnext : source.next = .ok (.text content, middle)) :
    (nodes = [] ∧ middle.Faces (piecesAll [] ++ [⟨{}, .finish name⟩]) more rest) ∨
      ∃ node others, nodes = node :: others ∧ middle.Faces
        (piecesAll (node.withLead {} :: others) ++ [⟨trail, .finish name⟩]) more rest := by
  have hmark (mark : Mark) : Item.text content ≠ mark.item := by cases mark <;> simp [Mark.item]
  cases nodes with
  | nil =>
    rcases h.next_cases hnext with ⟨_, -, hfaces⟩ | ⟨e, -⟩
    · exact .inl ⟨rfl, hfaces⟩
    · exact absurd e (hmark _)
  | cons node others =>
    rw [Node.piecesAll_cons, node.pieces_eq, List.cons_append, List.cons_append] at h
    rcases h.next_cases hnext with ⟨_, -, hfaces⟩ | ⟨e, -⟩
    · refine .inr ⟨node, others, rfl, ?_⟩
      rw [Node.piecesAll_cons, Node.pieces_eq, List.cons_append, List.cons_append]
      simpa using hfaces
    · exact absurd e (hmark _)

/-- Nothing is marked as absent. -/
theorem isAbsent_eq {pieces : List Piece} (h : source.Faces pieces more rest) (parent tag : Tag) :
    Element.isAbsent source parent tag = false := by
  obtain ⟨tokens, hunread⟩ := h.unread_at
  simp only [Element.isAbsent, Scope.marksNil_eq hunread.bindings_scopeAhead, Bool.or_false]

end Markup.Source.Faces

theorem Describes.of_withLead {node : Node} {element : Element} {lead : Gap}
    (h : Describes (node.withLead lead) element) : Describes node element := by
  have hnode : (node.withLead lead).withLead node.lead = node := by cases node <;> rfl
  exact hnode ▸ h.withLead node.lead

/-- Elements are no attributes: no name begins with an at sign. -/
theorem ElementType.named?_ne_attr (type : ElementType) (name : Markup.Name)
    (known : AttributeType) : type.named? name.chars ≠ some (.attr known) := by
  intro h
  have hkey : "@" ++ known.name = String.ofList (Markup.localName name.chars) :=
    (mem_of_field? h).2
  have hmem : '@' ∈ Markup.localName name.chars := by
    rw [← String.toList_ofList (l := Markup.localName name.chars), ← hkey, String.toList_append]
    exact List.mem_append_left _ (by decide)
  have hname : '@' ∈ name.chars := (Markup.localName_suffix name.chars).subset hmem
  exact name.ne_of_mem hname (by decide : Markup.isNameChar '@' = false) rfl

namespace Element

/-! ### Attributes -/

/-- Attributes that are read describe what is read, and no field is met twice. -/
theorem readAttributes_ok {type : ElementType} {draft met : Draft}
    {items : List (Except Markup.AttributeError Markup.Attribute)}
    (h : readAttributes type draft items = .ok met) :
    ∃ attributes values, items = attributes.map .ok ∧ AttributesDescribe type attributes values ∧
      (values.map Prod.fst).Nodup ∧ (∀ name ∈ values.map Prod.fst, "@" ++ name ∉ draft.seen) ∧
      met.seen = (values.map (fun value => "@" ++ value.1)).reverse ++ draft.seen := by
  induction items generalizing draft with
  | nil =>
    cases h
    exact ⟨[], [], rfl, .nil, .nil, by simp, rfl⟩
  | cons item items ih =>
    cases item with
    | error => cases h
    | ok attr =>
      rw [readAttributes] at h
      split at h
      · next known field =>
        obtain ⟨noted, hmeet, h⟩ := exists_of_bind_ok h
        obtain ⟨value, hvalue, h⟩ := exists_of_bind_ok h
        obtain ⟨hnew, rfl⟩ := meet_eq_ok hmeet
        obtain ⟨attributes, values, rfl, describe, once, unmet, hseen⟩ := ih h
        refine ⟨attr :: attributes, (known.name, value) :: values, rfl,
          .known field hvalue describe, List.nodup_cons.2 ⟨fun hmem => ?_, once⟩,
          List.forall_mem_cons.2 ⟨hnew, fun name hname hmem => ?_⟩, ?_⟩
        · exact unmet _ hmem List.mem_cons_self
        · exact unmet name hname (List.mem_cons_of_mem _ hmem)
        · rw [hseen]
          simp [Draft.addAttribute, Field.key]
      · next unknown =>
        obtain ⟨attributes, values, rfl, describe, h⟩ := ih h
        exact ⟨attr :: attributes, values, rfl, .foreign unknown describe, h⟩

theorem finish_ok {type : ElementType} {draft : Draft} {element : Element}
    (h : draft.finish type = .ok element) {attr : AttributeType} (hattr : attr ∈ type.attributes)
    (required : attr.required = true) : "@" ++ attr.name ∈ draft.seen := by
  rw [Draft.finish] at h
  split at h
  · cases h
  · next hfind =>
    have hattr := List.find?_eq_none.1 hfind attr hattr
    simpa [required, Field.key] using hattr

/-! ### Children -/

/-- Whether a node may stand in an element of a type. -/
def Fitting (type : ElementType) (node : Node) : Prop :=
  type.named? node.name = none ∨ ∃ element, Describes node element ∧
    (type.named? node.name = some (.child element.type) ∨
      type.named? node.name = some (.member element.type))

theorem fitting_of_mem {type : ElementType} {nodes : List Node} {elements : List Element}
    (h : ChildrenDescribe Describes nodes type elements) {node : Node} (hnode : node ∈ nodes) :
    Fitting type node := by
  induction h with
  | nil => cases hnode
  | foreign unknown _ ih =>
    rcases List.mem_cons.1 hnode with rfl | hnode
    · exact .inl unknown
    · exact ih hnode
  | child field describe _ ih =>
    rcases List.mem_cons.1 hnode with rfl | hnode
    · exact .inr ⟨_, describe, .inl field⟩
    · exact ih hnode
  | member field describe _ ih =>
    rcases List.mem_cons.1 hnode with rfl | hnode
    · exact .inr ⟨_, describe, .inr field⟩
    · exact ih hnode

/-- A node describes no element of a type if one of its children, by its name a part of such
elements, describes none. -/
theorem not_describes_of_child {type part : ElementType} {parent node : Node}
    (hnode : node ∈ parent.children) (hname : node.name = part.tag.toList)
    (known : part ∈ type.children ∨ type.member? = some part)
    (h : ∀ element, Describes node element → element.type ≠ part) :
    ∀ element, Describes parent element → element.type ≠ type := by
  intro element describe htype
  have hfield : type.named? node.name = some (.child part) ∨
      type.named? node.name = some (.member part) := by
    rw [hname]
    exact known.imp (type.named?_child _) (type.named?_member _)
  cases describe with
  | @intro _ found _ _ _ _ _ _ _ _ children _ =>
  obtain rfl : found = type := htype
  rcases fitting_of_mem children hnode with unknown | ⟨other, hother, field⟩
  · rw [unknown] at hfield
    simp at hfield
  · refine h other hother ?_
    rcases hfield with e | e <;> rw [e] at field <;> simpa [eq_comm] using field

theorem exists_childrenDescribe {type : ElementType} {nodes : List Node}
    (h : ∀ node ∈ nodes, Fitting type node) :
    ∃ elements, ChildrenDescribe Describes nodes type elements := by
  induction nodes with
  | nil => exact ⟨[], .nil⟩
  | cons node nodes ih =>
    obtain ⟨hnode, hnodes⟩ := List.forall_mem_cons.1 h
    obtain ⟨elements, hall⟩ := ih hnodes
    rcases hnode with unknown | ⟨element, describe, field | field⟩
    · exact ⟨elements, .foreign unknown hall⟩
    · exact ⟨element :: elements, .child field describe hall⟩
    · exact ⟨element :: elements, .member field describe hall⟩

/-- Nodes from which the rest of an element can be read after a draft of it. -/
structure Remaining (type : ElementType) (draft : Draft) (nodes : List Node) (trail : Gap) :
    Prop where
  fitting : ∀ node ∈ nodes, Fitting type node
  orderly : Orderly type nodes trail
  unmet : ∀ node ∈ nodes, ∀ field, type.named? node.name = some field → field.key ∉ draft.seen
  complete : ∀ attr ∈ type.attributes, attr.required = true → "@" ++ attr.name ∈ draft.seen

/-- Nodes up to the end of a parent from which the members of a list can be read, and what is set
aside of them. -/
structure Gathered (part : ElementType) (name : List Char) (nodes : List Node) (trail : Gap)
    (aside : List Item) : Prop where
  describe : ∀ node ∈ nodes, node.name = name →
    ∃ element, element.type = part ∧ Describes node element
  leads : ∀ node ∈ nodes, node.lead.IsBlank
  trail : trail.IsBlank
  gives : Gives (piecesAll (nodes.filter (fun node => !(node.name == name)))) aside

namespace Remaining

variable {type : ElementType} {draft : Draft} {node : Node} {nodes : List Node} {trail : Gap}

/-- The gap before the first node does not matter. -/
theorem of_withLead {lead : Gap} (h : Remaining type draft (node.withLead lead :: nodes) trail) :
    Remaining type draft (node :: nodes) trail := by
  obtain ⟨fitting, ⟨follows, silent⟩, unmet, complete⟩ := h
  obtain ⟨hfitting, fitting⟩ := List.forall_mem_cons.1 fitting
  obtain ⟨hfollows, follows⟩ := List.pairwise_cons.1 follows
  obtain ⟨hsilent, silent⟩ := List.forall_mem_cons.1 silent
  obtain ⟨hunmet, unmet⟩ := List.forall_mem_cons.1 unmet
  rw [Node.name_withLead] at hsilent hunmet
  refine ⟨List.forall_mem_cons.2 ⟨?_, fitting⟩,
    ⟨List.pairwise_cons.2 ⟨fun later hmem => ?_, follows⟩,
      List.forall_mem_cons.2 ⟨hsilent, silent⟩⟩,
    List.forall_mem_cons.2 ⟨hunmet, unmet⟩, complete⟩
  · rw [Fitting, Node.name_withLead] at hfitting
    refine hfitting.imp_right fun hdescribed => ?_
    obtain ⟨element, describe, field⟩ := hdescribed
    exact ⟨element, describe.of_withLead, field⟩
  · obtain ⟨once, same, silent⟩ := hfollows later hmem
    rw [Node.name_withLead] at once same silent
    exact ⟨once, same, silent⟩

theorem nil (complete : ∀ attr ∈ type.attributes, attr.required = true →
    "@" ++ attr.name ∈ draft.seen) : Remaining type draft [] trail :=
  ⟨by simp, ⟨.nil, by simp⟩, by simp, complete⟩

theorem cons_foreign (h : Remaining type draft nodes trail)
    (unknown : type.named? node.name = none) : Remaining type draft (node :: nodes) trail where
  fitting := List.forall_mem_cons.2 ⟨.inl unknown, h.fitting⟩
  orderly := by
    have hmember : type.isMember node.name = false := by rw [ElementType.isMember, unknown]
    refine ⟨List.pairwise_cons.2 ⟨fun later _ => ⟨?_, ?_, ?_⟩, h.orderly.follows⟩,
      List.forall_mem_cons.2 ⟨?_, h.orderly.silent⟩⟩ <;> simp [unknown, hmember]
  unmet := List.forall_mem_cons.2 ⟨by simp [unknown], h.unmet⟩
  complete := h.complete

variable {met : Draft} {part : ElementType}

/-- No attribute has been met with a child. -/
theorem complete_of_seen (h : Remaining type met nodes trail)
    (hseen : met.seen = part.tag :: draft.seen) :
    ∀ attr ∈ type.attributes, attr.required = true → "@" ++ attr.name ∈ draft.seen := by
  intro attr hattr hrequired
  have hmem := h.complete attr hattr hrequired
  rw [hseen] at hmem
  exact (List.mem_cons.1 hmem).resolve_left (ElementType.tag_ne part attr.name).symm

theorem cons_child {element : Element} (h : Remaining type met nodes trail)
    (hseen : met.seen = element.type.tag :: draft.seen)
    (field : type.named? node.name = some (.child element.type))
    (hnew : element.type.tag ∉ draft.seen) (describe : Describes node element) :
    Remaining type draft (node :: nodes) trail where
  fitting := List.forall_mem_cons.2 ⟨.inr ⟨element, describe, .inl field⟩, h.fitting⟩
  orderly := by
    have hmember : type.isMember node.name = false := by rw [ElementType.isMember, field]
    refine ⟨List.pairwise_cons.2 ⟨fun later hlater => ⟨fun part hpart hother => ?_, ?_, ?_⟩,
      h.orderly.follows⟩, List.forall_mem_cons.2 ⟨?_, h.orderly.silent⟩⟩
    · rw [field] at hpart
      cases hpart
      exact h.unmet later hlater _ hother (by rw [hseen]; exact List.mem_cons_self)
    all_goals simp [hmember]
  unmet := by
    refine List.forall_mem_cons.2 ⟨fun found hfound => ?_, fun later hlater found hfound hmem => ?_⟩
    · rw [field] at hfound
      cases hfound
      exact hnew
    · exact h.unmet later hlater found hfound (by rw [hseen]; exact List.mem_cons_of_mem _ hmem)
  complete := h.complete_of_seen hseen

/-- All members that are left in a parent have the name of the first, since what is set aside has
none. -/
theorem name_of_isMember {name : List Char}
    (h : Remaining type met (nodes.filter (fun node => !(node.name == name))) {})
    (hseen : part.tag ∈ met.seen) (hpart : type.member? = some part) {later : Node}
    (hlater : later ∈ nodes) (hmember : type.isMember later.name = true) : later.name = name := by
  by_contra hne
  obtain ⟨other, field⟩ := ElementType.isMember_iff.1 hmember
  have hother := ElementType.member?_of_named? field
  rw [hpart, Option.some_inj] at hother
  subst hother
  exact h.unmet later (List.mem_filter.2 ⟨hlater, by simpa using hne⟩) _ field hseen

theorem cons_list {element : Element} {aside : List Item}
    (h : Remaining type met (nodes.filter (fun later => !(later.name == node.name))) {})
    (hseen : met.seen = element.type.tag :: draft.seen)
    (field : type.named? node.name = some (.member element.type))
    (hnew : element.type.tag ∉ draft.seen) (describe : Describes node element)
    (gathered : Gathered element.type node.name nodes trail aside) :
    Remaining type draft (node :: nodes) trail := by
  have hmet : element.type.tag ∈ met.seen := by rw [hseen]; exact List.mem_cons_self
  have hmember : type.isMember node.name = true := ElementType.isMember_iff.2 ⟨_, field⟩
  have hname {later : Node} (hlater : later ∈ nodes) (hother : type.isMember later.name = true) :
      later.name = node.name :=
    h.name_of_isMember hmet (ElementType.member?_of_named? field) hlater hother
  have hleft {later : Node} (hlater : later ∈ nodes) (hne : later.name ≠ node.name) :
      later ∈ nodes.filter (fun later => !(later.name == node.name)) :=
    List.mem_filter.2 ⟨hlater, by simpa using hne⟩
  have hchild {later : Node} {part : ElementType}
      (hpart : type.named? later.name = some (.child part)) : later.name ≠ node.name := by
    intro e
    rw [e, field] at hpart
    cases hpart
  refine ⟨List.forall_mem_cons.2 ⟨.inr ⟨element, describe, .inr field⟩, fun later hlater => ?_⟩,
    ⟨List.pairwise_cons.2 ⟨fun later hlater => ⟨?_, ?_, ?_⟩, ?_⟩,
      fun _ _ _ => gathered.trail⟩,
    List.forall_mem_cons.2 ⟨fun found hfound => ?_, fun later hlater found hfound hmem => ?_⟩,
    h.complete_of_seen hseen⟩
  · by_cases e : later.name = node.name
    · obtain ⟨other, htype, hother⟩ := gathered.describe later hlater e
      exact .inr ⟨other, hother, .inr (by rw [e, field, htype])⟩
    · exact h.fitting later (hleft hlater e)
  · intro part hpart
    exact absurd rfl (hchild hpart)
  · exact fun _ => hname hlater
  · exact fun _ => gathered.leads later hlater
  · refine (List.pairwise_filter.1 h.orderly.follows).imp_of_mem
      fun {first later} hfirst hlater hfollows => ⟨fun part hpart hother => ?_,
        fun hfirst' hlater' => ?_, fun _ => gathered.leads later hlater⟩
    · have hkeep {other : Node} (hne : other.name ≠ node.name) :
          (!(other.name == node.name)) = true := by simpa using hne
      exact (hfollows (hkeep (hchild hpart)) (hkeep (hchild hother))).once part hpart hother
    · rw [hname hfirst hfirst', hname hlater hlater']
  · rw [field] at hfound
    cases hfound
    exact hnew
  · by_cases e : later.name = node.name
    · rw [e, field] at hfound
      cases hfound
      exact hnew hmem
    · refine h.unmet later (hleft hlater e) found hfound ?_
      rw [hseen]
      exact List.mem_cons_of_mem _ hmem

end Remaining

/-! ### Runs -/

/-- What is known of a task that has been done before some nodes. -/
def Task.Accepts (source after : Source) : Task → Prop
  | element type tag => ∀ {node : Node} {more : List Item} {rest : List Token},
      tag = node.tag.tag → source.Faces node.content more rest →
        (∃ element, element.type = type ∧ Describes node element) ∧ after.At more rest ∧
          after.Fresh
  | children type _ draft => ∀ {nodes : List Node} {trail : Gap} {name : List Char}
      {more : List Item} {rest : List Token},
      source.Faces (piecesAll nodes ++ [⟨trail, .finish name⟩]) more rest →
        Remaining type draft nodes trail ∧ after.At more rest ∧ after.Fresh
  | members part name _ aside => ∀ {nodes : List Node} {trail : Gap} {parent : List Char}
      {more : List Item} {rest : List Token}, source.Fresh →
      source.Faces (piecesAll nodes ++ [⟨trail, .finish parent⟩]) more rest →
        ∃ items, Gathered part name nodes trail items ∧
          after.At (aside.reverse ++ items ++ .finish parent :: more) rest ∧ after.Fresh

section Members

variable {part : ElementType} {name : List Char} {node : Node} {nodes : List Node} {trail : Gap}
  {aside : List Item}

theorem Gathered.nil (blank : trail.IsBlank) : Gathered part name [] trail [] :=
  ⟨by simp, by simp, blank, .nil⟩

/-- A member stands before the others. -/
theorem Gathered.cons_member (h : Gathered part name nodes trail aside)
    (hname : node.name = name) (blank : node.lead.IsBlank) {element : Element}
    (htype : element.type = part) (describe : Describes node element) :
    Gathered part name (node :: nodes) trail aside where
  describe := List.forall_mem_cons.2 ⟨fun _ => ⟨element, htype, describe⟩, h.describe⟩
  leads := List.forall_mem_cons.2 ⟨blank, h.leads⟩
  trail := h.trail
  gives := by
    rw [List.filter_cons_of_neg (by simp [hname])]
    exact h.gives

/-- A node of another name is set aside before the others. -/
theorem Gathered.cons_other {items : List Item} (h : Gathered part name nodes trail aside)
    (hname : node.name ≠ name) (blank : node.lead.IsBlank) (gives : Gives node.pieces items) :
    Gathered part name (node :: nodes) trail (items ++ aside) where
  describe := List.forall_mem_cons.2 ⟨fun e => absurd e hname, h.describe⟩
  leads := List.forall_mem_cons.2 ⟨blank, h.leads⟩
  trail := h.trail
  gives := by
    rw [List.filter_cons_of_pos (by simp [hname]), Markup.Node.piecesAll_cons]
    exact gives.append h.gives

end Members

/-- What a run finds before some nodes they describe. -/
theorem Run.accepts {task : Task} {source after : Source} {found : List Element}
    (h : Run task source found after) : task.Accepts source after := by
  induction h with
  | element attributes _ ih =>
    intro node more rest htag faces
    subst htag
    obtain ⟨items, values, hitems, describe, once, -, hseen⟩ := readAttributes_ok attributes
    have distinct := node.tag.nodup_of_attributes hitems
    rw [node.tag.attributes_tag fun _ => distinct] at hitems
    have hitems : items = node.tag.attributes.map Markup.AttributeLayout.attribute := by
      have hinj : Function.Injective
          (Except.ok : Markup.Attribute → Except Markup.AttributeError Markup.Attribute) :=
        fun _ _ e => Except.ok.inj e
      refine (List.map_injective_iff.2 hinj ?_).symm
      rw [List.map_map]
      exact hitems
    subst hitems
    obtain ⟨remaining, hat, hfresh⟩ := ih faces
    obtain ⟨elements, hchildren⟩ := exists_childrenDescribe remaining.fitting
    refine ⟨⟨.mk _ values elements, rfl, .intro distinct describe (.refl _) once ?_ hchildren
      remaining.orderly⟩, hat, hfresh⟩
    intro attr hattr hrequired
    have hmem := remaining.complete attr hattr hrequired
    rw [hseen] at hmem
    simpa using hmem
  | text first _ ih =>
    intro nodes trail name more rest faces
    rcases faces.next_text first with ⟨rfl, hfaces⟩ | ⟨node, others, rfl, hfaces⟩
    · obtain ⟨remaining, hat⟩ := ih hfaces
      exact ⟨.nil remaining.complete, hat⟩
    · obtain ⟨remaining, hat⟩ := ih hfaces
      exact ⟨remaining.of_withLead, hat⟩
  | finish first complete =>
    intro nodes trail name more rest faces
    obtain ⟨rfl, -, hat, hfresh, -⟩ := faces.next_finish first
    exact ⟨.nil fun attr => finish_ok complete, hat, hfresh⟩
  | foreign first unknown skip _ ih =>
    intro nodes trail name more rest faces
    obtain ⟨node, others, rfl, rfl, hfaces, -⟩ := faces.next_start first
    rw [node.name_tag] at unknown skip
    obtain ⟨later, hskip, hlater⟩ := hfaces.skip
    rw [hskip] at skip
    cases skip
    obtain ⟨remaining, hat⟩ := ih hlater
    exact ⟨remaining.cons_foreign unknown, hat⟩
  | absent first _ _ absent =>
    intro nodes trail name more rest faces
    obtain ⟨node, others, -, -, hfaces, -⟩ := faces.next_start first
    rw [hfaces.isAbsent_eq, Bool.and_false] at absent
    cases absent
  | attr first known =>
    intro nodes trail name more rest faces
    obtain ⟨node, others, -, rfl, -⟩ := faces.next_start first
    rw [node.name_tag] at known
    exact absurd known (ElementType.named?_ne_attr _ node.tag.name _)
  | child first known new _ _ _ ihinner ih =>
    intro nodes trail name more rest faces
    obtain ⟨node, others, rfl, rfl, hfaces, -⟩ := faces.next_start first
    rw [node.name_tag] at known
    obtain ⟨hnew, rfl⟩ := meet_eq_ok new
    obtain ⟨items, tokens, hcontent, hothers⟩ := hfaces.split
    obtain ⟨⟨element, rfl, describe⟩, hlater, -⟩ := ihinner rfl hcontent
    obtain ⟨remaining, hat⟩ := ih (hothers _ hlater)
    exact ⟨remaining.cons_child rfl known hnew describe, hat⟩
  | list first known new _ _ _ ihinner ihmore ih =>
    intro nodes trail name more rest faces
    obtain ⟨node, others, rfl, rfl, hfaces, -⟩ := faces.next_start first
    rw [node.name_tag] at known ihmore
    obtain ⟨hnew, rfl⟩ := meet_eq_ok new
    obtain ⟨items, tokens, hcontent, hothers⟩ := hfaces.split
    obtain ⟨⟨element, rfl, describe⟩, hlater, hfresh⟩ := ihinner rfl hcontent
    obtain ⟨aside, gathered, hlast, -⟩ := ihmore hfresh (hothers _ hlater)
    obtain ⟨remaining, hat⟩ := ih (.setAside
      (gathered.gives.append (.mark Markup.Gap.isBlank_empty .nil))
      (by simpa [Markup.Mark.item] using hlast))
    exact ⟨remaining.cons_list rfl known hnew describe gathered, hat⟩
  | ended first =>
    intro nodes trail parent more rest fresh faces
    obtain ⟨rfl, rfl, hat, hfresh, hblank⟩ := faces.next_finish first
    refine ⟨[], .nil hblank, ⟨?_, hat.unread, fun _ => hfresh⟩, hfresh⟩
    simp [hat.replay_eq]
  | member first same _ _ ihinner ih =>
    intro nodes trail parent more rest fresh faces
    obtain ⟨node, others, rfl, rfl, hfaces, -, hblank⟩ := faces.next_start first
    rw [node.name_tag] at same
    obtain ⟨items, tokens, hcontent, hothers⟩ := hfaces.split
    obtain ⟨⟨element, htype, describe⟩, hlater, hfresh⟩ := ihinner rfl hcontent
    obtain ⟨aside, gathered, hat⟩ := ih hfresh (hothers _ hlater)
    exact ⟨aside, gathered.cons_member same hblank htype describe, hat⟩
  | @aside _ _ _ _ _ _ items _ _ _ _ first other taken _ ih =>
    intro nodes trail parent more rest fresh faces
    obtain ⟨node, others, rfl, rfl, hfaces, hfresh, hblank⟩ := faces.next_start first
    rw [node.name_tag] at other taken
    obtain ⟨items', later', gives, htake, hlater, hfresh⟩ :=
      hfaces.takeElement hfresh (Nat.le_max_left _ items.length) []
    rw [taken.takeElement_eq (Nat.le_max_right _ _) []] at htake
    simp only [List.append_nil, Except.ok.injEq, Prod.mk.injEq, List.reverse_inj] at htake
    obtain ⟨rfl, rfl⟩ := htake
    obtain ⟨aside, gathered, hat, hafter⟩ := ih hfresh hlater
    have hitems : Gives node.pieces (.start node.tag.tag :: items) := by
      rw [node.pieces_eq]
      exact .mark hblank gives
    exact ⟨_, gathered.cons_other other hblank hitems, by simpa using hat, hafter⟩

/-- What is read from a node the node describes. -/
theorem Run.describes {type : ElementType} {node : Node} {source after : Source}
    {found : List Element} (h : Run (.element type node.tag.tag) source found after)
    {more : List Item} {rest : List Token} (faces : source.Faces node.content more rest) :
    ∃ element, element.type = type ∧ Describes node element :=
  (h.accepts rfl faces).1

/-! ### Documents -/

section Refused

variable {type : ElementType} {node : Node}
  (h : ∀ element, Describes node element → element.type ≠ type) (calm : node.Calm)
  (root : Markup.localName node.name = type.tag.toList)

include h calm root

theorem ofTokens_refused : ∃ error, ofTokens type ⟨node.tokens, none⟩ = .error (.schema error) := by
  refine exists_schema_of_read (Markup.Tokens.root_tokens node) (by rwa [node.name_tag])
    fun element hread => ?_
  have proper : Source.Proper (Markup.Tokens.source ⟨node.tokens, none⟩) := List.not_mem_nil
  obtain ⟨tag, middle, after, hnext, hrun⟩ := (read_eq_ok_iff proper).1 hread
  have hsource := Markup.Tokens.faces_source calm
  rw [node.pieces_eq] at hsource
  rcases hsource.next_cases hnext with ⟨_, e, -⟩ | ⟨e, hfaces, -⟩
  · cases e
  · cases e
    obtain ⟨element, htype, describe⟩ := hrun.describes hfaces
    exact h element describe htype

/-- A document is refused if its root describes no element of the type that its name stands for. -/
theorem decode_refused (lead : node.lead = {}) {header text : String} (hheader : IsHeader header)
    (htext : text.toList = header.toList ++ node.write)
    (hsize : text.toUTF8.size ≤ maxDocumentSize) :
    ∃ error, decode type text.toUTF8 = .error (.schema error) := by
  obtain ⟨gap, hgap, hblank, hwrite⟩ := Markup.Node.exists_write_header lead hheader
  rw [decode_toUTF8 hsize, htext, hwrite,
    Markup.Tokens.ofText_write _ (by rwa [Markup.Node.lead_withLead])]
  refine ofTokens_refused (fun element describe => h element ?_) (calm.withLead gap hblank.calm)
    (by rwa [Markup.Node.name_withLead])
  exact Describes.of_withLead describe

end Refused

end Element

end UpdateProtocol

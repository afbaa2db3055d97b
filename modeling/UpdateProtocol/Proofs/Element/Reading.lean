import UpdateProtocol.Proofs.Element.Alike
import UpdateProtocol.Proofs.Element.Description
import UpdateProtocol.Proofs.Markup.Attributes
import UpdateProtocol.Proofs.Markup.Nesting

/-!
# Reading what a node describes

The element that is read from a node is the one that the node describes, up to the order of
children of different types (`readElement_of_describes`).

The induction is on the nodes that are left in a parent.  The first member of a list takes all other
members with it and leaves the nodes between them for later, so what is left is then shorter but no
part of the list it was.
-/

namespace UpdateProtocol

open Markup (Item Node Piece Source Tag Token tokenCount)

namespace Element

/-! ### Attributes -/

theorem meet_eq {draft : Draft} (field : Field) (h : field.key ∉ draft.seen) :
    draft.meet field = .ok { draft with seen := field.key :: draft.seen } := by
  rw [Draft.meet, if_neg (by simpa using h)]

theorem readAttributes_eq {type : ElementType} {attributes : List Markup.Attribute}
    {values : List (String × Value)} (h : AttributesDescribe type attributes values)
    (once : (values.map Prod.fst).Nodup) (draft : Draft)
    (unmet : ∀ name ∈ values.map Prod.fst, "@" ++ name ∉ draft.seen) :
    readAttributes type draft (attributes.map .ok) =
      .ok ⟨(values.map (fun value => "@" ++ value.1)).reverse ++ draft.seen,
        values.reverse ++ draft.attributes, draft.children⟩ := by
  induction h generalizing draft with
  | nil => rfl
  | @foreign attr attributes values unknown _ ih =>
    have hskip : readAttributes type draft (.ok attr :: attributes.map .ok) =
        readAttributes type draft (attributes.map .ok) := by
      rw [readAttributes]
      split
      · next known hfield => exact absurd hfield (unknown known)
      · rfl
    rw [List.map_cons, hskip, ih once draft unmet]
  | @known attr attributes values known value field read _ ih =>
    obtain ⟨hnew, hunmet⟩ := List.forall_mem_cons.1 unmet
    obtain ⟨hfirst, honce⟩ := List.nodup_cons.1 once
    have hread : readAttributes type draft (.ok attr :: attributes.map .ok) =
        readAttributes type
          (({ draft with seen := ("@" ++ known.name) :: draft.seen } : Draft).addAttribute known
            value) (attributes.map .ok) := by
      rw [readAttributes, field]
      simp only [meet_eq (.attr known) hnew, read]
      rfl
    rw [List.map_cons, hread, ih honce]
    · simp [Draft.addAttribute]
    · intro name hname hmem
      rcases List.mem_cons.1 hmem with e | hmem
      · have e : name = known.name := by simpa using e
        exact hfirst (e ▸ hname)
      · exact hunmet name hname hmem

/-! ### Steps -/

section Steps

theorem next_replay (item : Item) (replay : List Item) (unread : Markup.Remainder) :
    Source.next ⟨item :: replay, unread⟩ = .ok (item, ⟨replay, unread⟩) := rfl

variable {fuel : Nat} {type part : ElementType} {tag next : Tag} {draft : Draft}
  {source after later : Source}

theorem readChildren_text {content : List Char} (h : source.next = .ok (.text content, after)) :
    readChildren (fuel + 1) type tag draft source = readChildren fuel type tag draft after := by
  simp only [readChildren, Source.peek_of_next h, lift_ok, ok_bind, next_replay]

theorem readChildren_finish {name : List Char} (h : source.next = .ok (.finish name, after)) :
    readChildren (fuel + 1) type tag draft source = (do .ok (← draft.finish type, after)) := by
  simp only [readChildren, Source.peek_of_next h, lift_ok, ok_bind, next_replay]

theorem readChildren_foreign (h : source.next = .ok (.start next, after))
    (hfield : type.named? next.name = none) (hskip : after.skip next.name = .ok later) :
    readChildren (fuel + 1) type tag draft source = readChildren fuel type tag draft later := by
  rw [ElementType.named?] at hfield
  simp only [readChildren, Source.peek_of_next h, lift_ok, ok_bind, next_replay, hfield, hskip]

theorem readChildren_child (h : source.next = .ok (.start next, after))
    (hfield : type.named? next.name = some (.child part))
    (hnew : (Field.child part).key ∉ draft.seen)
    (hpresent : (part.isNullable && isAbsent after tag next) = false) {child : Element}
    (hchild : readElement fuel part next after = .ok (child, later)) :
    readChildren (fuel + 1) type tag draft source =
      readChildren fuel type tag
        (({ draft with seen := part.tag :: draft.seen } : Draft).addChild child) later := by
  rw [ElementType.named?] at hfield
  have hpeeked : (part.isNullable &&
      isAbsent ⟨.start next :: after.replay, after.unread⟩ tag next) = false := hpresent
  simp only [readChildren, Source.peek_of_next h, lift_ok, ok_bind, next_replay, hfield,
    meet_eq _ hnew, hpeeked, hchild]
  rfl

theorem readChildren_member (h : source.next = .ok (.start next, after))
    (hfield : type.named? next.name = some (.member part))
    (hnew : (Field.member part).key ∉ draft.seen) :
    readChildren (fuel + 1) type tag draft source = (do
      let (members, source) ←
        readMembers fuel part tag next.name [] [] ⟨.start next :: after.replay, after.unread⟩
      readChildren fuel type tag
        (({ draft with seen := part.tag :: draft.seen } : Draft).addChildren members) source) := by
  rw [ElementType.named?] at hfield
  simp only [readChildren, Source.peek_of_next h, lift_ok, ok_bind, hfield, meet_eq _ hnew]
  rfl

variable {name : List Char} {members : List Element} {aside : List Item}

theorem readMembers_finish {found : List Char} (h : source.next = .ok (.finish found, after)) :
    readMembers (fuel + 1) part tag name members aside source =
      .ok (members, ⟨aside.reverse ++ .finish found :: after.replay, after.unread⟩) := by
  simp only [readMembers, Source.peek_of_next h, lift_ok, ok_bind, Source.putBack]

theorem readMembers_member (h : source.next = .ok (.start next, after)) (hname : next.name = name)
    {member : Element} (hmember : readElement fuel part next after = .ok (member, later)) :
    readMembers (fuel + 1) part tag name members aside source =
      readMembers fuel part tag name (member :: members) aside later := by
  simp only [readMembers, Source.peek_of_next h, lift_ok, ok_bind, next_replay, hname,
    beq_self_eq_true, if_true, hmember]

theorem readMembers_aside (h : source.next = .ok (.start next, after)) (hname : next.name ≠ name)
    {items : List Item}
    (htake : Source.takeElement next.name fuel 0 (.start next :: aside) after =
      .ok (items, later)) :
    readMembers (fuel + 1) part tag name members aside source =
      readMembers fuel part tag name members items later := by
  simp only [readMembers, Source.peek_of_next h, lift_ok, ok_bind, next_replay,
    beq_eq_false_iff_ne.2 hname, htake]
  rfl

end Steps

/-! ### Lists -/

open Markup (Gap Gives)
open Markup.Node (piecesAll)

/-- Reading a node gives an element like this one and leads to what stands after the node. -/
def Reads (node : Node) (element : Element) : Prop :=
  ∀ {fuel : Nat} {source : Source} {more : List Item} {rest : List Token},
    2 * tokenCount node.content < fuel → source.Faces node.content more rest →
      ∃ element' after, readElement fuel element.type node.tag.tag source = .ok (element', after) ∧
        Alike element element' ∧ after.At more rest ∧ after.Fresh

variable {type part : ElementType} {tag : Tag} {source : Source} {more : List Item}
  {rest : List Token} {pieces : List Piece} {node : Node} {fuel : Nat} {parentName : List Char}

theorem Reads.faces {element : Element} (h : Reads node element)
    (hfuel : 2 * tokenCount node.content < fuel)
    (faces : source.Faces (node.content ++ pieces) more rest) :
    ∃ element' after, readElement fuel element.type node.tag.tag source = .ok (element', after) ∧
      Alike element element' ∧ after.Faces pieces more rest ∧ after.Fresh := by
  obtain ⟨items, tokens, hcontent, hpieces⟩ := faces.split
  obtain ⟨element', after, hread, halike, hat, hfresh⟩ := h hfuel hcontent
  exact ⟨element', after, hread, halike, hpieces after hat, hfresh⟩

/-- A node of another name between the members of a list is set aside. -/
theorem readMembers_other (part : ElementType) (tag : Tag) {name : List Char}
    (members : List Element) (aside : List Item)
    (faces : source.Faces (node.pieces ++ pieces) more rest) (fresh : source.Fresh)
    (hname : node.name ≠ name) (hblank : node.lead.IsBlank)
    (hfuel : tokenCount node.content ≤ fuel) :
    ∃ items after, Gives node.pieces items ∧
      readMembers (fuel + 1) part tag name members aside source =
        readMembers fuel part tag name members (items.reverse ++ aside) after ∧
      after.Faces pieces more rest ∧ after.Fresh := by
  rw [node.pieces_eq, List.cons_append] at faces
  obtain ⟨middle, hnext, hmiddle, hfresh⟩ := faces.next_mark (.inr ⟨fresh, hblank⟩)
  obtain ⟨items, after, gives, htake, hafter, hlater⟩ :=
    hmiddle.takeElement hfresh hfuel (.start node.tag.tag :: aside)
  refine ⟨.start node.tag.tag :: items, after, ?_, ?_, hafter, hlater⟩
  · rw [node.pieces_eq]
    exact .mark hblank gives
  · rw [readMembers_aside hnext (by rwa [node.name_tag]) (by rwa [node.name_tag])]
    simp

/-- The first of some nodes is a member of the list, or the list is in the others. -/
theorem member_or_other {nodes : List Node} {elements : List Element}
    (h : ChildrenDescribe Describes (node :: nodes) type elements)
    (hpart : type.member? = some part) :
    (type.isMember node.name = true ∧ ∃ element others, elements = element :: others ∧
        element.type = part ∧ Describes node element ∧
        ChildrenDescribe Describes nodes type others) ∨
      type.isMember node.name = false ∧ ∃ others, ofType part elements = ofType part others ∧
        ChildrenDescribe Describes nodes type others := by
  cases h with
  | foreign unknown rest =>
    exact .inr ⟨by rw [ElementType.isMember, unknown], elements, rfl, rest⟩
  | @child _ _ _ element elements field describe rest =>
    have hne : element.type ≠ part := by
      rintro rfl
      exact ElementType.not_mem_children hpart (ElementType.mem_children_of_named? field)
    refine .inr ⟨by rw [ElementType.isMember, field], elements, ?_, rest⟩
    rw [ofType, List.filter_cons_of_neg (by simp [hne]), ofType]
  | member field describe rest =>
    have htype := ElementType.member?_of_named? field
    rw [hpart, Option.some_inj] at htype
    exact .inl ⟨ElementType.isMember_iff.2 ⟨_, field⟩, _, _, rfl, htype.symm, describe, rest⟩

/-- The members of a list are read in order, and the nodes between them are set aside. -/
theorem readMembers_eq {name : List Char} {nodes : List Node} {trail : Gap}
    {elements : List Element} (h : ChildrenDescribe Describes nodes type elements)
    (hreads : ∀ node ∈ nodes, ∀ element, Describes node element → Reads node element)
    (hpart : type.member? = some part)
    (hname : ∀ node ∈ nodes, type.isMember node.name = true ↔ node.name = name)
    (hblank : ∀ node ∈ nodes, node.lead.IsBlank) (htrail : trail.IsBlank)
    (members : List Element) (aside : List Item)
    (hfuel : 2 * tokenCount (piecesAll nodes ++ [⟨trail, .finish parentName⟩]) ≤ fuel + 1)
    (faces : source.Faces (piecesAll nodes ++ [⟨trail, .finish parentName⟩]) more rest)
    (fresh : source.Fresh) :
    ∃ found items after, readMembers fuel part tag name members aside source =
        .ok (found.reverse ++ members, after) ∧
      List.Forall₂ Alike (ofType part elements) found ∧
      Gives (piecesAll (nodes.filter (fun node => !type.isMember node.name))) items ∧
      after.At (aside.reverse ++ items ++ .finish parentName :: more) rest ∧ after.Fresh := by
  induction nodes generalizing fuel source members aside elements with
  | nil =>
    cases h
    have hfinish := Markup.tokenCount_concat_pos [] ⟨trail, .finish parentName⟩
    rw [Markup.Node.piecesAll_nil] at hfuel
    obtain ⟨fuel, rfl⟩ : ∃ left, fuel = left + 1 := ⟨fuel - 1, by omega⟩
    obtain ⟨after, hnext, hafter, hfresh⟩ := faces.next_mark (.inr ⟨fresh, htrail⟩)
    obtain ⟨hreplay, hunread, -⟩ := Source.faces_nil.1 hafter
    refine ⟨[], [], _, readMembers_finish hnext, .nil, .nil, ⟨?_, hunread, fun _ => hfresh⟩, hfresh⟩
    simp [hreplay]
  | cons node nodes ih =>
    rw [Markup.tokenCount_node] at hfuel
    have hcontent : 0 < tokenCount node.content := Markup.tokenCount_concat_pos _ _
    have hothers := Markup.tokenCount_concat_pos (piecesAll nodes) ⟨trail, .finish parentName⟩
    obtain ⟨fuel, rfl⟩ : ∃ left, fuel = left + 1 := ⟨fuel - 1, by omega⟩
    have hcontentFuel : 2 * tokenCount node.content < fuel := by omega
    have hothersFuel :
        2 * tokenCount (piecesAll nodes ++ [⟨trail, .finish parentName⟩]) ≤ fuel + 1 := by omega
    obtain ⟨hread, hreads⟩ := List.forall_mem_cons.1 hreads
    obtain ⟨hnode, hname⟩ := List.forall_mem_cons.1 hname
    obtain ⟨hlead, hblank⟩ := List.forall_mem_cons.1 hblank
    rw [Markup.Node.piecesAll_cons, List.append_assoc] at faces
    rcases member_or_other h hpart with ⟨hmember, element, others, rfl, htype, describe, rest⟩ |
      ⟨hother, others, hsame, rest⟩
    · rw [node.pieces_eq, List.cons_append] at faces
      obtain ⟨middle, hnext, hmiddle, -⟩ := faces.next_mark (.inr ⟨fresh, hlead⟩)
      obtain ⟨element', later, helement, halike, hlater, hfresh⟩ :=
        Reads.faces (hread element describe) hcontentFuel hmiddle
      obtain ⟨found, items, after, hmembers, hfound, gives, hat, hafter⟩ :=
        ih rest hreads hname hblank (element' :: members) aside hothersFuel hlater hfresh
      rw [htype] at helement
      refine ⟨element' :: found, items, after, ?_, ?_, ?_, hat, hafter⟩
      · rw [readMembers_member hnext (by rw [node.name_tag, hnode.1 hmember]) helement, hmembers]
        simp
      · rw [ofType, List.filter_cons_of_pos (by simp [htype])]
        exact .cons halike hfound
      · rwa [List.filter_cons_of_neg (by simp [hmember])]
    · have hne : node.name ≠ name := fun e => by simp [hnode.2 e] at hother
      obtain ⟨items, later, hitems, hstep, hlater, hfresh⟩ :=
        readMembers_other part tag members aside faces fresh hne hlead
          (show tokenCount node.content ≤ fuel by omega)
      obtain ⟨found, items', after, hmembers, hfound, gives, hat, hafter⟩ :=
        ih rest hreads hname hblank members (items.reverse ++ aside) hothersFuel hlater hfresh
      refine ⟨found, items ++ items', after, by rw [hstep, hmembers], by rwa [hsame], ?_, ?_,
        hafter⟩
      · rw [List.filter_cons_of_pos (by simp [hother]), Markup.Node.piecesAll_cons]
        exact hitems.append gives
      · simpa using hat

/-! ### Children -/

/-- A text before a tag is passed over. -/
theorem readChildren_gap (type : ElementType) (tag : Tag) (draft : Draft) {piece : Piece}
    (faces : source.Faces (piece :: pieces) more rest)
    (hfuel : 2 * tokenCount (piece :: pieces) ≤ fuel) :
    ∃ left middle after, readChildren fuel type tag draft source =
        readChildren (left + 1) type tag draft middle ∧ 2 * tokenCount pieces < left ∧
      middle.next = .ok (piece.mark.item, after) ∧ after.Faces pieces more rest ∧
      after.Fresh := by
  rw [Markup.tokenCount_cons] at hfuel
  rcases faces.next with ⟨content, middle, hnext, hmiddle, htexts, -⟩ |
    ⟨after, hnext, hafter, hfresh, -⟩
  · have hpos := List.length_pos_iff.2 htexts
    obtain ⟨left, rfl⟩ : ∃ left, fuel = left + 1 + 1 := ⟨fuel - 2, by omega⟩
    obtain ⟨after, hmark, hafter⟩ := hmiddle.next_mark (.inl rfl)
    exact ⟨left, middle, after, readChildren_text hnext, by omega, hmark, hafter⟩
  · obtain ⟨left, rfl⟩ : ∃ left, fuel = left + 1 := ⟨fuel - 1, by omega⟩
    exact ⟨left, source, after, rfl, by omega, hnext, hafter, hfresh⟩

theorem finish_eq {draft : Draft}
    (h : ∀ attr ∈ type.attributes, attr.required = true → "@" ++ attr.name ∈ draft.seen) :
    draft.finish type = .ok (.mk type draft.attributes.reverse draft.children.reverse) := by
  have hfind : type.attributes.find? (fun attr =>
      attr.required && !draft.seen.contains (Field.attr attr).key) = none := by
    rw [List.find?_eq_none]
    intro attr hattr
    cases hrequired : attr.required with
    | false => simp
    | true => simp [Field.key, h attr hattr hrequired]
  rw [Draft.finish, hfind]

theorem alike_cons {element element' : Element} {elements elements' : List Element}
    (h : Alike element element')
    (hall : ∀ t, List.Forall₂ Alike (ofType t elements) (ofType t elements')) :
    ∀ t, List.Forall₂ Alike (ofType t (element :: elements))
      (ofType t (element' :: elements')) := by
  intro t
  rw [ofType, ofType, List.filter_cons, List.filter_cons, h.type_eq]
  split
  · exact .cons h (hall t)
  · exact hall t

theorem forall₂_ofType {elements elements' : List Element}
    (h : List.Forall₂ Alike elements elements') :
    ∀ t, List.Forall₂ Alike (ofType t elements) (ofType t elements') := by
  induction h with
  | nil => exact fun _ => .nil
  | cons first _ ih => exact alike_cons first ih

/-- Members first and the other children after them are alike to all children in their order. -/
theorem alike_gather (part : ElementType) {elements found others : List Element}
    (hfound : List.Forall₂ Alike (ofType part elements) found)
    (hothers : ∀ t, List.Forall₂ Alike
      (ofType t (elements.filter (fun element => !(element.type == part)))) (ofType t others)) :
    ∀ t, List.Forall₂ Alike (ofType t elements) (ofType t (found ++ others)) := by
  intro t
  have htypes : ∀ element ∈ found, element.type = part := by
    have h {as bs : List Element} (hall : List.Forall₂ Alike as bs)
        (has : ∀ a ∈ as, a.type = part) : ∀ b ∈ bs, b.type = part := by
      induction hall with
      | nil => simp
      | cons first _ ih =>
        obtain ⟨hfirst, hrest⟩ := List.forall_mem_cons.1 has
        exact List.forall_mem_cons.2 ⟨first.type_eq.trans hfirst, ih hrest⟩
    exact h hfound fun element hmem => by simpa [ofType] using (List.mem_filter.1 hmem).2
  have hothers := hothers t
  rw [ofType, List.filter_filter] at hothers
  rw [ofType, ofType, List.filter_append]
  by_cases ht : t = part
  · subst ht
    have hnone :
        elements.filter (fun element => element.type == t && !(element.type == t)) = [] := by
      simp
    have hall : found.filter (fun element => element.type == t) = found :=
      List.filter_eq_self.2 fun element hmem => by simp [htypes element hmem]
    rw [hnone] at hothers
    cases hothers' : ofType t others with
    | nil =>
      rw [hall, show others.filter (fun element => element.type == t) = [] from hothers',
        List.append_nil]
      exact hfound
    | cons => rw [hothers'] at hothers; cases hothers
  · have hnone : found.filter (fun element => element.type == t) = [] :=
      List.filter_eq_nil_iff.2 fun element hmem => by simp [htypes element hmem, Ne.symm ht]
    have hsame : elements.filter (fun element => element.type == t && !(element.type == part)) =
        elements.filter (fun element => element.type == t) := by
      refine List.filter_congr fun element _ => ?_
      by_cases h : element.type = t <;> simp [h, ht]
    rw [hnone, List.nil_append, ← hsame]
    exact hothers

/-- Nodes that are left in a parent of which a draft has been read. -/
structure Pending (type : ElementType) (draft : Draft) (nodes : List Node) (trail : Gap)
    (elements : List Element) : Prop where
  describe : ChildrenDescribe Describes nodes type elements
  reads : ∀ node ∈ nodes, ∀ element, Describes node element → Reads node element
  orderly : Orderly type nodes trail
  unmet : ∀ node ∈ nodes, ∀ field, type.named? node.name = some field → field.key ∉ draft.seen
  complete : ∀ attr ∈ type.attributes, attr.required = true → "@" ++ attr.name ∈ draft.seen

namespace Pending

variable {draft : Draft} {nodes : List Node} {trail : Gap} {elements others : List Element}

/-- The first node has been passed over. -/
theorem tail (h : Pending type draft (node :: nodes) trail elements)
    (hothers : ChildrenDescribe Describes nodes type others) :
    Pending type draft nodes trail others :=
  ⟨hothers, fun node hnode => h.reads node (List.mem_cons_of_mem _ hnode),
    ⟨h.orderly.follows.of_cons,
      fun node hnode => h.orderly.silent node (List.mem_cons_of_mem _ hnode)⟩,
    fun node hnode => h.unmet node (List.mem_cons_of_mem _ hnode), h.complete⟩

/-- A field has been met that no node is left of. -/
theorem meet (h : Pending type draft nodes trail elements) {field : Field} {name : List Char}
    (hfield : type.named? name = some field)
    (hne : ∀ node ∈ nodes, type.named? node.name ≠ some field) (read : List Element) :
    Pending type ⟨field.key :: draft.seen, draft.attributes, read⟩ nodes trail elements := by
  refine ⟨h.describe, h.reads, h.orderly, ?_, fun attr hattr hrequired =>
    List.mem_cons_of_mem _ (h.complete attr hattr hrequired)⟩
  intro node hmem found hfound hseen
  rcases List.mem_cons.1 hseen with hkey | hseen
  · exact hne node hmem (ElementType.named?_inj hfield hfound hkey ▸ hfound)
  · exact h.unmet node hmem found hfound hseen

/-- The members of the list have been read, and no gap is left that a text could be in. -/
theorem filter (h : Pending type draft nodes trail elements) (hpart : type.member? = some part) :
    Pending type draft (nodes.filter (fun node => !type.isMember node.name)) {}
      (elements.filter (fun element => !(element.type == part))) :=
  ⟨h.describe.filter_not_member hpart,
    fun node hnode => h.reads node (List.mem_filter.1 hnode).1,
    ⟨h.orderly.follows.filter _, fun node hnode hmember => by simp [hmember] at hnode⟩,
    fun node hnode => h.unmet node (List.mem_filter.1 hnode).1, h.complete⟩

end Pending

/-- A list is read from its first member to the end of the parent. -/
theorem Pending.readMembers_eq {draft : Draft} {nodes : List Node} {trail : Gap}
    {element : Element} {elements : List Element}
    (pending : Pending type draft (node :: nodes) trail (element :: elements))
    (field : type.named? node.name = some (.member element.type))
    (describe : Describes node element)
    (others : ChildrenDescribe Describes nodes type elements) (tag : Tag)
    (hcontent : 2 * tokenCount node.content < fuel)
    (hothers : 2 * tokenCount (piecesAll nodes ++ [⟨trail, .finish parentName⟩]) ≤ fuel + 1)
    (faces : source.Faces
      (node.content ++ (piecesAll nodes ++ [⟨trail, .finish parentName⟩])) more rest) :
    ∃ element' found items after,
      readMembers (fuel + 1) element.type tag node.name [] []
          ⟨.start node.tag.tag :: source.replay, source.unread⟩ =
        .ok (found.reverse ++ [element'], after) ∧
      Alike element element' ∧ List.Forall₂ Alike (ofType element.type elements) found ∧
      Gives (piecesAll (nodes.filter (fun node => !type.isMember node.name))) items ∧
      after.At (items ++ .finish parentName :: more) rest := by
  have hfollows := (List.pairwise_cons.1 pending.orderly.follows).1
  have hmember : type.isMember node.name = true := ElementType.isMember_iff.2 ⟨_, field⟩
  have hname : ∀ later ∈ nodes, type.isMember later.name = true ↔ later.name = node.name :=
    fun later hmem => ⟨(hfollows later hmem).same hmember, fun e => e ▸ hmember⟩
  obtain ⟨element', later, helement, halike, hlater, hfresh⟩ :=
    Reads.faces (pending.reads node List.mem_cons_self element describe) hcontent faces
  obtain ⟨found, items, after, hmembers, hfound, gives, hat, -⟩ :=
    Element.readMembers_eq others
      (fun node hnode => pending.reads node (List.mem_cons_of_mem _ hnode))
      (ElementType.member?_of_named? field) hname
      (fun later hmem => (hfollows later hmem).silent hmember)
      (pending.orderly.silent node List.mem_cons_self hmember) [element'] [] hothers hlater hfresh
  refine ⟨element', found, items, after, ?_, halike, hfound, gives, by simpa using hat⟩
  -- the first member is looked at before the list begins, so it is still in front here
  rw [readMembers_member (next_replay _ _ _) node.name_tag helement, hmembers]

section ChildSteps

variable {draft : Draft} {nodes : List Node} {trail : Gap} {elements : List Element} {left : Nat}
  {middle after : Source}

/-- What the type does not know is passed over. -/
theorem Pending.foreign_step (unknown : type.named? node.name = none)
    (hnext : middle.next = .ok (.start node.tag.tag, after))
    (hafter : after.Faces (node.content ++ pieces) more rest) :
    ∃ later, readChildren (left + 1) type tag draft middle =
        readChildren left type tag draft later ∧ later.Faces pieces more rest := by
  obtain ⟨later, hskip, hlater⟩ := hafter.skip
  rw [← node.name_tag] at unknown hskip
  exact ⟨later, readChildren_foreign hnext unknown hskip, hlater⟩

variable {element : Element}
  (pending : Pending type draft (node :: nodes) trail (element :: elements))
  (describe : Describes node element) (others : ChildrenDescribe Describes nodes type elements)
  (hnext : middle.next = .ok (.start node.tag.tag, after))
  (hafter : after.Faces (node.content ++ (piecesAll nodes ++ [⟨trail, .finish parentName⟩])) more
    rest)

include pending describe others hnext hafter

/-- A child that stands once is read. -/
theorem Pending.child_step (field : type.named? node.name = some (.child element.type))
    (hcontent : 2 * tokenCount node.content < left) :
    ∃ element' later, readChildren (left + 1) type tag draft middle =
        readChildren left type tag
          ⟨element.type.tag :: draft.seen, draft.attributes, element' :: draft.children⟩ later ∧
      Alike element element' ∧
      Pending type ⟨element.type.tag :: draft.seen, draft.attributes, element' :: draft.children⟩
        nodes trail elements ∧
      later.Faces (piecesAll nodes ++ [⟨trail, .finish parentName⟩]) more rest := by
  have hfollows := (List.pairwise_cons.1 pending.orderly.follows).1
  obtain ⟨tokens, hunread⟩ := hafter.unread_at
  have hpresent : (element.type.isNullable && isAbsent after tag node.tag.tag) = false := by
    simp only [isAbsent, Markup.Scope.marksNil_eq hunread.bindings_scopeAhead, Bool.or_false,
      Bool.and_false]
  obtain ⟨element', later, helement, halike, hlater, -⟩ :=
    Reads.faces (pending.reads node List.mem_cons_self element describe) hcontent hafter
  have hpending := (pending.tail others).meet field
    (fun later hmem => (hfollows later hmem).once _ field) (element' :: draft.children)
  have hnew := pending.unmet node List.mem_cons_self _ field
  rw [← node.name_tag] at field
  exact ⟨element', later, readChildren_child hnext field hnew hpresent helement, halike, hpending,
    hlater⟩

/-- A list is read with all its members, and what stands between them is left. -/
theorem Pending.member_step (field : type.named? node.name = some (.member element.type))
    (hcontent : 2 * tokenCount node.content + 1 < left)
    (hothers : 2 * tokenCount (piecesAll nodes ++ [⟨trail, .finish parentName⟩]) ≤ left) :
    ∃ element' found later, readChildren (left + 1) type tag draft middle =
        readChildren left type tag ⟨element.type.tag :: draft.seen, draft.attributes,
          found.reverse ++ [element'] ++ draft.children⟩ later ∧
      Alike element element' ∧ List.Forall₂ Alike (ofType element.type elements) found ∧
      Pending type ⟨element.type.tag :: draft.seen, draft.attributes,
          found.reverse ++ [element'] ++ draft.children⟩
        (nodes.filter (fun node => !type.isMember node.name)) {}
        (elements.filter (fun other => !(other.type == element.type))) ∧
      later.Faces (piecesAll (nodes.filter (fun node => !type.isMember node.name)) ++
        [⟨{}, .finish parentName⟩]) more rest := by
  obtain ⟨left, rfl⟩ : ∃ less, left = less + 1 := ⟨left - 1, by omega⟩
  obtain ⟨element', found, items, later, hmembers, halike, hfound, gives, hat⟩ :=
    pending.readMembers_eq field describe others tag (by omega) hothers hafter
  have hpending := ((pending.tail others).filter (ElementType.member?_of_named? field)).meet
    field (fun later hmem e => by
      have hlater : type.isMember later.name = true := ElementType.isMember_iff.2 ⟨_, e⟩
      simp [hlater] at hmem)
    (found.reverse ++ [element'] ++ draft.children)
  have hfaces : later.Faces (piecesAll (nodes.filter (fun node => !type.isMember node.name)) ++
      [⟨{}, .finish parentName⟩]) more rest :=
    .setAside (gives.append (.mark Markup.Gap.isBlank_empty .nil))
      (by simpa [Markup.Mark.item] using hat)
  have hnew := pending.unmet node List.mem_cons_self _ field
  rw [← node.name_tag] at field hmembers
  refine ⟨element', found, later, ?_, halike, hfound, hpending, hfaces⟩
  rw [readChildren_member hnext field hnew, hmembers]
  rfl

end ChildSteps

/-- The rest of an element is read as the children that are left in it. -/
theorem readChildren_eq (length : Nat) : ∀ {nodes : List Node} {trail : Gap}
    {elements : List Element} {draft : Draft} {fuel : Nat} {source : Source} {more : List Item}
    {rest : List Token}, nodes.length = length → Pending type draft nodes trail elements →
    2 * tokenCount (piecesAll nodes ++ [⟨trail, .finish parentName⟩]) ≤ fuel →
    source.Faces (piecesAll nodes ++ [⟨trail, .finish parentName⟩]) more rest →
    ∃ found after, readChildren fuel type tag draft source =
        .ok (.mk type draft.attributes.reverse (draft.children.reverse ++ found), after) ∧
      (∀ t, List.Forall₂ Alike (ofType t elements) (ofType t found)) ∧
      after.At more rest ∧ after.Fresh := by
  induction length using Nat.strongRecOn with
  | ind length ih =>
  intro nodes trail elements draft fuel source more rest hlength pending hfuel faces
  cases nodes with
  | nil =>
    cases pending.describe
    obtain ⟨left, middle, after, hgap, -, hnext, hafter, hfresh⟩ :=
      readChildren_gap type tag draft faces hfuel
    refine ⟨[], after, ?_, fun _ => .nil, Source.faces_nil.1 hafter, hfresh⟩
    rw [hgap, readChildren_finish hnext, finish_eq pending.complete, List.append_nil]
    rfl
  | cons node nodes =>
    subst hlength
    rw [Markup.Node.piecesAll_cons, node.pieces_eq, List.cons_append, List.cons_append,
      List.append_assoc] at faces hfuel
    obtain ⟨left, middle, after, hgap, hleft, hnext, hafter, -⟩ :=
      readChildren_gap type tag draft faces hfuel
    rw [hgap]
    rw [Markup.tokenCount_append] at hleft
    have hpos := Markup.tokenCount_concat_pos (piecesAll nodes) ⟨trail, .finish parentName⟩
    have hcontent : 2 * tokenCount node.content + 1 < left := by omega
    have hothers : 2 * tokenCount (piecesAll nodes ++ [⟨trail, .finish parentName⟩]) ≤ left := by
      omega
    cases pending.describe with
    | foreign unknown others =>
      obtain ⟨later, hstep, hlater⟩ := Pending.foreign_step unknown hnext hafter
      rw [hstep]
      exact ih nodes.length (by simp) rfl (pending.tail others) hothers hlater
    | @child _ _ _ element elements field describe others =>
      obtain ⟨element', later, hstep, halike, hpending, hlater⟩ :=
        pending.child_step describe others hnext hafter field (Nat.lt_of_succ_lt hcontent)
      obtain ⟨found, last, hread, hall, hlast⟩ :=
        ih nodes.length (by simp) rfl hpending hothers hlater
      refine ⟨element' :: found, last, ?_, alike_cons halike hall, hlast⟩
      rw [hstep, hread]
      simp
    | @member _ _ _ element elements field describe others =>
      have hfilter := Markup.tokenCount_filter_le nodes (fun node => !type.isMember node.name) trail
        (.finish parentName)
      obtain ⟨element', found, later, hstep, halike, hfound, hpending, hlater⟩ :=
        pending.member_step describe others hnext hafter field hcontent hothers
      obtain ⟨rests, last, hread, hall, hlast⟩ :=
        ih _ (Nat.lt_succ_of_le (List.length_filter_le _ nodes)) rfl hpending
          (Nat.le_trans (Nat.mul_le_mul_left 2 hfilter) hothers) hlater
      refine ⟨element' :: found ++ rests, last, ?_, alike_gather element.type ?_ ?_, hlast⟩
      · rw [hstep, hread]
        simp
      · rw [ofType, List.filter_cons_of_pos (by simp)]
        exact .cons halike hfound
      · rwa [List.filter_cons_of_neg (by simp)]

/-! ### Elements -/

/-- A node is read as the element it describes. -/
theorem reads_of_describes (node : Node) :
    ∀ element, Describes node element → Reads node element := by
  induction node using Node.induct with
  | step node ih =>
  intro element h
  cases h with
  | @intro _ type values named elements distinct attributes perm once complete children orderly =>
  intro fuel source more rest hfuel faces
  obtain ⟨fuel, rfl⟩ : ∃ left, fuel = left + 1 := ⟨fuel - 1, by omega⟩
  have hattributes : node.tag.tag.attributes true =
      (node.tag.attributes.map Markup.AttributeLayout.attribute).map .ok := by
    rw [node.tag.attributes_tag fun _ => distinct, List.map_map]
    rfl
  have hnames := perm.map Prod.fst
  have hread := readAttributes_eq attributes (hnames.nodup_iff.2 once) {} (by simp)
  have hpending : Pending type
      ⟨(named.map (fun value => "@" ++ value.1)).reverse ++ [], named.reverse ++ [], []⟩
      node.children node.trail elements := by
    refine ⟨children, ih, orderly, fun child hchild field hfield hseen => ?_,
      fun attr hattr hrequired => ?_⟩
    · obtain ⟨value, -, hvalue⟩ := List.mem_map.1
        (List.mem_reverse.1 (by simpa only [List.append_nil] using hseen))
      exact children.key_ne hchild hfield value.1 hvalue.symm
    · obtain ⟨value, hvalue, hname⟩ :=
        List.mem_map.1 (hnames.mem_iff.2 (complete attr hattr hrequired))
      rw [List.append_nil]
      exact List.mem_reverse.2 (List.mem_map.2 ⟨value, hvalue, by rw [hname]⟩)
  obtain ⟨found, after, hfound, hall, hafter⟩ :=
    readChildren_eq _ rfl hpending (show 2 * tokenCount node.content ≤ fuel by omega) faces
  refine ⟨.mk type named found, after, ?_, .intro rfl (lookup_perm perm once) hall, hafter⟩
  rw [Element.type, readElement, hattributes, hread, ok_bind]
  simpa using hfound

end Element

end UpdateProtocol

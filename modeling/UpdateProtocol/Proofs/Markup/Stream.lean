import UpdateProtocol.Markup.Source
import UpdateProtocol.Proofs.Markup.Attributes
import UpdateProtocol.Proofs.Markup.References

/-!
# Reading a layout item by item

A source stands before some pieces of a document (`Source.Faces`) in one of two ways: their tokens
have not been read, or their items were set aside and are read again.  What the operations of a
source do with the pieces is the same in both: the next item, passing over an element, setting one
aside.

No tag here declares a namespace and no text has an ampersand, so reading cannot fail at an item.
-/

namespace UpdateProtocol.Markup

/-! ### Calm pieces -/

/-- Whether a tag leaves the namespaces as they are. -/
def Tag.Calm (tag : Tag) : Prop :=
  ∀ attr, .ok attr ∈ tag.attributes false → Scope.declared? attr.name = none

/-- Whether a token is read without a fault and leaves the namespaces as they are. -/
def Token.Calm : Token → Prop
  | .text raw => '&' ∉ raw
  | .start tag => tag.Calm
  | _ => True

/-- Whether all tokens of a piece are read like this. -/
def Piece.Calm (piece : Piece) : Prop :=
  ∀ token ∈ piece.tokens, token.Calm

/-- Whether all pieces of a node are. -/
def Node.Calm (node : Node) : Prop :=
  ∀ piece ∈ node.pieces, piece.Calm

/-- Whether the texts of a gap have no references. -/
def Gap.Calm (gap : Gap) : Prop :=
  ∀ raw ∈ gap.texts, '&' ∉ raw

theorem Gap.calm_empty : ({} : Gap).Calm := by simp [Gap.Calm]

theorem Gap.isBlank_empty : ({} : Gap).IsBlank := by simp [Gap.IsBlank]

theorem Gap.IsBlank.calm {gap : Gap} (h : gap.IsBlank) : gap.Calm := fun raw hraw hamp =>
  absurd (List.all_eq_true.1 (h raw hraw) '&' hamp) (by decide)

theorem TagLayout.calm_tag {tag : TagLayout}
    (h : ∀ attr ∈ tag.attributes, Scope.declared? attr.name.chars = none) : tag.tag.Calm := by
  intro attr hattr
  rw [tag.attributes_tag (fun e => absurd e (by decide))] at hattr
  obtain ⟨layout, hlayout, e⟩ := List.mem_map.1 hattr
  cases e
  exact h layout hlayout

theorem Piece.calm_mk {gap : Gap} {mark : Mark} (hgap : gap.Calm) (hmark : mark.token.Calm) :
    Piece.Calm ⟨gap, mark⟩ := by
  intro token hmem
  rcases List.mem_append.1 hmem with hmem | hmem
  · obtain ⟨raw, hraw, rfl⟩ := List.mem_map.1 hmem
    exact hgap raw hraw
  · rw [List.mem_singleton.1 hmem]
    exact hmark

theorem Node.calm_of {node : Node} (hlead : node.lead.Calm)
    (htag : ∀ attr ∈ node.tag.attributes, Scope.declared? attr.name.chars = none)
    (hchildren : ∀ child ∈ node.children, child.Calm) (htrail : node.trail.Calm) : node.Calm := by
  have hall : ∀ {nodes : List Node}, (∀ child ∈ nodes, child.Calm) →
      ∀ piece ∈ Node.piecesAll nodes, piece.Calm := by
    intro nodes h
    induction nodes with
    | nil => simp
    | cons child nodes ih =>
      obtain ⟨hchild, hnodes⟩ := List.forall_mem_cons.1 h
      rw [Node.piecesAll_cons]
      exact List.forall_mem_append.2 ⟨hchild, ih hnodes⟩
  rw [Node.Calm, node.pieces_eq, Node.content, List.forall_mem_cons, List.forall_mem_append,
    List.forall_mem_singleton]
  exact ⟨Piece.calm_mk hlead (TagLayout.calm_tag htag), hall hchildren,
    Piece.calm_mk htrail trivial⟩

namespace Scope

theorem bindings_settle {scope : Scope} (h : scope.bindings = []) : scope.settle.bindings = [] := by
  unfold settle leave
  split <;> simp [h]

theorem declare_eq {attributes : List (Except AttributeError Attribute)} (scope : Scope)
    (h : ∀ attr, .ok attr ∈ attributes → declared? attr.name = none) :
    scope.declare attributes = (scope, none) := by
  induction attributes with
  | nil => rfl
  | cons attr attributes ih =>
    cases attr with
    | error => rfl
    | ok attr =>
      rw [declare, h attr List.mem_cons_self]
      exact ih fun attr hattr => h attr (List.mem_cons_of_mem _ hattr)

theorem enter_eq {tag : Tag} (scope : Scope) (h : tag.Calm) :
    scope.enter tag = ({ scope.settle with level := scope.settle.level + 1 }, none) :=
  declare_eq _ h

/-- Nothing is marked as absent where nothing is bound. -/
theorem marksNil_eq {scope : Scope} (h : scope.bindings = []) (tag : Tag) :
    scope.marksNil tag = false := by
  have hnil (attr : Attribute) : scope.isNil attr = false := by
    cases hq : qualifier? attr.name <;> simp [isNil, hq, lookup, h]
  simp only [marksNil, List.any_eq_false]
  intro attr _
  cases attr <;> simp [hnil]

end Scope

/-! ### What remains of a document -/

/-- The part of a document that has not been read consists of calm tokens, and nothing is bound
outside of it. -/
structure Remainder.At (rest : Remainder) (tokens : List Token) : Prop where
  tokens_eq : rest.tokens = tokens
  calm : ∀ token ∈ tokens, token.Calm
  unbound : rest.scope.bindings = []

/-- The item of a mark. -/
def Mark.item : Mark → Item
  | start tag => .start tag
  | finish name => .finish name

theorem readText_texts {texts : List (List Char)} (h : ∀ raw ∈ texts, '&' ∉ raw) (mark : Mark)
    (tokens : List Token) (collected : List Char) :
    ∃ content, readText collected (texts.map .text ++ mark.token :: tokens) =
      .ok (content, mark.token :: tokens) := by
  induction texts generalizing collected with
  | nil => cases mark <;> exact ⟨_, rfl⟩
  | cons raw texts ih =>
    obtain ⟨hraw, htexts⟩ := List.forall_mem_cons.1 h
    obtain ⟨resolved, hresolved⟩ : ∃ resolved, resolve (if textFollows (texts.map .text ++
        mark.token :: tokens) then raw else Text.trimEnd raw) = .ok resolved := by
      split
      · exact ⟨_, resolve_of_spells (spells_self hraw)⟩
      · refine ⟨_, resolve_of_spells (spells_self fun hmem => hraw ?_)⟩
        exact List.mem_reverse.1 ((List.dropWhile_sublist _).subset (List.mem_reverse.1 hmem))
    obtain ⟨content, hcontent⟩ := ih htexts (resolved.reverse ++ collected)
    refine ⟨content, ?_⟩
    rw [List.map_cons, List.cons_append, readText, hresolved]
    exact hcontent

namespace Remainder

/-- A mark is read as its item. -/
theorem nextFrom_mark {rest : Remainder} {mark : Mark} {tokens : List Token}
    (hcalm : ∀ token ∈ mark.token :: tokens, token.Calm) (hunbound : rest.scope.bindings = []) :
    ∃ after, rest.nextFrom (mark.token :: tokens) = .ok (mark.item, after) ∧ after.At tokens ∧
      after.trim = true := by
  obtain ⟨hmark, htokens⟩ := List.forall_mem_cons.1 hcalm
  have hsettle := Scope.bindings_settle hunbound
  cases mark with
  | start tag =>
    simp only [Mark.token, nextFrom, rest.scope.enter_eq hmark]
    exact ⟨_, rfl, ⟨rfl, htokens, hsettle⟩, rfl⟩
  | finish name => exact ⟨_, rfl, ⟨rfl, htokens, hsettle⟩, rfl⟩

/-- Texts before a mark are read as one text or as nothing, and as nothing where they are blank and
blanks do not count. -/
theorem nextFrom_texts {rest : Remainder} {texts : List (List Char)} {mark : Mark}
    {tokens : List Token} (hcalm : ∀ token ∈ texts.map .text ++ mark.token :: tokens, token.Calm)
    (hunbound : rest.scope.bindings = []) :
    (∃ content after, rest.nextFrom (texts.map .text ++ mark.token :: tokens) =
        .ok (.text content, after) ∧ after.At (mark.token :: tokens) ∧ texts ≠ [] ∧
        ¬ (rest.trim = true ∧ ∀ raw ∈ texts, raw.all Text.isBlank = true)) ∨
      ∃ after, rest.nextFrom (texts.map .text ++ mark.token :: tokens) = .ok (mark.item, after) ∧
        after.At tokens ∧ after.trim = true ∧ ∀ raw ∈ texts, raw.all Text.isBlank = true := by
  induction texts generalizing rest with
  | nil =>
    obtain ⟨after, hread, hat, htrim⟩ := nextFrom_mark hcalm hunbound
    exact .inr ⟨after, hread, hat, htrim, by simp⟩
  | cons raw texts ih =>
    obtain ⟨hraw, htokens⟩ := List.forall_mem_cons.1 hcalm
    have hsettle := Scope.bindings_settle hunbound
    simp only [List.map_cons, List.cons_append, nextFrom]
    by_cases hvoid : rest.isVoid raw = true
    · rw [if_pos hvoid]
      have hblank : raw.all Text.isBlank = true := (Bool.and_eq_true_iff.1 hvoid).2
      rcases @ih { rest with scope := rest.scope.settle } htokens hsettle with
        ⟨content, after, hnext, hat, -, hsolid⟩ | ⟨after, hnext, hat, htrim, hblanks⟩
      · refine .inl ⟨content, after, hnext, hat, by simp, fun h => hsolid ⟨h.1, ?_⟩⟩
        exact fun raw hraw => h.2 raw (List.mem_cons_of_mem _ hraw)
      · exact .inr ⟨after, hnext, hat, htrim, List.forall_mem_cons.2 ⟨hblank, hblanks⟩⟩
    · rw [if_neg hvoid]
      have hamp : '&' ∉ (if rest.trim then Text.trimStart raw else raw) := by
        split
        · exact fun hmem => hraw ((List.dropWhile_sublist _).subset hmem)
        · exact hraw
      have htexts : ∀ raw ∈ texts, '&' ∉ raw := fun raw hmem =>
        htokens (.text raw) (List.mem_append_left _ (List.mem_map_of_mem hmem))
      obtain ⟨content, hcontent⟩ := readText_texts (List.forall_mem_cons.2 ⟨hamp, htexts⟩) mark
        tokens []
      rw [List.map_cons, List.cons_append] at hcontent
      rw [hcontent]
      refine .inl ⟨content, _, rfl, ⟨rfl, fun token hmem => ?_, hsettle⟩, by simp, fun h => ?_⟩
      · exact htokens token (List.mem_append_right _ hmem)
      · exact hvoid (Bool.and_eq_true_iff.2 ⟨h.1, h.2 raw List.mem_cons_self⟩)

end Remainder

/-! ### Items -/

/-- The items that pieces can be read as.  Blanks beside a tag leave nothing. -/
inductive Gives : List Piece → List Item → Prop
  | nil : Gives [] []
  | mark {piece : Piece} {pieces : List Piece} {items : List Item} (blank : piece.gap.IsBlank)
      (rest : Gives pieces items) : Gives (piece :: pieces) (piece.mark.item :: items)
  | text {piece : Piece} {pieces : List Piece} {items : List Item} (content : List Char)
      (solid : ¬ piece.gap.IsBlank) (rest : Gives pieces items) :
      Gives (piece :: pieces) (.text content :: piece.mark.item :: items)

/-- The number of tokens of some pieces. -/
def tokenCount (pieces : List Piece) : Nat :=
  (pieces.flatMap Piece.tokens).length

theorem tokenCount_append (pieces more : List Piece) :
    tokenCount (pieces ++ more) = tokenCount pieces + tokenCount more := by
  simp [tokenCount]

theorem tokenCount_cons (piece : Piece) (pieces : List Piece) :
    tokenCount (piece :: pieces) = piece.gap.texts.length + 1 + tokenCount pieces := by
  simp only [tokenCount, Piece.tokens, List.flatMap_cons, List.length_append, List.length_map,
    List.length_singleton]

theorem tokenCount_node (node : Node) (nodes : List Node) (pieces : List Piece) :
    tokenCount (Node.piecesAll (node :: nodes) ++ pieces) =
      node.lead.texts.length + 1 + tokenCount node.content +
        tokenCount (Node.piecesAll nodes ++ pieces) := by
  rw [Node.piecesAll_cons, node.pieces_eq, List.append_assoc, tokenCount_append, tokenCount_cons]

/-- Some of the nodes have no more tokens than all of them. -/
theorem tokenCount_filter_le (nodes : List Node) (keep : Node → Bool) (trail : Gap) (mark : Mark) :
    tokenCount (Node.piecesAll (nodes.filter keep) ++ [⟨{}, mark⟩]) ≤
      tokenCount (Node.piecesAll nodes ++ [⟨trail, mark⟩]) := by
  induction nodes with
  | nil => simp [tokenCount, Piece.tokens]
  | cons node nodes ih =>
    rw [tokenCount_node, List.filter_cons]
    split
    · rw [tokenCount_node]
      omega
    · omega

theorem tokenCount_concat_pos (pieces : List Piece) (piece : Piece) :
    0 < tokenCount (pieces ++ [piece]) := by
  rw [tokenCount_append, tokenCount_cons]
  omega

theorem Gap.texts_ne_nil {gap : Gap} (h : ¬ gap.IsBlank) : gap.texts ≠ [] := by
  intro e
  exact h fun raw hraw => by simp [e] at hraw

namespace Gives

theorem length_le {pieces : List Piece} {items : List Item} (h : Gives pieces items) :
    items.length ≤ tokenCount pieces := by
  induction h with
  | nil => exact Nat.zero_le _
  | mark _ _ ih =>
    rw [tokenCount_cons, List.length_cons]
    omega
  | text _ solid _ ih =>
    have hpos := List.length_pos_iff.2 (Gap.texts_ne_nil solid)
    rw [tokenCount_cons, List.length_cons, List.length_cons]
    omega

theorem append {pieces more : List Piece} {items rest : List Item} (h : Gives pieces items)
    (hmore : Gives more rest) : Gives (pieces ++ more) (items ++ rest) := by
  induction h with
  | nil => exact hmore
  | mark blank _ ih => exact .mark blank ih
  | text content solid _ ih => exact .text content solid ih

theorem split {pieces more : List Piece} {items : List Item} (h : Gives (pieces ++ more) items) :
    ∃ first last, items = first ++ last ∧ Gives pieces first ∧ Gives more last := by
  induction pieces generalizing items with
  | nil => exact ⟨[], items, rfl, .nil, h⟩
  | cons piece pieces ih =>
    cases h with
    | mark blank rest =>
      obtain ⟨first, last, rfl, hfirst, hlast⟩ := ih rest
      exact ⟨_ :: first, last, rfl, .mark blank hfirst, hlast⟩
    | text content solid rest =>
      obtain ⟨first, last, rfl, hfirst, hlast⟩ := ih rest
      exact ⟨_ :: _ :: first, last, rfl, .text content solid hfirst, hlast⟩

end Gives

/-! ### Sources -/

namespace Source

/-- A source gives some items again and then reads calm tokens. -/
structure At (source : Source) (items : List Item) (tokens : List Token) : Prop where
  replay_eq : source.replay = items
  unread : source.unread.At tokens
  trims : items ≠ [] → source.unread.trim = true

/-- Whether blanks that come next do not count. -/
def Fresh (source : Source) : Prop :=
  source.unread.trim = true

/-- A source stands before some pieces, and after them before the given items and tokens. -/
inductive Faces (source : Source) (pieces : List Piece) : List Item → List Token → Prop
  | unread {rest : List Token} (h : source.At [] (pieces.flatMap Piece.tokens ++ rest)) :
      Faces source pieces [] rest
  | setAside {items more : List Item} {rest : List Token} (gives : Gives pieces items)
      (h : source.At (items ++ more) rest) : Faces source pieces more rest

variable {source : Source} {piece : Piece} {pieces : List Piece} {more : List Item}
  {rest : List Token}

theorem faces_nil : source.Faces [] more rest ↔ source.At more rest := by
  refine ⟨fun h => ?_, .setAside .nil⟩
  cases h with
  | unread h => exact h
  | setAside gives h =>
    cases gives
    exact h

theorem Faces.unread_at (h : source.Faces pieces more rest) :
    ∃ tokens, source.unread.At tokens := by
  cases h with
  | unread h => exact ⟨_, h.unread⟩
  | setAside _ h => exact ⟨_, h.unread⟩

/-- The pieces at the front can be looked at on their own. -/
theorem Faces.split {first last : List Piece} (h : source.Faces (first ++ last) more rest) :
    ∃ items tokens, source.Faces first items tokens ∧
      ∀ after : Source, after.At items tokens → after.Faces last more rest := by
  cases h with
  | unread h =>
    rw [List.flatMap_append, List.append_assoc] at h
    exact ⟨[], _, .unread h, fun _ h => .unread h⟩
  | setAside gives h =>
    obtain ⟨items, others, rfl, hfirst, hlast⟩ := gives.split
    rw [List.append_assoc] at h
    exact ⟨_, _, .setAside hfirst h, fun _ h => .setAside hlast h⟩

/-- The next item belongs to the first piece: its mark after blanks at most, or a text that stands
before it. -/
theorem Faces.next (h : source.Faces (piece :: pieces) more rest) :
    (∃ content after, source.next = .ok (.text content, after) ∧
        after.Faces (⟨{}, piece.mark⟩ :: pieces) more rest ∧ piece.gap.texts ≠ [] ∧
        ¬ (source.Fresh ∧ piece.gap.IsBlank)) ∨
      ∃ after, source.next = .ok (piece.mark.item, after) ∧ after.Faces pieces more rest ∧
        after.Fresh ∧ piece.gap.IsBlank := by
  cases h with
  | unread h =>
    obtain ⟨hreplay, ⟨htokens, hcalm, hunbound⟩, -⟩ := h
    simp only [List.flatMap_cons, Piece.tokens, List.append_assoc, List.cons_append,
      List.nil_append] at htokens hcalm
    have hnext : source.next = (source.unread.nextFrom source.unread.tokens >>=
        fun found => .ok (found.1, ⟨[], found.2⟩)) := by
      rw [Source.next, hreplay]
      rfl
    rw [hnext, htokens]
    rcases Remainder.nextFrom_texts hcalm hunbound with
      ⟨content, after, hread, hat, htexts, hsolid⟩ | ⟨after, hread, hat, htrim, hblank⟩
    · rw [hread]
      refine .inl ⟨content, _, rfl, .unread ⟨rfl, ?_, by simp⟩, htexts, hsolid⟩
      simpa [Piece.tokens] using hat
    · rw [hread]
      exact .inr ⟨_, rfl, .unread ⟨rfl, hat, by simp⟩, htrim, hblank⟩
  | setAside gives h =>
    obtain ⟨hreplay, hunread, htrims⟩ := h
    cases gives with
    | @mark _ _ items blank gives =>
      have htrim : source.unread.trim = true := htrims (by simp)
      have hnext : source.next = .ok (piece.mark.item, ⟨items ++ more, source.unread⟩) := by
        rw [Source.next, hreplay]
        rfl
      exact .inr ⟨_, hnext, .setAside gives ⟨rfl, hunread, fun _ => htrim⟩, htrim, blank⟩
    | @text _ _ items content solid gives =>
      have htrim : source.unread.trim = true := htrims (by simp)
      have hnext : source.next =
          .ok (.text content, ⟨piece.mark.item :: items ++ more, source.unread⟩) := by
        rw [Source.next, hreplay]
        rfl
      exact .inl ⟨content, _, hnext,
        .setAside (.mark Gap.isBlank_empty gives) ⟨rfl, hunread, fun _ => htrim⟩,
        Gap.texts_ne_nil solid, fun h => solid h.2⟩

/-- Where no text stands before a mark, the mark comes next. -/
theorem Faces.next_mark (h : source.Faces (piece :: pieces) more rest)
    (hblank : piece.gap.texts = [] ∨ source.Fresh ∧ piece.gap.IsBlank) :
    ∃ after, source.next = .ok (piece.mark.item, after) ∧ after.Faces pieces more rest ∧
      after.Fresh := by
  rcases h.next with ⟨_, _, -, -, htexts, hsolid⟩ | ⟨after, hnext, hafter, hfresh, -⟩
  · rcases hblank with hnone | hblank
    · exact absurd hnone htexts
    · exact absurd hblank hsolid
  · exact ⟨after, hnext, hafter, hfresh⟩

/-- Where nothing is read again, the tokens of the pieces are still there. -/
theorem Faces.tokenCount_le (h : source.Faces (pieces ++ [piece]) more rest)
    (hreplay : source.replay = []) : tokenCount (pieces ++ [piece]) ≤ source.size := by
  cases h with
  | unread h =>
    rw [size, h.unread.tokens_eq, List.length_append, tokenCount]
    omega
  | setAside gives h =>
    obtain ⟨first, last, rfl, -, hlast⟩ := gives.split
    rw [h.replay_eq] at hreplay
    cases hlast <;> simp at hreplay

theorem replay_of_next {item : Item} {after : Source} (h : source.next = .ok (item, after))
    (hreplay : source.replay = []) : after.replay = [] := by
  rw [Source.next, hreplay] at h
  cases hunread : source.unread.next with
  | error => simp [hunread, bind, Except.bind] at h
  | ok found =>
    rw [hunread] at h
    cases h
    rfl

/-- An item that is looked at stays in front. -/
theorem peek_of_next {item : Item} {after : Source} (h : source.next = .ok (item, after)) :
    source.peek = .ok (item, ⟨item :: after.replay, after.unread⟩) := by
  obtain ⟨replay, unread⟩ := source
  cases replay with
  | cons first replay =>
    cases h
    rfl
  | nil =>
    simp only [Source.next, Source.peek] at h ⊢
    cases hunread : unread.next with
    | error => simp [hunread, bind, Except.bind] at h
    | ok found =>
      rw [hunread] at h
      cases h
      rfl

end Source

end UpdateProtocol.Markup

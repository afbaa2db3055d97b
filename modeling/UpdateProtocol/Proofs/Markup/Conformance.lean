import UpdateProtocol.Proofs.Lists
import UpdateProtocol.Proofs.Markup.Attributes
import UpdateProtocol.Proofs.Markup.Fragment
import UpdateProtocol.Proofs.Markup.Prolog
import UpdateProtocol.Proofs.Markup.References

/-!
# What a conforming processor reads

XML 1.0 says which texts are documents and what a processor reports of one.  `Reads` says so for
documents without a document type declaration: a text is the text of some layout, once its line ends
are normalised, and every constraint on the parts of the layout is met.  It knows nothing of the
lexer and of the reader of this library, which accept more.

A document is read in one way only (`Reads.unique`).
-/

namespace UpdateProtocol.Markup.TagTree

/-! ### Marks of trees -/

mutual

/-- A tree is known by its marks, whatever follows them. -/
theorem marks_append_inj : (tree : TagTree) → ∀ (other : TagTree) (more rest : List Mark),
    tree.marks ++ more = other.marks ++ rest → tree = other ∧ more = rest
  | node tag children, node found others, more, rest, h => by
      rw [marks, marks, List.cons_append, List.cons_append, List.cons.injEq] at h
      obtain ⟨htag, hinner⟩ := h
      cases htag
      simp only [List.append_assoc, List.singleton_append] at hinner
      obtain ⟨rfl, hmore⟩ := marksAll_append_inj children others _ _ more rest hinner
      exact ⟨rfl, hmore⟩

theorem marksAll_append_inj : (trees : List TagTree) → ∀ (others : List TagTree)
    (name other : List Char) (more rest : List Mark),
    marksAll trees ++ .finish name :: more = marksAll others ++ .finish other :: rest →
      trees = others ∧ more = rest
  | [], [], name, other, more, rest, h => ⟨rfl, (List.cons.inj h).2⟩
  | [], node tag children :: others, name, other, more, rest, h => by
      rw [marksAll_cons, marks] at h
      cases (List.cons.inj h).1
  | node tag children :: trees, [], name, other, more, rest, h => by
      rw [marksAll_cons, marks] at h
      cases (List.cons.inj h).1
  | tree :: trees, found :: others, name, other, more, rest, h => by
      rw [marksAll_cons, marksAll_cons, List.append_assoc, List.append_assoc] at h
      obtain ⟨rfl, hrest⟩ := marks_append_inj tree found _ _ h
      obtain ⟨rfl, hmore⟩ := marksAll_append_inj trees others name other more rest hrest
      exact ⟨rfl, hmore⟩

end

end UpdateProtocol.Markup.TagTree

namespace UpdateProtocol.Xml

open Markup (AttributeLayout Blanks Filler Fragment Name Remark Spells Tag TagLayout TagTree)
open Markup.Lexer (Finds)

/-! ### Characters and lines -/

/-- A character that may occur in a document. -/
def isChar (c : Char) : Bool :=
  c == '\t' || c == '\n' || c == '\r' || (' ' ≤ c && c ≤ '\ud7ff') ||
    ('\ue000' ≤ c && c ≤ '\ufffd') || 0x10000 ≤ c.toNat

/-- All characters of a text may occur in a document. -/
def Allowed (text : List Char) : Prop :=
  ∀ c ∈ text, isChar c = true

instance (text : List Char) : Decidable (Allowed text) :=
  List.decidableBAll (fun c => isChar c = true) text

theorem allowed_append {text rest : List Char} :
    Allowed (text ++ rest) ↔ Allowed text ∧ Allowed rest :=
  List.forall_mem_append

theorem allowed_flatMap {α : Type} {items : List α} {f : α → List Char} :
    Allowed (items.flatMap f) ↔ ∀ item ∈ items, Allowed (f item) := by
  simp only [Allowed, List.mem_flatMap]
  constructor
  · exact fun h item hitem c hc => h c ⟨item, hitem, hc⟩
  · rintro h c ⟨item, hitem, hc⟩
    exact h item hitem c hc

/-- A text with a line feed for each of its line ends. -/
def unifyLines : List Char → List Char
  | '\r' :: '\n' :: rest => '\n' :: unifyLines rest
  | '\r' :: rest => '\n' :: unifyLines rest
  | c :: rest => c :: unifyLines rest
  | [] => []

/-! ### Values -/

/-- What a character in a value counts as, if it is not part of a reference. -/
def spaced (c : Char) : Char :=
  if Text.isBlank c then ' ' else c

/-- A value between quotes and what is reported for it: blanks are spaces, and references stand for
the characters that they name. -/
structure ReportsValue (raw value : List Char) : Prop where
  noMarkup : '<' ∉ raw
  spells : Spells value (raw.map spaced)
  allowed : Allowed value

theorem ReportsValue.unique {raw value other : List Char} (h : ReportsValue raw value)
    (hother : ReportsValue raw other) : value = other := by
  have hresolve := Markup.resolve_of_spells h.spells
  rw [Markup.resolve_of_spells hother.spells] at hresolve
  exact (Except.ok.inj hresolve).symm

/-! ### Content -/

/-- An element as it is reported: its name, its attributes with their values, and the elements in
it.  What is reported of the text between them is left out. -/
inductive Report where
  | element (name : List Char) (attributes : List (List Char × List Char)) (children : List Report)

/-- A start tag and what is reported for its attributes, no two of which have one name. -/
structure ReportsTag (tag : TagLayout) (attributes : List (List Char × List Char)) : Prop where
  distinct : (tag.attributes.map (fun attr => attr.name.chars)).Nodup
  values : List.Forall₂ (fun attr found =>
    found.1 = attr.name.chars ∧ ReportsValue attr.value found.2) tag.attributes attributes

/-- A text between two pieces of markup: its ampersands begin references, and nothing in it looks
like the end of character data. -/
structure IsText (raw : List Char) : Prop where
  references : ∃ text, Spells text raw ∧ Allowed text
  unclosed : ¬ "]]>".toList <:+: raw

/-- A comment, or an instruction with a target that is not reserved. -/
inductive IsRemark : Remark → Prop
  | comment {content : List Char} (closed : ¬ ['-', '-'] <:+: content ++ ['-']) :
      IsRemark (.comment content closed)
  | instruction {target : Name} {rest : List Char}
      (closed : ¬ ['?', '>'] <:+: '?' :: (target.chars ++ rest))
      (free : target.chars.map Char.toLower ≠ "xml".toList)
      (separated : rest = [] ∨ ∃ c more, rest = c :: more ∧ Text.isBlank c = true) :
      IsRemark (.instruction (target.chars ++ rest) closed)

/-- No text follows another one: what stands between two pieces of markup is one text. -/
def SeparateTexts : List Fragment → Prop
  | .text _ :: .text _ :: _ => False
  | _ :: parts => SeparateTexts parts
  | [] => True

/-- A piece of content and the elements that are reported for it, at most one. -/
inductive ReadsPart : Fragment → List Report → Prop
  | text {raw : Markup.RawText} (h : IsText raw.chars) : ReadsPart (.text raw) []
  | remark {remark : Remark} (h : IsRemark remark) : ReadsPart (.remark remark) []
  | cdata (data : Markup.Cdata) : ReadsPart (.cdata data) []
  | single {tag : TagLayout} {attributes : List (List Char × List Char)}
      (h : ReportsTag tag attributes) :
      ReadsPart (.single tag) [.element tag.name.chars attributes []]
  | paired {tag : TagLayout} {attributes : List (List Char × List Char)} {parts : List Fragment}
      {after : Blanks} {reports : List (List Report)} (h : ReportsTag tag attributes)
      (separate : SeparateTexts parts) (inner : List.Forall₂ ReadsPart parts reports) :
      ReadsPart (.paired tag parts after) [.element tag.name.chars attributes reports.flatten]

/-! ### Documents -/

/-- The declaration that a document may begin with. -/
structure Declaration where
  version : AttributeLayout
  encoding? : Option AttributeLayout := none
  standalone? : Option AttributeLayout := none
  after : Blanks := .empty

/-- What stands between the question marks of a declaration. -/
def Declaration.content (declaration : Declaration) : List Char :=
  "xml".toList ++ (declaration.version :: (declaration.encoding?.toList ++
    declaration.standalone?.toList)).flatMap AttributeLayout.write ++ declaration.after.chars

/-- The text of a declaration. -/
def Declaration.write (declaration : Declaration) : List Char :=
  "<?".toList ++ declaration.content ++ "?>".toList

/-- The name of an encoding. -/
def isEncodingName : List Char → Bool
  | [] => false
  | c :: rest => c.isAlpha && rest.all (fun c => c.isAlphanum || c == '.' || c == '_' || c == '-')

/-- A declaration of some version 1. -/
structure Declaration.WellFormed (declaration : Declaration) : Prop where
  version : declaration.version.name.chars = "version".toList ∧ ∃ minor, minor ≠ [] ∧
    (∀ c ∈ minor, c.isDigit = true) ∧ declaration.version.value = "1.".toList ++ minor
  encoding : ∀ attr ∈ declaration.encoding?,
    attr.name.chars = "encoding".toList ∧ isEncodingName attr.value = true
  standalone : ∀ attr ∈ declaration.standalone?,
    attr.name.chars = "standalone".toList ∧ attr.value ∈ ["yes".toList, "no".toList]

/-- A processor accepts a text as a document and reports its root. -/
structure Reads (text : List Char) (report : Report) : Prop where
  allowed : Allowed text
  layout : ∃ (declaration? : Option Declaration) (before : Filler) (root : Fragment)
    (after : Filler), unifyLines text = declaration?.elim [] Declaration.write ++
        before.gap.write ++ root.write ++ after.gap.write ∧
      (∀ declaration ∈ declaration?, declaration.WellFormed) ∧
      (∀ remark ∈ before.gap.remarks ++ after.gap.remarks, IsRemark remark.1) ∧
      ReadsPart root [report]

/-! ### What is reported for trees of tags -/

/-- What is reported for an element of which only the tags are known, with the attributes that a
reader finds in them. -/
inductive ReportsTree : TagTree → Report → Prop
  | node {tag : Tag} {children : List TagTree} {attributes : List (List Char × List Char)}
      {reports : List Report} (values : List.Forall₂ (fun result found => ∃ attr,
        result = .ok attr ∧ found.1 = attr.name ∧ ReportsValue attr.value found.2)
        (tag.attributes false) attributes)
      (inner : List.Forall₂ ReportsTree children reports) :
      ReportsTree (.node tag children) (.element tag.name attributes reports)

theorem eq_of_forall₂ {α β : Type} {R : α → β → Prop} {as : List α} {bs others : List β}
    (unique : ∀ a b b', R a b → R a b' → b = b') (h : List.Forall₂ R as bs)
    (hothers : List.Forall₂ R as others) : bs = others := by
  induction h generalizing others with
  | nil =>
    cases hothers
    rfl
  | cons first _ ih =>
    cases hothers with
    | cons other rest => rw [unique _ _ _ first other, ih rest]

mutual

theorem ReportsTree.unique : (tree : TagTree) → ∀ (report other : Report),
    ReportsTree tree report → ReportsTree tree other → report = other
  | .node tag children, _, _, .node values inner, .node values' inner' => by
      rw [ReportsTree.uniqueAll children _ _ inner inner', eq_of_forall₂ ?_ values values']
      rintro result ⟨name, value⟩ ⟨name', value'⟩ ⟨attr, rfl, rfl, h⟩ ⟨attr', e, rfl, h'⟩
      cases e
      have hvalue : value = value' := h.unique h'
      rw [hvalue]

theorem ReportsTree.uniqueAll : (trees : List TagTree) → ∀ (reports others : List Report),
    List.Forall₂ ReportsTree trees reports → List.Forall₂ ReportsTree trees others →
      reports = others
  | [], _, _, .nil, .nil => rfl
  | tree :: trees, _, _, .cons first rest, .cons first' rest' => by
      rw [ReportsTree.unique tree _ _ first first', ReportsTree.uniqueAll trees _ _ rest rest']

end

/-- What is reported for a tag is reported for the attributes that a reader finds in it. -/
theorem ReportsTag.found {tag : TagLayout} {attributes : List (List Char × List Char)}
    (h : ReportsTag tag attributes) : List.Forall₂ (fun result found => ∃ attr,
      result = .ok attr ∧ found.1 = attr.name ∧ ReportsValue attr.value found.2)
      (tag.tag.attributes false) attributes := by
  rw [tag.attributes_tag (fun e => absurd e (by decide))]
  exact List.forall₂_map_left_iff.2 (h.values.imp fun attr found hfound => ⟨_, rfl, hfound⟩)

mutual

/-- The reports of a part are those of its trees. -/
theorem ReadsPart.reportsTrees : (part : Fragment) → ∀ (reports : List Report),
    ReadsPart part reports → List.Forall₂ ReportsTree part.trees reports
  | .text _, _, .text _ => by
      rw [Fragment.trees]
      exact .nil
  | .remark _, _, .remark _ => by
      rw [Fragment.trees]
      exact .nil
  | .cdata _, _, .cdata _ => by
      rw [Fragment.trees]
      exact .nil
  | .single tag, _, .single h => by
      rw [Fragment.trees, ← tag.name_tag]
      exact .cons (.node h.found .nil) .nil
  | .paired tag parts after, _, .paired h separate inner => by
      rw [Fragment.trees, ← tag.name_tag]
      exact .cons (.node h.found (ReadsPart.reportsTreesAll parts _ inner)) .nil

theorem ReadsPart.reportsTreesAll : (parts : List Fragment) → ∀ (reports : List (List Report)),
    List.Forall₂ ReadsPart parts reports →
      List.Forall₂ ReportsTree (Fragment.treesAll parts) reports.flatten
  | [], _, .nil => by
      rw [Fragment.treesAll]
      exact .nil
  | part :: parts, _, .cons first rest => by
      rw [Fragment.treesAll, List.flatten_cons]
      exact List.rel_append (ReadsPart.reportsTrees part _ first)
        (ReadsPart.reportsTreesAll parts _ rest)

end

/-! ### Documents are read in one way -/

/-- An attribute has no character that neither names nor its value have. -/
theorem not_mem_write {attr : AttributeLayout} {c : Char} (h : c ∉ attr.value)
    (hname : Markup.isNameChar c = false) (hblank : Text.isBlank c = false)
    (hother : c ∉ ['=', '\'', '"']) : c ∉ attr.write := by
  have blanks (blanks : Blanks) : c ∉ blanks.chars := fun hc =>
    absurd rfl (blanks.ne_of_mem hc hblank : c ≠ c)
  have name : c ∉ attr.name.chars := fun hc => absurd rfl (attr.name.ne_of_mem hc hname : c ≠ c)
  have quote : c ≠ attr.quote.char := by
    cases attr.quote <;> (rintro rfl; exact hother (by decide))
  have equals : c ≠ '=' := by
    rintro rfl
    exact hother (by decide)
  simp [AttributeLayout.write, blanks, name, quote, equals, h]

namespace Declaration.WellFormed

variable {declaration : Declaration} (h : declaration.WellFormed)

include h

/-- No question mark stands in a declaration. -/
theorem not_mem_value : ∀ attr ∈ declaration.version :: (declaration.encoding?.toList ++
    declaration.standalone?.toList), '?' ∉ attr.value := by
  simp only [List.forall_mem_cons, List.forall_mem_append, Option.mem_toList]
  refine ⟨?_, fun attr hattr => ?_, fun attr hattr => ?_⟩
  · obtain ⟨-, minor, -, hdigits, hvalue⟩ := h.version
    rw [hvalue]
    intro hmem
    rcases List.mem_append.1 hmem with hmem | hmem
    · revert hmem
      decide
    · exact absurd (hdigits _ hmem) (by decide)
  · obtain ⟨-, hvalue⟩ := h.encoding attr hattr
    intro hmem
    unfold isEncodingName at hvalue
    split at hvalue
    · cases hvalue
    · next c rest hlist =>
      obtain ⟨hfirst, hrest⟩ := Bool.and_eq_true_iff.1 hvalue
      rw [hlist] at hmem
      rcases List.mem_cons.1 hmem with rfl | hmem
      · exact absurd hfirst (by decide)
      · exact absurd (List.all_eq_true.1 hrest _ hmem) (by decide)
  · obtain ⟨-, hvalue⟩ := h.standalone attr hattr
    intro hmem
    rcases List.mem_pair.1 hvalue with hyes | hno
    · rw [hyes] at hmem
      revert hmem
      decide
    · rw [hno] at hmem
      revert hmem
      decide

theorem not_mem_content : '?' ∉ declaration.content := by
  have hafter : '?' ∉ declaration.after.chars := fun hc =>
    absurd rfl (declaration.after.ne_of_mem hc : '?' ≠ '?')
  have hattributes : '?' ∉ (declaration.version :: (declaration.encoding?.toList ++
      declaration.standalone?.toList)).flatMap AttributeLayout.write := by
    intro hmem
    obtain ⟨attr, hattr, hc⟩ := List.mem_flatMap.1 hmem
    exact not_mem_write (h.not_mem_value attr hattr) (by decide) (by decide) (by decide) hc
  rw [Declaration.content, List.mem_append, List.mem_append]
  exact not_or.2 ⟨not_or.2 ⟨by decide, hattributes⟩, hafter⟩

/-- The lexer finds nothing in a declaration. -/
theorem finds : Finds declaration.write [] := by
  have hcontent := h.not_mem_content
  have closed : ¬ ['?', '>'] <:+: '?' :: declaration.content := by
    intro hmark
    rcases List.infix_cons_iff.1 hmark with ⟨rest, hrest⟩ | hinside
    · simp [Declaration.content] at hrest
    · exact hcontent (hinside.subset List.mem_cons_self)
  exact Finds.remark (.instruction declaration.content closed)

end Declaration.WellFormed

/-- What is reported as an element is written as one. -/
theorem ReadsPart.exists_write {root : Fragment} {report : Report} (h : ReadsPart root [report]) :
    ∃ rest, root.write = '<' :: rest := by
  cases h with
  | single => exact ⟨_, by rw [Fragment.write]; rfl⟩
  | paired => exact ⟨_, by rw [Fragment.write]; simp only [List.append_assoc]; rfl⟩

/-- What is reported for a document is what its tags say. -/
theorem Reads.exists_tree {text : List Char} {report : Report} (h : Reads text report) :
    ∃ tree, ReportsTree tree report ∧
      Markup.tokenMarks (Markup.Tokens.ofText (unifyLines text)).tokens = tree.marks := by
  obtain ⟨-, declaration?, before, root, after, htext, hdeclaration, -, hroot⟩ := h
  obtain ⟨rest, hrest⟩ := hroot.exists_write
  have hopen : Finds (declaration?.elim [] Declaration.write) [] := by
    cases declaration? with
    | none => exact .nil
    | some declaration => exact (hdeclaration declaration rfl).finds
  have htrees := hroot.reportsTrees root [report]
  generalize htree : root.trees = trees at htrees
  cases htrees with
  | cons first none =>
    cases none
    have hfinds := root.finds_write
    rw [htree, TagTree.marksAll_cons, TagTree.marksAll, List.append_nil] at hfinds
    have hall := ((hopen.append (.gap before.gap)).append hfinds).append (.gap after.gap)
    rw [← htext, List.nil_append, List.nil_append, List.append_nil] at hall
    refine ⟨_, first, hall.tokenMarks_ofText ?_⟩
    rw [htext, hrest]
    cases declaration? with
    | none => simpa using before.blank.dropMark_write (rest ++ after.gap.write)
    | some declaration => rfl

/-- A document is read in one way only. -/
theorem Reads.unique {text : List Char} {report other : Report} (h : Reads text report)
    (hother : Reads text other) : report = other := by
  obtain ⟨tree, hreport, hmarks⟩ := h.exists_tree
  obtain ⟨tree', hreport', hmarks'⟩ := hother.exists_tree
  have hsame := hmarks.symm.trans hmarks'
  obtain ⟨rfl, -⟩ := TagTree.marks_append_inj tree tree' [] [] (by rw [hsame])
  exact ReportsTree.unique tree report other hreport hreport'

end UpdateProtocol.Xml

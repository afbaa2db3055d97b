import UpdateProtocol.Proofs.Element.Layout

/-!
# The skeleton of an element

What stands between double quotes in the text of an element is the values of its attributes,
whatever they are: none of them ends its quotes, begins markup or begins a reference of its own
(`Harmless`).  Without them the text is that of the element's outline, its tags with the names of
their attributes (`Element.splits_render`).
-/

namespace UpdateProtocol

open Markup (AttributeLayout Name Node TagLayout)

/-! ### Double quotes -/

/-- A text from a place inside or outside of double quotes on, without what the quotes enclose. -/
def skeletonFrom : Bool → List Char → List Char
  | _, [] => []
  | quoted, c :: chars =>
      if c = '"' then c :: skeletonFrom (!quoted) chars
      else if quoted then skeletonFrom quoted chars
      else c :: skeletonFrom quoted chars

/-- A text with everything between double quotes removed. -/
def skeleton (text : List Char) : List Char := skeletonFrom false text

/-- The values between double quotes from a place on.  Inside of quotes what has been collected of
the value stands in reverse order. -/
def quotedFrom : Option (List Char) → List Char → List (List Char)
  | none, [] => []
  | some collected, [] => [collected.reverse]
  | none, c :: chars => quotedFrom (if c = '"' then some [] else none) chars
  | some collected, c :: chars =>
      if c = '"' then collected.reverse :: quotedFrom none chars
      else quotedFrom (some (c :: collected)) chars

/-- The values between double quotes in a text. -/
def quotedValues (text : List Char) : List (List Char) := quotedFrom none text

/-- The references to the characters that begin and end markup, without their ampersands. -/
def markupReferences : List String := ["amp;", "lt;", "gt;", "quot;"]

/-- A value that no reader takes for markup: all it has of that are references. -/
structure Harmless (value : List Char) : Prop where
  noOpen : '<' ∉ value
  noClose : '>' ∉ value
  noQuote : '"' ∉ value
  references : ∀ after, '&' :: after <:+ value → ∃ name ∈ markupReferences, name.toList <+: after

theorem suffix_of_append {α : Type} {a : α} {as rest after : List α} (ha : a ∉ as)
    (h : a :: after <:+ as ++ rest) : a :: after <:+ rest := by
  induction as with
  | nil => exact h
  | cons b as ih =>
    obtain ⟨hne, hmem⟩ := List.ne_and_not_mem_of_not_mem_cons ha
    rcases List.suffix_cons_iff.1 h with e | h
    · exact absurd (List.cons.inj e).1 hne
    · exact ih hmem h

namespace Harmless

variable {value : List Char}

/-- A reference before a value is none that markup begins with. -/
theorem reference (h : Harmless value) (name : String) (hname : name ∈ markupReferences) :
    Harmless ('&' :: (name.toList ++ value)) := by
  have hplain : ∀ name ∈ markupReferences, '<' ∉ name.toList ∧ '>' ∉ name.toList ∧
      '"' ∉ name.toList ∧ '&' ∉ name.toList := by decide
  obtain ⟨hopen, hclose, hquote, hamp⟩ := hplain name hname
  refine ⟨by simp [hopen, h.noOpen], by simp [hclose, h.noClose], by simp [hquote, h.noQuote],
    fun after hafter => ?_⟩
  rcases List.suffix_cons_iff.1 hafter with e | hafter
  · exact ⟨name, hname, (List.cons.inj e).2 ▸ List.prefix_append _ _⟩
  · exact h.references after (suffix_of_append hamp hafter)

theorem cons {c : Char} (h : Harmless value) (hopen : c ≠ '<') (hclose : c ≠ '>')
    (hquote : c ≠ '"') (hamp : c ≠ '&') : Harmless (c :: value) := by
  refine ⟨by simp [hopen.symm, h.noOpen], by simp [hclose.symm, h.noClose],
    by simp [hquote.symm, h.noQuote], fun after hafter => ?_⟩
  rcases List.suffix_cons_iff.1 hafter with e | hafter
  · exact absurd (List.cons.inj e).1.symm hamp
  · exact h.references after hafter

/-- Values are harmless as they are written. -/
theorem escape (chars : List Char) :
    Harmless (chars.flatMap (fun c => (Markup.escapeChar c).toList)) := by
  induction chars with
  | nil => exact ⟨by simp, by simp, by simp, by simp⟩
  | cons c chars ih =>
    rw [List.flatMap_cons]
    generalize chars.flatMap (fun c => (Markup.escapeChar c).toList) = rest at ih ⊢
    unfold Markup.escapeChar
    split
    · exact ih.reference "amp;" (by decide)
    · exact ih.reference "lt;" (by decide)
    · exact ih.reference "gt;" (by decide)
    · exact ih.reference "quot;" (by decide)
    · next hamp hopen hclose hquote =>
      simpa using ih.cons hopen hclose hquote hamp

end Harmless

/-- A text that begins and ends outside of double quotes, with its skeleton and with harmless values
only. -/
structure Splits (chars bare : List Char) : Prop where
  skeleton : ∀ rest, skeletonFrom false (chars ++ rest) = bare ++ skeletonFrom false rest
  quoted : ∃ values, (∀ value ∈ values, Harmless value) ∧
    ∀ rest, quotedFrom none (chars ++ rest) = values ++ quotedFrom none rest

namespace Splits

variable {chars bare more rest : List Char}

theorem append (h : Splits chars bare) (hmore : Splits more rest) :
    Splits (chars ++ more) (bare ++ rest) := by
  obtain ⟨values, harmless, hvalues⟩ := h.quoted
  obtain ⟨others, hothers, hquoted⟩ := hmore.quoted
  refine ⟨fun last => ?_, values ++ others, List.forall_mem_append.2 ⟨harmless, hothers⟩,
    fun last => ?_⟩
  · rw [List.append_assoc, h.skeleton, hmore.skeleton, List.append_assoc]
  · rw [List.append_assoc, hvalues, hquoted, List.append_assoc]

/-- A text without double quotes is its own skeleton. -/
theorem plain (chars : List Char) (h : '"' ∉ chars) : Splits chars chars := by
  induction chars with
  | nil => exact ⟨fun _ => rfl, [], by simp, fun _ => rfl⟩
  | cons c chars ih =>
    obtain ⟨hc, hchars⟩ := List.ne_and_not_mem_of_not_mem_cons h
    obtain ⟨hskeleton, values, harmless, hvalues⟩ := ih hchars
    refine ⟨fun rest => ?_, values, harmless, fun rest => ?_⟩
    · simp [skeletonFrom, Ne.symm hc, hskeleton]
    · simp [quotedFrom, Ne.symm hc, hvalues]

/-- A value between double quotes leaves the quotes. -/
theorem value (h : Harmless chars) : Splits ('"' :: (chars ++ ['"'])) ['"', '"'] := by
  have hskeleton (rest : List Char) : skeletonFrom true (chars ++ '"' :: rest) =
      '"' :: skeletonFrom false rest := by
    have hquote := h.noQuote
    clear h
    induction chars with
    | nil => rfl
    | cons c chars ih =>
      obtain ⟨hc, hchars⟩ := List.ne_and_not_mem_of_not_mem_cons hquote
      simp [skeletonFrom, Ne.symm hc, ih hchars]
  have hquoted (collected rest : List Char) : quotedFrom (some collected) (chars ++ '"' :: rest) =
      (collected.reverse ++ chars) :: quotedFrom none rest := by
    have hquote := h.noQuote
    clear h hskeleton
    induction chars generalizing collected with
    | nil => simp [quotedFrom]
    | cons c chars ih =>
      obtain ⟨hc, hchars⟩ := List.ne_and_not_mem_of_not_mem_cons hquote
      simp [quotedFrom, Ne.symm hc, ih _ hchars]
  refine ⟨fun rest => ?_, [chars], by simpa using h, fun rest => ?_⟩
  · simp [skeletonFrom, hskeleton]
  · simp [quotedFrom, hquoted]

/-- The skeleton of such a text, with nothing after it. -/
theorem skeleton_eq (h : Splits chars bare) : UpdateProtocol.skeleton chars = bare := by
  have hskeleton := h.skeleton []
  rwa [List.append_nil, show skeletonFrom false [] = [] from rfl, List.append_nil] at hskeleton

theorem harmless (h : Splits chars bare) : ∀ value ∈ quotedValues chars, Harmless value := by
  obtain ⟨values, harmless, hvalues⟩ := h.quoted
  have hquoted := hvalues []
  rw [List.append_nil, show quotedFrom none [] = [] from rfl, List.append_nil] at hquoted
  rw [quotedValues, hquoted]
  exact harmless

end Splits

/-! ### Outlines -/

/-- An element with the names of its attributes in place of these. -/
inductive Outline where
  | node (tag : String) (attributes : List String) (children : List Outline)
  deriving Repr

namespace Outline

/-- An attribute without its value. -/
def writeAttribute (name : String) : List Char :=
  ' ' :: (name.toList ++ ['=', '"', '"'])

mutual

/-- The text of an outline.  Without children it is a single tag. -/
def write : Outline → List Char
  | node tag attributes [] =>
      '<' :: (tag.toList ++ attributes.flatMap writeAttribute ++ ['/', '>'])
  | node tag attributes (child :: children) =>
      '<' :: (tag.toList ++ attributes.flatMap writeAttribute ++ ['>']) ++
        (write child ++ writeAll children) ++ ['<', '/'] ++ tag.toList ++ ['>']

/-- The text of outlines that follow each other. -/
def writeAll : List Outline → List Char
  | [] => []
  | outline :: outlines => write outline ++ writeAll outlines

end

end Outline

namespace Element

mutual

/-- The outline of an element. -/
def outline : Element → Outline
  | mk type attributes children =>
      .node type.tag (attributes.map Prod.fst) (outlineAll children)

/-- The outlines of elements that follow each other. -/
def outlineAll : List Element → List Outline
  | [] => []
  | child :: children => outline child :: outlineAll children

end

theorem outlineAll_eq (elements : List Element) : outlineAll elements = elements.map outline := by
  induction elements with
  | nil => rfl
  | cons element elements ih => rw [outlineAll, ih, List.map_cons]

/-! ### Skeletons -/

section Splits

variable {type : ElementType} {values : List (String × Value)}

/-- There are no quotes in names. -/
theorem splits_name (name : Name) : Splits name.chars name.chars :=
  .plain _ fun h => name.ne_of_mem h (by decide : Markup.isNameChar '"' = false) rfl

theorem splits_tag (type : ElementType) : Splits type.tag.toList type.tag.toList := by
  rw [← Name.chars_ofString type.plainName_tag]
  exact splits_name _

/-- An attribute leaves its name, its equals sign and its quotes. -/
theorem splits_attribute {value : String × Value} (plain : PlainName value.1) :
    Splits (attributeLayout value).write (Outline.writeAttribute value.1) := by
  have hname := splits_name (Name.ofString value.1)
  rw [Name.chars_ofString plain] at hname
  have h := ((Splits.plain [' '] (by decide)).append hname).append
    ((Splits.plain ['='] (by decide)).append
      (.value (.escape value.2.spelling.toList)))
  rw [attributeLayout, AttributeLayout.write, Name.chars_ofString plain, Outline.writeAttribute]
  simpa [Markup.Quote.char] using h

theorem splits_attributes (plain : ∀ value ∈ values, PlainName value.1) :
    Splits ((values.map attributeLayout).flatMap AttributeLayout.write)
      ((values.map Prod.fst).flatMap Outline.writeAttribute) := by
  induction values with
  | nil => exact .plain _ (by simp)
  | cons value values ih =>
    obtain ⟨hvalue, hvalues⟩ := List.forall_mem_cons.1 plain
    exact (splits_attribute hvalue).append (ih hvalues)

theorem splits_tagLayout (fits : Fits type.attributes values) :
    Splits (tagLayout type values).write
      (type.tag.toList ++ (values.map Prod.fst).flatMap Outline.writeAttribute) := by
  have h := (splits_tag type).append (splits_attributes fun value => fits.plainName)
  rw [TagLayout.write, tagLayout, Name.chars_ofString type.plainName_tag]
  simpa using h

theorem splits_layoutAll {elements : List Element}
    (h : ∀ element ∈ elements, Splits element.layout.write element.outline.write) :
    Splits (Node.writeAll (elements.map layout)) (Outline.writeAll (elements.map outline)) := by
  induction elements with
  | nil => exact .plain _ (by simp [Node.writeAll])
  | cons element elements ih =>
    obtain ⟨helement, helements⟩ := List.forall_mem_cons.1 h
    rw [List.map_cons, List.map_cons, Node.writeAll, Outline.writeAll]
    exact helement.append (ih helements)

/-- The skeleton of an element is its outline. -/
theorem splits_layout (element : Element) :
    element.Valid → Splits element.layout.write element.outline.write := by
  induction element using Element.induct with
  | step element ih =>
  intro valid
  obtain ⟨type, values, children⟩ := element
  cases valid with
  | intro fits known compatible valid =>
  have hopen := (Splits.plain ['<'] (by decide)).append (splits_tagLayout fits)
  have hchildren : Splits (Node.writeAll (children.map layout))
      (Outline.writeAll (children.map outline)) :=
    splits_layoutAll fun child hchild => ih child hchild (valid child hchild)
  cases children with
  | nil =>
    rw [layout, Node.write, outline, outlineAll, Outline.write]
    simpa using hopen.append (Splits.plain ['/', '>'] (by decide))
  | cons child children =>
    have hclose := ((Splits.plain ['<', '/'] (by decide)).append
      (splits_tag type)).append (Splits.plain ['>'] (by decide))
    have h := ((hopen.append (Splits.plain ['>'] (by decide))).append hchildren).append
      hclose
    rw [layout, Node.write, outline, outlineAll, Outline.write, outlineAll_eq]
    simpa [Node.writeAll, Outline.writeAll, layoutAll_eq, tagLayout,
      Name.chars_ofString type.plainName_tag] using h

end Splits

/-- What a valid element is written as: its outline, with harmless values between the quotes. -/
theorem splits_render {element : Element} (valid : element.Valid) :
    Splits element.render.toList element.outline.write := by
  rw [toList_render valid]
  exact splits_layout element valid

end Element

end UpdateProtocol

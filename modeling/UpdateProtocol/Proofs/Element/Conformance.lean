import UpdateProtocol.Proofs.Element.Layout
import UpdateProtocol.Proofs.Markup.Reported

/-!
# What a conforming processor reads of an element

The text of an element may stand in a document just if every character of its values may
(`Element.allowed_layout`).  A processor then reports the element as it is, but for the line ends
and the tabs in its values (`Element.readsPart_fragment`, `Element.report_eq_iff`).
-/

namespace UpdateProtocol

open Markup (AttributeLayout Fragment Name Node TagLayout)

/-! ### Names in the table -/

theorem ElementType.allowed_attribute (type : ElementType) :
    ∀ attr ∈ type.attributes, Xml.Allowed attr.name.toList := by
  cases type <;> decide

theorem ElementType.allowed_tag (type : ElementType) : Xml.Allowed type.tag.toList := by
  cases type <;> decide

namespace Element

/-! ### The fragment of an element -/

/-- An attribute with unified line ends. -/
def unifiedLayout (value : String × Value) : AttributeLayout :=
  { attributeLayout value with
    value := (Xml.unifyLines value.2.spelling.toList).flatMap
      (fun c => (Markup.escapeChar c).toList)
    unquoted := Markup.quote_not_mem_escape _ }

/-- A start tag with unified line ends. -/
def unifiedTag (type : ElementType) (values : List (String × Value)) : TagLayout where
  name := .ofString type.tag
  attributes := values.map unifiedLayout

mutual

/-- The text of an element as content, with unified line ends. -/
def fragment : Element → Fragment
  | mk type values [] => .single (unifiedTag type values)
  | mk type values (child :: children) =>
      .paired (unifiedTag type values) (fragment child :: fragmentAll children)

/-- The texts of elements that follow each other. -/
def fragmentAll : List Element → List Fragment
  | [] => []
  | child :: children => fragment child :: fragmentAll children

end

theorem fragmentAll_eq (elements : List Element) :
    fragmentAll elements = elements.map fragment := by
  induction elements with
  | nil => rw [fragmentAll]; rfl
  | cons element elements ih => rw [fragmentAll, ih, List.map_cons]

theorem unifyLines_attribute (value : String × Value) (rest : List Char) :
    Xml.unifyLines ((attributeLayout value).write ++ rest) =
      (unifiedLayout value).write ++ Xml.unifyLines rest := by
  have hname : '\r' ∉ (Name.ofString value.1).chars := fun hc =>
    absurd rfl ((Name.ofString value.1).ne_of_mem hc : '\r' ≠ '\r')
  have hquoted : (attributeLayout value).write ++ rest =
      ([' '] ++ (Name.ofString value.1).chars ++ ['=', '"']) ++
        ((attributeLayout value).value ++ '"' :: rest) := by
    simp [attributeLayout, AttributeLayout.write, Markup.Quote.char]
  rw [hquoted, Xml.unifyLines_append_plain (by simp [hname]),
    Xml.unifyLines_append (by simp), attributeLayout, Xml.unifyLines_escape,
    Xml.unifyLines_cons (by decide)]
  simp [unifiedLayout, attributeLayout, AttributeLayout.write, Markup.Quote.char]

theorem unifyLines_tag (type : ElementType) (values : List (String × Value)) (rest : List Char) :
    Xml.unifyLines ((tagLayout type values).write ++ rest) =
      (unifiedTag type values).write ++ Xml.unifyLines rest := by
  have hname : '\r' ∉ (Name.ofString type.tag).chars := fun hc =>
    absurd rfl ((Name.ofString type.tag).ne_of_mem hc : '\r' ≠ '\r')
  have hattributes : Xml.unifyLines ((values.map attributeLayout).flatMap AttributeLayout.write ++
      rest) = (values.map unifiedLayout).flatMap AttributeLayout.write ++ Xml.unifyLines rest := by
    induction values with
    | nil => rfl
    | cons value values ih =>
      rw [List.map_cons, List.flatMap_cons, List.append_assoc, unifyLines_attribute, ih,
        List.map_cons, List.flatMap_cons, List.append_assoc]
  simp only [TagLayout.write, tagLayout, unifiedTag, Markup.Blanks.chars_empty, List.append_nil,
    List.append_assoc]
  rw [Xml.unifyLines_append_plain hname, hattributes]

/-- The text of an element with unified line ends is that of its fragment. -/
theorem unifyLines_layout (element : Element) : ∀ rest : List Char,
    Xml.unifyLines (element.layout.write ++ rest) =
      element.fragment.write ++ Xml.unifyLines rest := by
  induction element using Element.induct with
  | step element ih =>
  intro rest
  obtain ⟨type, values, children⟩ := element
  have hall (rest : List Char) :
      Xml.unifyLines (Node.writeAll (children.map layout) ++ rest) =
        Fragment.writeAll (children.map fragment) ++ Xml.unifyLines rest := by
    simp only [Element.children] at ih
    induction children with
    | nil => rfl
    | cons child children ihall =>
      obtain ⟨hchild, hchildren⟩ := List.forall_mem_cons.1 ih
      rw [List.map_cons, List.map_cons, Node.writeAll, Fragment.writeAll, List.append_assoc,
        hchild, ihall hchildren, List.append_assoc]
  have hname : '\r' ∉ (tagLayout type values).name.chars := fun hc =>
    absurd rfl ((tagLayout type values).name.ne_of_mem hc : '\r' ≠ '\r')
  cases children with
  | nil =>
    have hwrite : (mk type values []).layout.write ++ rest =
        ['<'] ++ ((tagLayout type values).write ++ (['/', '>'] ++ rest)) := by
      simp [layout, Node.write]
    rw [hwrite, Xml.unifyLines_append_plain (by decide), unifyLines_tag,
      Xml.unifyLines_append_plain (by decide)]
    simp [fragment, Fragment.write]
  | cons child children =>
    have hwrite : (mk type values (child :: children)).layout.write ++ rest =
        ['<'] ++ ((tagLayout type values).write ++ (['>'] ++
          (Node.writeAll ((child :: children).map layout) ++ (['<', '/'] ++
            ((tagLayout type values).name.chars ++ (['>'] ++ rest)))))) := by
      simp [layout, layoutAll_eq, Node.write]
    rw [hwrite, Xml.unifyLines_append_plain (by decide), unifyLines_tag,
      Xml.unifyLines_append_plain (by decide), hall, Xml.unifyLines_append_plain (by decide),
      Xml.unifyLines_append_plain hname, Xml.unifyLines_append_plain (by decide)]
    simp [fragment, fragmentAll_eq, Fragment.write, tagLayout, unifiedTag]

/-! ### Characters -/

/-- Something holds of the texts of all values in an element. -/
inductive EachText (p : List Char → Prop) : Element → Prop
  | intro {type : ElementType} {values : List (String × Value)} {children : List Element}
      (texts : ∀ value ∈ values, p value.2.spelling.toList)
      (inner : ∀ child ∈ children, EachText p child) : EachText p (mk type values children)

theorem eachText_mk {p : List Char → Prop} {type : ElementType} {values : List (String × Value)}
    {children : List Element} : EachText p (mk type values children) ↔
      (∀ value ∈ values, p value.2.spelling.toList) ∧ ∀ child ∈ children, EachText p child := by
  constructor
  · rintro ⟨texts, inner⟩
    exact ⟨texts, inner⟩
  · rintro ⟨texts, inner⟩
    exact .intro texts inner

theorem eachText_and {p q : List Char → Prop} (element : Element) :
    element.EachText (fun text => p text ∧ q text) ↔ element.EachText p ∧ element.EachText q := by
  induction element using Element.induct with
  | step element ih =>
  obtain ⟨type, values, children⟩ := element
  have hchildren : (∀ child ∈ children, child.EachText (fun text => p text ∧ q text)) ↔
      (∀ child ∈ children, child.EachText p) ∧ ∀ child ∈ children, child.EachText q := by
    rw [← forall₂_and]
    exact forall₂_congr ih
  simp only [eachText_mk, hchildren, forall₂_and]
  tauto

section Allowed

variable {type : ElementType} {values : List (String × Value)} (fits : Fits type.attributes values)

include fits

theorem allowed_write_attribute {value : String × Value} (hvalue : value ∈ values) :
    Xml.Allowed (attributeLayout value).write ↔ Xml.Allowed value.2.spelling.toList := by
  obtain ⟨known, hknown, hname, -⟩ := fits.exists_of_mem hvalue
  have hchars := type.allowed_attribute known hknown
  rw [← hname, ← Name.chars_ofString (fits.plainName hvalue)] at hchars
  have hopen : Xml.Allowed [' '] := by decide
  have hequals : Xml.Allowed ['='] := by decide
  have hquote : Xml.Allowed ['"'] := by decide
  simp only [AttributeLayout.write, attributeLayout, Markup.Quote.char, Markup.Blanks.chars_space,
    Markup.Blanks.chars_empty, List.append_nil, Xml.allowed_append, Xml.allowed_escape, hopen, hchars,
    hequals, hquote, true_and, and_true]

theorem allowed_write_tag : Xml.Allowed (tagLayout type values).write ↔
    ∀ value ∈ values, Xml.Allowed value.2.spelling.toList := by
  have hname := type.allowed_tag
  rw [← Name.chars_ofString type.plainName_tag] at hname
  simp only [TagLayout.write, tagLayout, Markup.Blanks.chars_empty, List.append_nil,
    Xml.allowed_append, hname, true_and, Xml.allowed_flatMap, List.forall_mem_map]
  exact forall₂_congr fun value hvalue => allowed_write_attribute fits hvalue

end Allowed

/-- All that is written around the values of an element may occur in a document. -/
theorem allowed_layout (element : Element) : element.Valid →
    (Xml.Allowed element.layout.write ↔ element.EachText Xml.Allowed) := by
  induction element using Element.induct with
  | step element ih =>
  intro valid
  obtain ⟨type, values, children⟩ := element
  cases valid with
  | intro fits known compatible valid =>
  have hall : Xml.Allowed (Node.writeAll (children.map layout)) ↔
      ∀ child ∈ children, child.EachText Xml.Allowed := by
    rw [Node.writeAll_eq, Xml.allowed_flatMap, List.forall_mem_map]
    exact forall₂_congr fun child hchild => ih child hchild (valid child hchild)
  have hname := type.allowed_tag
  rw [← Name.chars_ofString type.plainName_tag] at hname
  have hopen : Xml.Allowed ['<'] := by decide
  have hclose : Xml.Allowed ['>'] := by decide
  have hsingle : Xml.Allowed ['/', '>'] := by decide
  have hend : Xml.Allowed ['<', '/'] := by decide
  rw [eachText_mk, ← allowed_write_tag fits, ← hall]
  cases children with
  | nil =>
    have hnone : Xml.Allowed (Node.writeAll []) := by
      rw [Node.writeAll]
      decide
    simp only [layout, Node.write, Markup.Gap.write_empty, List.nil_append, List.map_nil,
      Xml.allowed_append, hopen, hsingle, hnone, true_and, and_true]
  | cons child children =>
    have hlayout : (mk type values (child :: children)).layout.write = ['<'] ++
        (tagLayout type values).write ++ ['>'] ++ Node.writeAll ((child :: children).map layout) ++
          ['<', '/'] ++ (Name.ofString type.tag).chars ++ ['>'] := by
      simp [layout, layoutAll_eq, Node.write, tagLayout]
    simp only [hlayout, Xml.allowed_append, hopen, hclose, hend, hname, true_and, and_true]

/-! ### Reports -/

mutual

/-- What is reported for an element, if this is reported for a text that is written. -/
def report (read : List Char → List Char) : Element → Xml.Report
  | mk type values children =>
      .element type.tag.toList
        (values.map (fun value => (value.1.toList, read value.2.spelling.toList)))
        (reportAll read children)

/-- What is reported for elements that follow each other. -/
def reportAll (read : List Char → List Char) : List Element → List Xml.Report
  | [] => []
  | child :: children => report read child :: reportAll read children

end

theorem reportAll_eq (read : List Char → List Char) (elements : List Element) :
    reportAll read elements = elements.map (report read) := by
  induction elements with
  | nil => rw [reportAll]; rfl
  | cons element elements ih => rw [reportAll, ih, List.map_cons]

theorem reportsTag_unifiedTag {type : ElementType} {values : List (String × Value)}
    (fits : Fits type.attributes values)
    (allowed : ∀ value ∈ values, Xml.Allowed value.2.spelling.toList) :
    Xml.ReportsTag (unifiedTag type values) (values.map (fun value =>
      (value.1.toList, Xml.reportedText value.2.spelling.toList))) where
  distinct := by
    have hnames : (unifiedTag type values).attributes.map (fun attr => attr.name.chars) =
        (tagLayout type values).attributes.map (fun attr => attr.name.chars) := by
      rw [unifiedTag, tagLayout, List.map_map, List.map_map]
      rfl
    rw [hnames]
    exact nodup_tagLayout fits
  values := by
    rw [unifiedTag, List.forall₂_map_left_iff, List.forall₂_map_right_iff, List.forall₂_same]
    exact fun value hvalue => ⟨(Name.chars_ofString (fits.plainName hvalue)).symm,
      Xml.reportsValue_escape (allowed value hvalue)⟩

theorem separate_fragments (elements : List Element) :
    Xml.SeparateTexts (elements.map fragment) := by
  induction elements with
  | nil => trivial
  | cons element elements ih =>
    obtain ⟨type, values, _ | ⟨child, children⟩⟩ := element
    · rw [List.map_cons, fragment]
      exact ih
    · rw [List.map_cons, fragment]
      exact ih

/-- The fragment of an element is reported as the element. -/
theorem readsPart_fragment (element : Element) : element.Valid → element.EachText Xml.Allowed →
    Xml.ReadsPart element.fragment [element.report Xml.reportedText] := by
  induction element using Element.induct with
  | step element ih =>
  intro valid allowed
  obtain ⟨type, values, children⟩ := element
  cases valid with
  | intro fits known compatible valid =>
  obtain ⟨texts, inner⟩ := eachText_mk.1 allowed
  have htag := reportsTag_unifiedTag fits texts
  have hname : (unifiedTag type values).name.chars = type.tag.toList :=
    Name.chars_ofString type.plainName_tag
  have hinner : List.Forall₂ Xml.ReadsPart (children.map fragment)
      (children.map (fun child => [child.report Xml.reportedText])) := by
    rw [List.forall₂_map_left_iff, List.forall₂_map_right_iff, List.forall₂_same]
    exact fun child hchild => ih child hchild (valid child hchild) (inner child hchild)
  rw [report, ← hname]
  cases children with
  | nil =>
    rw [fragment, reportAll]
    exact .single htag
  | cons child children =>
    have hreports : reportAll Xml.reportedText (child :: children) =
        ((child :: children).map (fun child => [child.report Xml.reportedText])).flatten := by
      rw [reportAll_eq, ← List.flatMap_def, ← List.map_eq_flatMap]
    rw [fragment, fragmentAll_eq, hreports]
    exact .paired htag (separate_fragments (child :: children)) hinner

/-- What is reported for an element is what was written exactly if it has no tabs and no line
ends. -/
theorem report_eq_iff (element : Element) :
    element.report Xml.reportedText = element.report id ↔
      element.EachText (fun text => ∀ c ∈ text, c ∉ ['\t', '\n', '\r']) := by
  induction element using Element.induct with
  | step element ih =>
  obtain ⟨type, values, children⟩ := element
  have hvalues : values.map (fun value =>
        (value.1.toList, Xml.reportedText value.2.spelling.toList)) =
          values.map (fun value => (value.1.toList, id value.2.spelling.toList)) ↔
      ∀ value ∈ values, ∀ c ∈ value.2.spelling.toList, c ∉ ['\t', '\n', '\r'] := by
    rw [List.map_inj_left]
    exact forall₂_congr fun value hvalue =>
      ⟨fun h => Xml.reportedText_eq_iff.1 (Prod.mk.inj h).2,
        fun h => Prod.ext rfl (Xml.reportedText_eq_iff.2 h)⟩
  have hchildren : children.map (report Xml.reportedText) = children.map (report id) ↔
      ∀ child ∈ children, child.EachText (fun text => ∀ c ∈ text, c ∉ ['\t', '\n', '\r']) := by
    rw [List.map_inj_left]
    exact forall₂_congr ih
  rw [report, report, Xml.Report.element.injEq, eachText_mk, reportAll_eq, reportAll_eq, hvalues,
    hchildren]
  exact and_iff_right rfl

end Element

end UpdateProtocol

import UpdateProtocol.Proofs.Markup.Lexing
import UpdateProtocol.Proofs.Markup.TagTree

/-!
# Content of any kind

An element may hold texts with any references, remarks, character data and elements with any
attributes, nested in any way.  A `Fragment` is a piece of such content.  A reader of it may fail or
may find declarations of namespaces, but of where elements begin and end there is no doubt: the
lexer finds a forest of elements in the text of fragments (`Fragment.finds_writeAll`), as it does in
the text of a node (`Node.finds_write`).
-/

namespace UpdateProtocol.Markup

/-! ### Character data -/

/-- Character data, which ends at the first place where it is closed. -/
structure Cdata where
  content : List Char
  closed : ¬ [']', ']', '>'] <:+: content

/-- The text of character data. -/
def Cdata.write (data : Cdata) : List Char :=
  '<' :: '!' :: ("[CDATA[".toList ++ data.content ++ [']', ']', '>'])

/-! ### What the lexer finds -/

namespace Lexer

/-- The lexer finds these marks in a text between two tags, whatever text stands before it. -/
def Finds (chars : List Char) (marks : List Mark) : Prop :=
  ∀ collected names tokens, ∃ left more,
    chars.foldl step ⟨.text collected, names, tokens⟩ = ⟨.text left, names, more ++ tokens⟩ ∧
      tokenMarks more.reverse = marks

theorem exists_flush (lexer : Lexer) (collected : List Char) :
    ∃ last, lexer.flush collected = last ++ lexer.tokens ∧ tokenMarks last.reverse = [] := by
  cases collected with
  | nil => exact ⟨[], rfl, rfl⟩
  | cons c collected => exact ⟨[.text (c :: collected).reverse], rfl, rfl⟩

theorem endName_append (name : Name) (after : Blanks) :
    endName (name.chars ++ after.chars) = name.chars := by
  obtain ⟨init, d, hname⟩ : ∃ init d, name.chars = init ++ [d] := by
    obtain ⟨c, rest, hcons, -⟩ := name.exists_cons
    rcases List.eq_nil_or_concat name.chars with h | ⟨init, d, h⟩
    · simp [hcons] at h
    · exact ⟨init, d, by simpa using h⟩
  have hd : Text.isBlank d = false := name.not_isBlank_of_mem (by simp [hname])
  have hafter : (after.chars.reverse ++ name.chars.reverse).dropWhile Text.isBlank =
      name.chars.reverse := by
    rw [List.dropWhile_append_of_pos fun c hc =>
      after.isBlank_of_mem (List.mem_reverse.1 hc), hname]
    simp [hd]
  rw [endName, if_neg (by simp [hname, hd]), Text.trimEnd, List.reverse_append, hafter,
    List.reverse_reverse]

section Steps

variable {names : List (List Char)} {tokens : List Token}

/-- An end tag may have blanks after the name. -/
theorem foldl_finish_blank (name : Name) (after : Blanks) :
    (after.chars.foldl step
        (name.chars.foldl step (step ⟨.bracket, name.chars :: names, tokens⟩ '/'))).step '>' =
      ⟨.text [], names, .finish name.chars :: tokens⟩ := by
  rw [foldl_endTag, foldl_unquoted (unquoted_blanks after)]
  show closeTag _ (after.chars.reverse ++ (name.chars.reverse ++ ['/'])) = _
  have hreverse : (after.chars.reverse ++ (name.chars.reverse ++ ['/'])).reverse =
      '/' :: (name.chars ++ after.chars) := by simp
  unfold closeTag
  rw [hreverse]
  simp [endName_append, closeElement, emit]

theorem closeCdata_eq (lexer : Lexer) {collected : List Char}
    (h : ∀ rest, collected ≠ ']' :: ']' :: rest) :
    lexer.closeCdata collected = { lexer with mode := .cdata ('>' :: collected) } := by
  unfold closeCdata
  split
  · exact absurd rfl (h _)
  · rfl

/-- Where a `>` does not close character data, it does not follow two brackets. -/
theorem ne_brackets_of_unclosed {done content : List Char}
    (h : ¬ [']', ']', '>'] <:+: done ++ '>' :: content) (rest : List Char) :
    done.reverse ++ "[CDATA[".toList.reverse ≠ ']' :: ']' :: rest := by
  intro e
  rcases List.eq_nil_or_concat done with rfl | ⟨done, c, rfl⟩
  · simp at e
  rcases List.eq_nil_or_concat done with rfl | ⟨done, d, rfl⟩
  · simp at e
  · simp only [List.concat_eq_append, List.reverse_append, List.reverse_cons, List.reverse_nil,
      List.nil_append, List.cons_append, List.cons.injEq] at e
    obtain ⟨rfl, rfl, -⟩ := e
    exact h ⟨done, content, by simp⟩

/-- Character data is not closed while no `>` follows two brackets in it. -/
theorem foldl_cdataText (content done : List Char) (h : ¬ [']', ']', '>'] <:+: done ++ content) :
    content.foldl step ⟨.cdata (done.reverse ++ "[CDATA[".toList.reverse), names, tokens⟩ =
      ⟨.cdata ((done ++ content).reverse ++ "[CDATA[".toList.reverse), names, tokens⟩ := by
  induction content generalizing done with
  | nil => simp
  | cons c content ih =>
    have hstep : step ⟨.cdata (done.reverse ++ "[CDATA[".toList.reverse), names, tokens⟩ c =
        ⟨.cdata ((done ++ [c]).reverse ++ "[CDATA[".toList.reverse), names, tokens⟩ := by
      by_cases hc : c = '>'
      · subst hc
        show closeCdata _ _ = _
        rw [closeCdata_eq _ (ne_brackets_of_unclosed h)]
        simp
      · simp [step, hc]
    rw [List.foldl_cons, hstep, ih (done ++ [c]) (by simpa using h)]
    simp

/-- Character data leaves its token. -/
theorem foldl_cdata (data : Cdata) (collected : List Char) :
    data.write.foldl step ⟨.text collected, names, tokens⟩ =
      ⟨.text [], names,
        .cdata data.content :: flush ⟨.text collected, names, tokens⟩ collected⟩ := by
  obtain ⟨content, h⟩ := data
  have hopen (tokens : List Token) :
      "[CDATA[".toList.foldl step ⟨.declaration, names, tokens⟩ =
        ⟨.cdata ([].reverse ++ "[CDATA[".toList.reverse), names, tokens⟩ := by
    simp [step]
  have hreverse : (content.reverse ++ "[CDATA[".toList.reverse).reverse =
      "[CDATA[".toList ++ content := by simp
  have hclose (tokens : List Token) :
      closeCdata ⟨.cdata (']' :: ']' :: (content.reverse ++ "[CDATA[".toList.reverse)), names,
          tokens⟩ (']' :: ']' :: (content.reverse ++ "[CDATA[".toList.reverse)) =
        ⟨.text [], names, .cdata content :: tokens⟩ := by
    show (if "[CDATA[".toList.isPrefixOf
        (content.reverse ++ "[CDATA[".toList.reverse).reverse then _ else _) = _
    rw [hreverse, if_pos (List.isPrefixOf_iff_prefix.2 (List.prefix_append _ _))]
    simp [emit]
  rw [Cdata.write, List.foldl_cons, List.foldl_cons, List.foldl_append, List.foldl_append]
  show step (step (step (List.foldl step (List.foldl step ⟨.declaration, names, _⟩ _) _) _) _) _ = _
  rw [hopen, foldl_cdataText content [] h]
  exact hclose _

/-- A bracket ends the text before it. -/
theorem exists_bracket (collected : List Char) (names : List (List Char)) (tokens : List Token) :
    ∃ last, step ⟨.text collected, names, tokens⟩ '<' = ⟨.bracket, names, last ++ tokens⟩ ∧
      tokenMarks last.reverse = [] := by
  obtain ⟨last, hlast, hmarks⟩ := exists_flush ⟨.text collected, names, tokens⟩ collected
  refine ⟨last, ?_, hmarks⟩
  rw [← hlast]
  rfl

end Steps

namespace Finds

variable {chars rest : List Char} {marks more : List Mark}

theorem nil : Finds [] [] := fun collected _ _ => ⟨collected, [], rfl, rfl⟩

theorem append (h : Finds chars marks) (hrest : Finds rest more) :
    Finds (chars ++ rest) (marks ++ more) := by
  intro collected names tokens
  obtain ⟨middle, found, hfirst, hfound⟩ := h collected names tokens
  obtain ⟨left, others, hsecond, hothers⟩ := hrest middle names (found ++ tokens)
  refine ⟨left, others ++ found, ?_, ?_⟩
  · rw [List.foldl_append, hfirst, hsecond, List.append_assoc]
  · rw [List.reverse_append, tokenMarks_append, hfound, hothers]

theorem text (raw : RawText) : Finds raw.chars [] := fun collected _ _ =>
  ⟨raw.chars.reverse ++ collected, [], foldl_text raw.chars raw.noMarkup collected, rfl⟩

theorem remark (remark : Remark) : Finds remark.write [] := by
  intro collected names tokens
  obtain ⟨last, hlast, hmarks⟩ := exists_flush ⟨.text collected, names, tokens⟩ collected
  exact ⟨[], last, by rw [foldl_remark, hlast], hmarks⟩

theorem gap (gap : Gap) : Finds gap.write [] := by
  obtain ⟨raw, remarks⟩ := gap
  have hremarks : Finds (remarks.flatMap fun remark => remark.1.write ++ remark.2.chars) [] := by
    induction remarks with
    | nil => exact nil
    | cons remark remarks ih => exact ((Finds.remark remark.1).append (text remark.2)).append ih
  exact (text raw).append hremarks

theorem cdata (data : Cdata) : Finds data.write [] := by
  intro collected names tokens
  obtain ⟨last, hlast, hmarks⟩ := exists_flush ⟨.text collected, names, tokens⟩ collected
  refine ⟨[], .cdata data.content :: last, by rw [foldl_cdata, hlast]; rfl, ?_⟩
  rw [List.reverse_cons, tokenMarks_append, hmarks]
  rfl

/-- A single tag is an element without content. -/
theorem single (tag : TagLayout) :
    Finds (['<'] ++ tag.write ++ ['/', '>']) (TagTree.node tag.tag []).marks := by
  intro collected names tokens
  obtain ⟨last, hopen, hmarks⟩ := exists_bracket collected names tokens
  refine ⟨[], .finish tag.tag.name :: .start tag.tag :: last, ?_, ?_⟩
  · simp only [List.foldl_append, List.foldl_cons, List.foldl_nil, hopen, foldl_selfClosed]
    rfl
  · rw [List.reverse_cons, List.reverse_cons, List.append_assoc, tokenMarks_append, hmarks]
    rfl

/-- Two tags enclose the elements that are found between them. -/
theorem paired (tag : TagLayout) (after : Blanks) {trees : List TagTree}
    (h : Finds chars (TagTree.marksAll trees)) :
    Finds (['<'] ++ tag.write ++ ['>'] ++ chars ++ ['<', '/'] ++ tag.name.chars ++ after.chars ++
      ['>']) (TagTree.node tag.tag trees).marks := by
  intro collected names tokens
  obtain ⟨last, hopen, hmarks⟩ := exists_bracket collected names tokens
  obtain ⟨left, more, hinner, hmore⟩ :=
    h [] (tag.tag.name :: names) (.start tag.tag :: (last ++ tokens))
  obtain ⟨trail, hclose, hnone⟩ := exists_bracket left (tag.tag.name :: names)
    (more ++ .start tag.tag :: (last ++ tokens))
  refine ⟨[], .finish tag.tag.name :: (trail ++ (more ++ .start tag.tag :: last)), ?_, ?_⟩
  · simp only [List.foldl_append, List.foldl_cons, List.foldl_nil, hopen, foldl_start, hinner,
      hclose]
    rw [tag.name_tag, foldl_finish_blank]
    simp
  · simp only [List.reverse_cons, List.reverse_append, List.append_assoc, tokenMarks_append, hmarks,
      hmore, hnone, List.nil_append]
    rw [TagTree.marks]
    rfl

/-- These are the marks of the text as a document. -/
theorem tokenMarks_ofText (h : Finds chars marks) (hchars : dropMark chars = chars) :
    tokenMarks (Tokens.ofText chars).tokens = marks := by
  obtain ⟨left, found, hfold, hfound⟩ := h [] [] []
  rw [List.append_nil] at hfold
  rw [Tokens.ofText, hchars, tokenMarks_finish]
  show tokenMarks (chars.foldl step ⟨.text [], [], []⟩).tokens.reverse = marks
  rw [hfold]
  exact hfound

end Finds

end Lexer

/-! ### Nodes and fragments -/

open Lexer (Finds)

namespace Node

mutual

/-- The tree of a node. -/
def tree : Node → TagTree
  | selfClosed _ tag => .node tag.tag []
  | paired _ tag children _ => .node tag.tag (treeAll children)

/-- The trees of nodes that follow each other. -/
def treeAll : List Node → List TagTree
  | [] => []
  | node :: nodes => tree node :: treeAll nodes

end

theorem treeAll_eq (nodes : List Node) : treeAll nodes = nodes.map tree := by
  induction nodes with
  | nil => rfl
  | cons node nodes ih => rw [treeAll, ih, List.map_cons]

theorem tag_tree (node : Node) : node.tree.tag = node.tag.tag := by
  cases node <;> rw [tree] <;> rfl

mutual

/-- The lexer finds the tree of a node in its text. -/
theorem finds_write : (node : Node) → Finds node.write node.tree.marks
  | selfClosed lead tag => by
      have h := (Finds.gap lead).append (.single tag)
      rw [write, tree]
      simpa using h
  | paired lead tag children trail => by
      have hcontent := (finds_writeAll children).append (.gap trail)
      rw [List.append_nil] at hcontent
      have h := (Finds.gap lead).append (.paired tag .empty hcontent)
      rw [write, tree]
      simpa using h

theorem finds_writeAll : (nodes : List Node) →
    Finds (writeAll nodes) (TagTree.marksAll (treeAll nodes))
  | [] => .nil
  | node :: nodes => by
      rw [writeAll, treeAll, TagTree.marksAll]
      exact (finds_write node).append (finds_writeAll nodes)

end

end Node

/-- A piece of content: a text, a remark, character data, or an element with pieces of content in
it. -/
inductive Fragment where
  | text (raw : RawText)
  | remark (remark : Remark)
  | cdata (data : Cdata)
  | single (tag : TagLayout)
  | paired (tag : TagLayout) (parts : List Fragment) (after : Blanks := .empty)

namespace Fragment

mutual

/-- The text of a fragment. -/
def write : Fragment → List Char
  | text raw => raw.chars
  | remark mark => mark.write
  | cdata data => data.write
  | single tag => ['<'] ++ tag.write ++ ['/', '>']
  | paired tag parts after =>
      ['<'] ++ tag.write ++ ['>'] ++ writeAll parts ++ ['<', '/'] ++ tag.name.chars ++
        after.chars ++ ['>']

/-- The text of fragments that follow each other. -/
def writeAll : List Fragment → List Char
  | [] => []
  | fragment :: fragments => write fragment ++ writeAll fragments

end

mutual

/-- The elements that a fragment consists of, at most one. -/
def trees : Fragment → List TagTree
  | text _ => []
  | remark _ => []
  | cdata _ => []
  | single tag => [.node tag.tag []]
  | paired tag parts _ => [.node tag.tag (treesAll parts)]

/-- The elements of fragments that follow each other. -/
def treesAll : List Fragment → List TagTree
  | [] => []
  | fragment :: fragments => trees fragment ++ treesAll fragments

end

/-- The start tag of a fragment that is an element. -/
def tag? : Fragment → Option TagLayout
  | single tag => some tag
  | paired tag _ _ => some tag
  | _ => none

/-- An element is one tree. -/
theorem exists_trees_eq {fragment : Fragment} {tag : TagLayout} (h : fragment.tag? = some tag) :
    ∃ tree, fragment.trees = [tree] ∧ tree.tag = tag.tag := by
  cases fragment with
  | single found =>
    cases h
    exact ⟨_, by rw [trees], rfl⟩
  | paired found parts after =>
    cases h
    exact ⟨_, by rw [trees], rfl⟩
  | _ => cases h

mutual

/-- The lexer finds the elements of a fragment in its text. -/
theorem finds_write : (fragment : Fragment) → Finds fragment.write (TagTree.marksAll fragment.trees)
  | text raw => by
      rw [write, trees, TagTree.marksAll]
      exact .text raw
  | remark mark => by
      rw [write, trees, TagTree.marksAll]
      exact .remark mark
  | cdata data => by
      rw [write, trees, TagTree.marksAll]
      exact .cdata data
  | single tag => by
      rw [write, trees, TagTree.marksAll_cons, TagTree.marksAll, List.append_nil]
      exact .single tag
  | paired tag parts after => by
      rw [write, trees, TagTree.marksAll_cons, TagTree.marksAll, List.append_nil]
      exact .paired tag after (finds_writeAll parts)

theorem finds_writeAll : (fragments : List Fragment) →
    Finds (writeAll fragments) (TagTree.marksAll (treesAll fragments))
  | [] => .nil
  | fragment :: fragments => by
      rw [writeAll, treesAll, TagTree.marksAll_append]
      exact (finds_write fragment).append (finds_writeAll fragments)

end

end Fragment

end UpdateProtocol.Markup

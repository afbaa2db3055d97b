import UpdateProtocol.Proofs.Markup.Progress

/-!
# Nesting of marks

The lexer accepts an end tag only if it closes the innermost open element, so the marks it finds
are nested (`Tokens.nest_ofText`).  In nested marks an element ends where the marks of all names
say so, and counting the marks of its own name finds the same place (`leaving_eq`).

The tokens of a longer text begin with those of a shorter one (`Lexer.extends_foldl`).
-/

namespace UpdateProtocol.Markup

/-- The names of the open elements after a mark, the innermost first, if the mark may stand
there. -/
def nestStep (names : List (List Char)) : Mark → Option (List (List Char))
  | .start tag => some (tag.name :: names)
  | .finish found =>
      match names with
      | [] => none
      | name :: names => if found == name then some names else none

/-- The names of the open elements after some marks. -/
def nest (names : List (List Char)) (marks : List Mark) : Option (List (List Char)) :=
  marks.foldlM nestStep names

/-- The marks after the end of an element whose start tag stands before these. -/
def afterEnd (marks : List Mark) : Option (List Mark) :=
  leaving (fun _ => true) 0 marks

section Nest

variable {names stack : List (List Char)} {name : List Char} {tag : Tag} {marks more : List Mark}

theorem nest_append (names : List (List Char)) (marks more : List Mark) :
    nest names (marks ++ more) = (nest names marks).bind (fun names => nest names more) :=
  List.foldlM_append

theorem nest_start (names : List (List Char)) (tag : Tag) (marks : List Mark) :
    nest names (.start tag :: marks) = nest (tag.name :: names) marks :=
  List.foldlM_cons

/-- In nested marks an end tag closes the innermost element. -/
theorem nest_finish (h : nest names (.finish name :: marks) = some stack) :
    ∃ others, names = name :: others ∧ nest others marks = some stack := by
  cases names with
  | nil => cases h
  | cons first others =>
    have hstep : nest (first :: others) (.finish name :: marks) =
        (if name == first then some others else none).bind (fun names => nest names marks) :=
      List.foldlM_cons
    rw [hstep] at h
    split at h
    · next hname => exact ⟨others, by rw [eq_of_beq hname], h⟩
    · cases h

theorem nest_finish_self (name : List Char) (names : List (List Char)) (marks : List Mark) :
    nest (name :: names) (.finish name :: marks) = nest names marks := by
  have hstep : nest (name :: names) (.finish name :: marks) =
      (if name == name then some names else none).bind (fun names => nest names marks) :=
    List.foldlM_cons
  rw [hstep, if_pos (by simp)]
  rfl

/-! ### The end of an element -/

/-- Counting the marks of one name or of all names comes to the same in nested marks. -/
theorem leaving_eq {opened : List (List Char)}
    (h : nest (opened ++ name :: names) marks = some stack) :
    leaving (· == name) (opened.count name) marks =
      leaving (fun _ => true) opened.length marks := by
  induction marks generalizing opened with
  | nil => rfl
  | cons mark marks ih =>
    cases mark with
    | start tag =>
      rw [nest_start] at h
      simp only [leaving, if_true]
      rw [← List.length_cons (a := tag.name), ← @ih (tag.name :: opened) h, List.count_cons]
      split <;> rfl
    | finish found =>
      obtain ⟨others, hothers, h⟩ := nest_finish h
      cases opened with
      | nil =>
        obtain ⟨rfl, rfl⟩ := List.cons.inj hothers
        simp [leaving]
      | cons first opened =>
        obtain ⟨rfl, rfl⟩ := List.cons.inj hothers
        simp only [leaving, if_true, List.count_cons, List.length_cons, ← ih h]
        split <;> rfl

/-- The marks up to the end of some elements close exactly these, whatever is open around them. -/
theorem leaving_split {opened : List (List Char)} {left : List Mark}
    (h : nest (opened ++ name :: names) marks = some stack)
    (hleft : leaving (fun _ => true) opened.length marks = some left) :
    ∃ passed, marks = passed ++ left ∧
      ∀ others, nest (opened ++ name :: others) passed = some others := by
  induction marks generalizing opened with
  | nil => cases hleft
  | cons mark marks ih =>
    cases mark with
    | start tag =>
      rw [nest_start] at h
      obtain ⟨passed, rfl, hpassed⟩ := @ih (tag.name :: opened) h hleft
      exact ⟨.start tag :: passed, rfl, fun others => (nest_start _ _ _).trans (hpassed others)⟩
    | finish found =>
      obtain ⟨others, hothers, h⟩ := nest_finish h
      cases opened with
      | nil =>
        obtain ⟨rfl, rfl⟩ := List.cons.inj hothers
        simp only [leaving, if_true, List.length_nil, Option.some_inj] at hleft
        subst hleft
        exact ⟨[.finish name], rfl, fun others => nest_finish_self name others []⟩
      | cons first opened =>
        obtain ⟨rfl, rfl⟩ := List.cons.inj hothers
        obtain ⟨passed, rfl, hpassed⟩ := ih h hleft
        exact ⟨.finish first :: passed, rfl, fun others =>
          (nest_finish_self _ _ _).trans (hpassed others)⟩

/-- Elements are left one after the other. -/
theorem leaving_succ (depth : Nat) (marks : List Mark) :
    leaving (fun _ => true) (depth + 1) marks =
      (afterEnd marks).bind (leaving (fun _ => true) depth) := by
  have hadd (inner : Nat) : leaving (fun _ => true) (inner + depth + 1) marks =
      (leaving (fun _ => true) inner marks).bind (leaving (fun _ => true) depth) := by
    induction marks generalizing inner with
    | nil => rfl
    | cons mark marks ih =>
      cases mark with
      | start tag =>
        simp only [leaving, if_true]
        rw [← ih (inner + 1)]
        congr 1
        omega
      | finish found =>
        cases inner with
        | zero => simp [leaving]
        | succ inner =>
          simp only [leaving, if_true]
          rw [← ih inner]
          have hdepth : inner + 1 + depth = inner + depth + 1 := by omega
          simp only [hdepth]
  have := hadd 0
  rwa [Nat.zero_add] at this

/-- Marks that close all they open do not matter to the end of an element around them. -/
theorem leaving_nest {opened : List (List Char)} (h : nest opened marks = some stack)
    (more : List Mark) :
    leaving (fun _ => true) opened.length (marks ++ more) =
      leaving (fun _ => true) stack.length more := by
  induction marks generalizing opened with
  | nil =>
    cases h
    rfl
  | cons mark marks ih =>
    cases mark with
    | start tag => exact @ih (tag.name :: opened) h
    | finish found =>
      obtain ⟨others, rfl, hrest⟩ := nest_finish h
      simpa [leaving] using ih hrest

/-- After the end of an element those around it are still open. -/
theorem nest_of_afterEnd {left : List Mark} (h : nest (name :: names) marks = some stack)
    (hleft : afterEnd marks = some left) : nest names left = some stack := by
  obtain ⟨passed, rfl, hpassed⟩ := @leaving_split _ _ _ _ [] _ h hleft
  rwa [nest_append, show nest (name :: names) passed = some names from hpassed names] at h

/-- An element inside of another one: after its end the other one is still open. -/
theorem afterEnd_start {left : List Mark} (h : nest names (.start tag :: marks) = some stack)
    (hleft : afterEnd marks = some left) :
    nest names left = some stack ∧ afterEnd (.start tag :: marks) = afterEnd left := by
  rw [nest_start] at h
  refine ⟨nest_of_afterEnd h hleft, ?_⟩
  have hstart : afterEnd (.start tag :: marks) = leaving (fun _ => true) (0 + 1) marks := rfl
  rw [hstart, leaving_succ, hleft]
  rfl

/-- Passing over an element takes the marks up to its end. -/
theorem afterEnd_of_skip {source after : Source}
    (h : nest (name :: names) source.marks = some stack) (hskip : source.skip name = .ok after) :
    afterEnd source.marks = some after.marks :=
  (@leaving_eq _ _ _ _ [] h).symm.trans (Source.skip_marks hskip).1

end Nest

/-- Marks that close what they open and nothing else. -/
def Balanced (marks : List Mark) : Prop :=
  ∀ names, nest names marks = some names

namespace Balanced

variable {marks more : List Mark}

theorem nil : Balanced [] := fun _ => rfl

theorem append (h : Balanced marks) (hmore : Balanced more) : Balanced (marks ++ more) :=
  fun names => by rw [nest_append, h names]; exact hmore names

theorem nest_append_eq (h : Balanced marks) (names : List (List Char)) (more : List Mark) :
    nest names (marks ++ more) = nest names more := by
  rw [nest_append, h names]
  rfl

theorem afterEnd_append (h : Balanced marks) (more : List Mark) :
    afterEnd (marks ++ more) = afterEnd more :=
  leaving_nest (h []) more

end Balanced

/-! ### The marks that the lexer finds -/

namespace Lexer

variable {lexer before after : Lexer}

/-- More tokens have been found since a state, and their marks open and close the elements that are
open now. -/
def Extends (before after : Lexer) : Prop :=
  ∃ more, after.tokens = more ++ before.tokens ∧
    nest before.names (tokenMarks more.reverse) = some after.names

theorem Extends.refl (mode : Mode) : Extends lexer { lexer with mode } :=
  ⟨[], rfl, rfl⟩

theorem Extends.trans {middle : Lexer} (h : Extends before middle) (h' : Extends middle after) :
    Extends before after := by
  obtain ⟨more, hmore, hnest⟩ := h
  obtain ⟨others, hothers, hnest'⟩ := h'
  refine ⟨others ++ more, by rw [hothers, hmore, List.append_assoc], ?_⟩
  rw [List.reverse_append, tokenMarks_append, nest_append, hnest]
  exact hnest'

theorem extends_emit {token : Token} (h : token.mark? = none) :
    Extends lexer (lexer.emit token) := by
  refine ⟨[token], rfl, ?_⟩
  simp [tokenMarks, h, nest, emit]

theorem extends_closeComment (lexer : Lexer) (collected : List Char) :
    Extends lexer (lexer.closeComment collected) := by
  unfold closeComment
  split
  · split <;> exact .refl _
  · exact .refl _

theorem extends_closeCdata (lexer : Lexer) (collected : List Char) :
    Extends lexer (lexer.closeCdata collected) := by
  unfold closeCdata
  split
  · split
    · exact extends_emit rfl
    · exact .refl _
  · exact .refl _

theorem extends_closeDoctype (lexer : Lexer) (collected : List Char) :
    Extends lexer (lexer.closeDoctype collected) := by
  simp only [closeDoctype]
  split
  · split
    · exact .refl _
    · exact extends_emit rfl
  · exact .refl _

theorem extends_closeInstruction (lexer : Lexer) (collected : List Char) :
    Extends lexer (lexer.closeInstruction collected) := by
  unfold closeInstruction
  split <;> exact .refl _

theorem extends_closeElement (lexer : Lexer) (found : List Char) :
    Extends lexer (lexer.closeElement found) := by
  unfold closeElement
  split
  · exact .refl _
  · next expected names hnames =>
    split
    · next hfound =>
      refine ⟨[.finish found], rfl, ?_⟩
      rw [hnames, ← eq_of_beq hfound]
      exact nest_finish_self found names []
    · exact .refl _

theorem extends_closeTag (lexer : Lexer) (collected : List Char) :
    Extends lexer (lexer.closeTag collected) := by
  unfold closeTag
  split
  · exact extends_closeElement _ _
  · split
    · refine ⟨[.finish _, .start _], rfl, ?_⟩
      exact (nest_start _ _ _).trans (nest_finish_self _ _ [])
    · exact ⟨[.start _], rfl, rfl⟩

theorem extends_stepTag (lexer : Lexer) (quote : Option Char) (collected : List Char) (c : Char) :
    Extends lexer (lexer.stepTag quote collected c) := by
  unfold stepTag
  split
  · split
    · exact extends_closeTag _ _
    · exact .refl _
  · exact .refl _

/-- Reading a character keeps the tokens found before it. -/
theorem extends_step (lexer : Lexer) (c : Char) : Extends lexer (lexer.step c) := by
  unfold step
  split
  · split
    · next collected _ _ =>
      cases collected with
      | nil => exact .refl _
      | cons first collected => exact ⟨[.text _], rfl, rfl⟩
    · exact .refl _
  · split
    · exact .refl _
    split
    · exact .refl _
    · exact extends_stepTag _ _ _ _
  · split
    · exact .refl _
    split
    · exact .refl _
    split
    · exact .refl _
    · exact .refl _
  · split
    · exact extends_closeComment _ _
    · exact .refl _
  · split
    · exact extends_closeCdata _ _
    · exact .refl _
  · split
    · split
      · exact extends_closeDoctype _ _
      · exact .refl _
    · exact .refl _
  · split
    · exact extends_closeInstruction _ _
    · exact .refl _
  · exact extends_stepTag _ _ _ _
  · exact .refl lexer.mode

theorem extends_foldl (lexer : Lexer) (chars : List Char) :
    Extends lexer (chars.foldl step lexer) := by
  induction chars generalizing lexer with
  | nil => exact .refl lexer.mode
  | cons c chars ih => exact (extends_step lexer c).trans (ih _)

/-- Only an angle bracket that closes completes a tag. -/
theorem tokenMarks_step (lexer : Lexer) {c : Char} (h : c ≠ '>') :
    tokenMarks (lexer.step c).tokens.reverse = tokenMarks lexer.tokens.reverse := by
  have htag (quote : Option Char) (collected : List Char) :
      (lexer.stepTag quote collected c).tokens = lexer.tokens := by
    cases quote <;> simp [stepTag, h]
  have hflush (collected : List Char) :
      tokenMarks (lexer.flush collected).reverse = tokenMarks lexer.tokens.reverse := by
    cases collected with
    | nil => rfl
    | cons d collected => simp [flush, tokenMarks, Token.mark?]
  unfold step
  split
  · split
    · exact hflush _
    · rfl
  · split
    · rfl
    split
    · rfl
    · rw [htag]
  · split
    · rfl
    split
    · rfl
    split <;> rfl
  · rw [if_neg (by simp [h])]
  · rw [if_neg (by simp [h])]
  · rw [if_neg (by simp [h])]
  · rw [if_neg (by simp [h])]
  · rw [htag]
  · rfl

theorem tokenMarks_foldl (lexer : Lexer) {chars : List Char} (h : '>' ∉ chars) :
    tokenMarks (chars.foldl step lexer).tokens.reverse = tokenMarks lexer.tokens.reverse := by
  induction chars generalizing lexer with
  | nil => rfl
  | cons c chars ih =>
    obtain ⟨hc, hchars⟩ := List.ne_and_not_mem_of_not_mem_cons h
    rw [List.foldl_cons, ih _ hchars, tokenMarks_step lexer (Ne.symm hc)]

/-- At the end there may be one more text. -/
theorem tokens_finish (lexer : Lexer) :
    ∃ last, lexer.finish.tokens = lexer.tokens.reverse ++ last ∧ tokenMarks last = [] := by
  unfold finish
  split
  · next collected _ =>
    cases collected with
    | nil => exact ⟨[], by simp [flush], rfl⟩
    | cons c collected => exact ⟨[.text (c :: collected).reverse], by simp [flush], rfl⟩
  all_goals exact ⟨[], (List.append_nil _).symm, rfl⟩

end Lexer

theorem tokenMarks_finish (lexer : Lexer) :
    tokenMarks lexer.finish.tokens = tokenMarks lexer.tokens.reverse := by
  obtain ⟨last, htokens, hlast⟩ := lexer.tokens_finish
  rw [htokens, tokenMarks_append, hlast, List.append_nil]

/-- The marks of a text are nested. -/
theorem Tokens.nest_ofText (text : List Char) :
    ∃ names, nest [] (tokenMarks (Tokens.ofText text).tokens) = some names := by
  obtain ⟨more, hmore, hnest⟩ := Lexer.extends_foldl {} (dropMark text)
  refine ⟨((dropMark text).foldl Lexer.step {}).names, ?_⟩
  rw [Tokens.ofText, tokenMarks_finish, hmore, List.append_nil]
  exact hnest

/-! ### Texts that go on -/

theorem dropMark_append {text : List Char} (h : text ≠ []) (rest : List Char) :
    dropMark (text ++ rest) = dropMark text ++ rest := by
  cases text with
  | nil => exact absurd rfl h
  | cons c text =>
    by_cases hc : c = '\ufeff'
    · subst hc
      rfl
    · simp [dropMark, hc]

/-- The tokens of a text are those of a longer one as far as they have been read. -/
theorem Tokens.exists_ofText_append {text : List Char}
    (h : tokenMarks (Tokens.ofText text).tokens ≠ []) (rest : List Char) :
    ∃ tokens more more', (Tokens.ofText text).tokens = tokens ++ more ∧ tokenMarks more = [] ∧
      (Tokens.ofText (text ++ rest)).tokens = tokens ++ more' := by
  have hne : text ≠ [] := by
    rintro rfl
    exact h rfl
  obtain ⟨last, hlast, hmarks⟩ := ((dropMark text).foldl Lexer.step {}).tokens_finish
  obtain ⟨last', hlast', -⟩ := ((dropMark (text ++ rest)).foldl Lexer.step {}).tokens_finish
  obtain ⟨others, hothers, -⟩ :=
    Lexer.extends_foldl ((dropMark text).foldl Lexer.step {}) rest
  refine ⟨_, last, others.reverse ++ last', hlast, hmarks, ?_⟩
  rw [Tokens.ofText, hlast', dropMark_append hne, List.foldl_append, hothers, List.reverse_append,
    List.append_assoc]

/-- A text that goes on without a closing angle bracket has no more tags. -/
theorem Tokens.tokenMarks_ofText_append (text : List Char) {rest : List Char} (h : '>' ∉ rest) :
    tokenMarks (Tokens.ofText (text ++ rest)).tokens = tokenMarks (Tokens.ofText text).tokens := by
  have hmark : '>' ∉ dropMark rest := fun hmem => h (by
    unfold dropMark at hmem
    split at hmem
    · exact List.mem_cons_of_mem _ hmem
    · exact hmem)
  simp only [Tokens.ofText, tokenMarks_finish]
  cases text with
  | nil => exact Lexer.tokenMarks_foldl {} hmark
  | cons c text =>
    rw [dropMark_append (List.cons_ne_nil c text), List.foldl_append, Lexer.tokenMarks_foldl _ h]

/-! ### The root -/

theorem findSome?_tag {tokens : List Token} {tag : Tag} {marks : List Mark}
    (h : tokenMarks tokens = .start tag :: marks) :
    tokens.findSome? Tokens.root.tag? = some tag := by
  induction tokens with
  | nil => cases h
  | cons token tokens ih =>
    cases token with
    | start found =>
      obtain ⟨e, -⟩ := List.cons.inj h
      cases e
      rfl
    | finish name => cases (List.cons.inj h).1
    | _ => exact ih h

/-- The root is the first element whose start tag has been found. -/
theorem Tokens.root_eq {document : Tokens} {tag : Tag} {marks : List Mark}
    (h : tokenMarks document.tokens = .start tag :: marks) : document.root = .ok (some tag) := by
  rw [root, findSome?_tag h]

/-- The root of a text is the first element whose start tag has been found. -/
theorem Tokens.root_ofText_iff {text : List Char} {tag : Tag} :
    (ofText text).root = .ok (some tag) ↔
      ∃ marks, tokenMarks (ofText text).tokens = .start tag :: marks := by
  refine ⟨fun h => ?_, fun ⟨marks, hmarks⟩ => root_eq hmarks⟩
  obtain ⟨names, nested⟩ := nest_ofText text
  cases hmarks : tokenMarks (ofText text).tokens with
  | nil =>
    rw [root] at h
    split at h
    · next found hfound =>
      obtain ⟨token, hmem, htag⟩ := List.exists_of_findSome?_eq_some hfound
      have hmark := List.filterMap_eq_nil_iff.1 hmarks token hmem
      cases token <;> simp [root.tag?, Token.mark?] at htag hmark
    · split at h <;> cases h
  | cons mark marks =>
    cases mark with
    | start found =>
      have hfound := root_eq hmarks
      rw [h] at hfound
      cases hfound
      exact ⟨marks, rfl⟩
    | finish name =>
      rw [hmarks] at nested
      cases nested

/-- The root does not change when the text goes on. -/
theorem Tokens.root_append {text : List Char} {tag : Tag}
    (h : (ofText text).root = .ok (some tag)) (rest : List Char) :
    (ofText (text ++ rest)).root = .ok (some tag) := by
  obtain ⟨marks, hmarks⟩ := root_ofText_iff.1 h
  obtain ⟨tokens, more, more', htokens, hmore, htokens'⟩ :=
    exists_ofText_append (by rw [hmarks]; simp) rest
  rw [htokens, tokenMarks_append, hmore, List.append_nil] at hmarks
  have hmarks' : tokenMarks (ofText (text ++ rest)).tokens =
      .start tag :: (marks ++ tokenMarks more') := by
    rw [htokens', tokenMarks_append, hmarks]
    rfl
  exact root_eq hmarks'

end UpdateProtocol.Markup

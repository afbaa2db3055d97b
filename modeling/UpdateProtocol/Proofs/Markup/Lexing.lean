import UpdateProtocol.Proofs.Markup.Layout

/-!
# Lexing a layout

The lexer finds in the text of a node exactly the tokens of the node (`Tokens.ofText_write`).

Every tag ends in one and the same state, text with nothing collected, so the pieces of a node can
be followed one by one: a gap up to the bracket after it (`foldl_gap`), a tag from its bracket to
its end (`foldl_start`, `foldl_finish`).
-/

namespace UpdateProtocol.Markup

/-! ### Characters of names -/

theorem isNameChar_of_isNameStart {c : Char} (h : isNameStart c = true) : isNameChar c = true := by
  simp [isNameChar, h]

namespace Name

theorem exists_cons (name : Name) : ∃ c rest, name.chars = c :: rest ∧ isNameStart c = true := by
  obtain ⟨chars, valid⟩ := name
  cases chars with
  | nil => simp [isName] at valid
  | cons c rest => exact ⟨c, rest, rfl, (Bool.and_eq_true_iff.1 valid).1⟩

theorem isNameChar_of_mem (name : Name) {c : Char} (hc : c ∈ name.chars) : isNameChar c = true := by
  obtain ⟨chars, valid⟩ := name
  cases chars with
  | nil => simp at hc
  | cons d rest =>
    obtain ⟨hd, hrest⟩ := Bool.and_eq_true_iff.1 valid
    rcases List.mem_cons.1 hc with rfl | hc
    · exact isNameChar_of_isNameStart hd
    · exact List.all_eq_true.1 hrest c hc

/-- A character that no name contains is not in a given one. -/
theorem ne_of_mem (name : Name) {c d : Char} (hc : c ∈ name.chars)
    (hd : isNameChar d = false := by decide) : c ≠ d := by
  rintro rfl
  rw [name.isNameChar_of_mem hc] at hd
  cases hd

theorem not_isBlank_of_mem (name : Name) {c : Char} (hc : c ∈ name.chars) :
    Text.isBlank c = false := by
  have ne (d : Char) (hd : isNameChar d = false) : c ≠ d := name.ne_of_mem hc hd
  simp [Text.isBlank, ne ' ' (by decide), ne '\t' (by decide), ne '\n' (by decide),
    ne '\r' (by decide)]

end Name

theorem Blanks.isBlank_of_mem (blanks : Blanks) {c : Char} (hc : c ∈ blanks.chars) :
    Text.isBlank c = true :=
  List.all_eq_true.1 blanks.blank c hc

theorem Blanks.ne_of_mem (blanks : Blanks) {c d : Char} (hc : c ∈ blanks.chars)
    (hd : Text.isBlank d = false := by decide) : c ≠ d := by
  rintro rfl
  rw [blanks.isBlank_of_mem hc] at hd
  cases hd

namespace Lexer

variable {names : List (List Char)} {tokens : List Token}

/-! ### Gaps -/

theorem foldl_text (raw : List Char) (h : '<' ∉ raw) (collected : List Char) :
    raw.foldl step ⟨.text collected, names, tokens⟩ =
      ⟨.text (raw.reverse ++ collected), names, tokens⟩ := by
  induction raw generalizing collected with
  | nil => rfl
  | cons c raw ih =>
    obtain ⟨hc, hraw⟩ := List.ne_and_not_mem_of_not_mem_cons h
    have hstep : step ⟨.text collected, names, tokens⟩ c =
        ⟨.text (c :: collected), names, tokens⟩ := by
      simp [step, Ne.symm hc]
    rw [List.foldl_cons, hstep, ih hraw]
    simp

theorem flush_reverse (lexer : Lexer) (raw : List Char) :
    lexer.flush raw.reverse = (([raw].filter (· ≠ [])).map Token.text).reverse ++ lexer.tokens := by
  rcases List.eq_nil_or_concat raw with rfl | ⟨init, c, rfl⟩ <;> simp [flush]

theorem closeComment_eq (lexer : Lexer) {collected : List Char}
    (h : ∀ a b rest, collected ≠ '-' :: '-' :: a :: b :: rest) :
    lexer.closeComment collected = { lexer with mode := .comment ('>' :: collected) } := by
  unfold closeComment
  split
  · exact absurd rfl (h _ _ _)
  · rfl

/-- A comment is not closed while its content has no two dashes in a row. -/
theorem closeComment_reverse (lexer : Lexer) {content : List Char}
    (h : ¬ ['-', '-'] <:+: content) :
    lexer.closeComment (content.reverse ++ ['-', '-']) =
      { lexer with mode := .comment ('>' :: (content.reverse ++ ['-', '-'])) } := by
  refine closeComment_eq lexer fun a b rest e => ?_
  rcases List.eq_nil_or_concat content with rfl | ⟨content, c, rfl⟩
  · simp at e
  rcases List.eq_nil_or_concat content with rfl | ⟨content, d, rfl⟩
  · simp at e
  · simp only [List.concat_eq_append, List.reverse_append, List.reverse_cons, List.reverse_nil,
      List.nil_append, List.cons_append, List.cons.injEq] at e
    obtain ⟨rfl, rfl, -⟩ := e
    exact h ⟨content, [], by simp⟩

theorem foldl_comment (content done : List Char) (h : ¬ ['-', '-'] <:+: done ++ content) :
    content.foldl step ⟨.comment (done.reverse ++ ['-', '-']), names, tokens⟩ =
      ⟨.comment ((done ++ content).reverse ++ ['-', '-']), names, tokens⟩ := by
  induction content generalizing done with
  | nil => simp
  | cons c content ih =>
    have hdone : ¬ ['-', '-'] <:+: done := fun hin => h (hin.trans ⟨[], c :: content, by simp⟩)
    have hstep : step ⟨.comment (done.reverse ++ ['-', '-']), names, tokens⟩ c =
        ⟨.comment ((done ++ [c]).reverse ++ ['-', '-']), names, tokens⟩ := by
      by_cases hc : c = '>'
      · subst hc
        simp [step, closeComment_reverse _ hdone]
      · simp [step, hc]
    rw [List.foldl_cons, hstep, ih (done ++ [c]) (by simpa using h)]
    simp

theorem closeInstruction_eq (lexer : Lexer) {last : Char} {collected : List Char}
    (h : last ≠ '?') :
    lexer.closeInstruction (last :: collected) =
      { lexer with mode := .instruction ('>' :: last :: collected) } := by
  unfold closeInstruction
  split
  · simp_all
  · simp_all
  · rfl

/-- An instruction is not closed while no `>` follows a question mark. -/
theorem foldl_instruction (content : List Char) (last : Char) (collected : List Char)
    (h : ¬ ['?', '>'] <:+: last :: content) :
    content.foldl step ⟨.instruction (last :: collected), names, tokens⟩ =
      ⟨.instruction (content.reverse ++ last :: collected), names, tokens⟩ := by
  induction content generalizing last collected with
  | nil => rfl
  | cons c content ih =>
    have hlast : ¬ (last = '?' ∧ c = '>') := by
      rintro ⟨rfl, rfl⟩
      exact h ⟨[], content, rfl⟩
    have hstep : step ⟨.instruction (last :: collected), names, tokens⟩ c =
        ⟨.instruction (c :: last :: collected), names, tokens⟩ := by
      by_cases hc : c = '>'
      · subst hc
        exact closeInstruction_eq _ fun e => hlast ⟨e, rfl⟩
      · simp [step, hc]
    rw [List.foldl_cons, hstep, ih c _ fun hin => h (hin.trans ⟨[last], [], by simp⟩)]
    simp

/-- A remark ends the text before it and leaves nothing. -/
theorem foldl_remark (remark : Remark) (collected : List Char) :
    remark.write.foldl step ⟨.text collected, names, tokens⟩ =
      ⟨.text [], names, flush ⟨.text collected, names, tokens⟩ collected⟩ := by
  cases remark with
  | comment content closed =>
    have hopen : "<!--".toList.foldl step ⟨.text collected, names, tokens⟩ =
        ⟨.comment ['-', '-'], names, flush ⟨.text collected, names, tokens⟩ collected⟩ := by
      simp [step]
    have hcontent := @foldl_comment names (flush ⟨.text collected, names, tokens⟩ collected)
      content [] (fun hin => closed (hin.trans ⟨[], ['-'], by simp⟩))
    simp only [List.reverse_nil, List.nil_append] at hcontent
    obtain ⟨a, b, rest, hrev⟩ : ∃ a b rest, content.reverse ++ ['-', '-'] = a :: b :: rest := by
      rcases content.reverse with _ | ⟨a, _ | ⟨b, rest⟩⟩ <;> simp
    have hprefix : "--".toList.isPrefixOf ('-' :: '-' :: a :: b :: rest).reverse = true := by
      rw [← hrev]
      simp
    rw [Remark.write, List.foldl_append, List.foldl_append, hopen, hcontent, hrev]
    show closeComment _ ('-' :: '-' :: a :: b :: rest) = _
    rw [closeComment, if_pos hprefix]
    rfl
  | instruction content closed =>
    have hopen : "<?".toList.foldl step ⟨.text collected, names, tokens⟩ =
        ⟨.instruction ['?'], names, flush ⟨.text collected, names, tokens⟩ collected⟩ := by
      simp [step]
    rw [Remark.write, List.foldl_append, List.foldl_append, hopen,
      foldl_instruction content '?' [] closed]
    rcases hrev : content.reverse ++ ['?'] with _ | ⟨a, rest⟩
    · simp at hrev
    · simp [step, closeInstruction, resume]

/-- A gap up to the bracket that ends it leaves a token for each of its texts. -/
theorem foldl_gap (gap : Gap) :
    (gap.write.foldl step ⟨.text [], names, tokens⟩).step '<' =
      ⟨.bracket, names, (gap.texts.map .text).reverse ++ tokens⟩ := by
  obtain ⟨⟨raw, noMarkup⟩, remarks⟩ := gap
  simp only [Gap.write, Gap.texts, List.foldl_append]
  induction remarks generalizing raw tokens with
  | nil =>
    rw [foldl_text raw noMarkup, List.append_nil]
    simp [step, flush_reverse]
  | cons remark remarks ih =>
    obtain ⟨remark, next, hnext⟩ := remark
    rw [foldl_text raw noMarkup, List.append_nil, List.flatMap_cons, List.append_assoc,
      List.foldl_append, foldl_remark, flush_reverse, List.foldl_append, ih next hnext]
    by_cases hraw : raw = [] <;> simp [hraw]

/-! ### Tags -/

/-- What stands outside of values and has no end of a tag in it. -/
def Unquoted (chars : List Char) : Prop :=
  ∀ c ∈ chars, c ≠ '>' ∧ c ≠ '"' ∧ c ≠ '\''

theorem unquoted_name (name : Name) : Unquoted name.chars :=
  fun _ hc => ⟨name.ne_of_mem hc, name.ne_of_mem hc, name.ne_of_mem hc⟩

theorem unquoted_blanks (blanks : Blanks) : Unquoted blanks.chars :=
  fun _ hc => ⟨blanks.ne_of_mem hc, blanks.ne_of_mem hc, blanks.ne_of_mem hc⟩

theorem Unquoted.append {chars rest : List Char} (h : Unquoted chars) (hrest : Unquoted rest) :
    Unquoted (chars ++ rest) :=
  fun c hc => (List.mem_append.1 hc).elim (h c) (hrest c)

theorem foldl_unquoted {chars : List Char} (h : Unquoted chars) (collected : List Char) :
    chars.foldl step ⟨.tag none collected, names, tokens⟩ =
      ⟨.tag none (chars.reverse ++ collected), names, tokens⟩ := by
  induction chars generalizing collected with
  | nil => rfl
  | cons c chars ih =>
    obtain ⟨hgt, hdouble, hsingle⟩ := h c List.mem_cons_self
    have hstep : step ⟨.tag none collected, names, tokens⟩ c =
        ⟨.tag none (c :: collected), names, tokens⟩ := by
      simp [step, stepTag, hgt, hdouble, hsingle]
    rw [List.foldl_cons, hstep, ih fun d hd => h d (List.mem_cons_of_mem c hd)]
    simp

theorem foldl_quoted (quote : Char) (value : List Char) (h : quote ∉ value)
    (collected : List Char) :
    value.foldl step ⟨.tag (some quote) collected, names, tokens⟩ =
      ⟨.tag (some quote) (value.reverse ++ collected), names, tokens⟩ := by
  induction value generalizing collected with
  | nil => rfl
  | cons c value ih =>
    obtain ⟨hc, hvalue⟩ := List.ne_and_not_mem_of_not_mem_cons h
    have hstep : step ⟨.tag (some quote) collected, names, tokens⟩ c =
        ⟨.tag (some quote) (c :: collected), names, tokens⟩ := by
      simp [step, stepTag, Ne.symm hc]
    rw [List.foldl_cons, hstep, ih hvalue]
    simp

/-- A bracket inside a value does not end the tag. -/
theorem foldl_attribute (attr : AttributeLayout) (collected : List Char) :
    attr.write.foldl step ⟨.tag none collected, names, tokens⟩ =
      ⟨.tag none (attr.write.reverse ++ collected), names, tokens⟩ := by
  have hopen (before : List Char) :
      step ⟨.tag none before, names, tokens⟩ attr.quote.char =
        ⟨.tag (some attr.quote.char) (attr.quote.char :: before), names, tokens⟩ := by
    cases hq : attr.quote <;> simp [step, stepTag, Quote.char]
  have hclose (before : List Char) :
      step ⟨.tag (some attr.quote.char) before, names, tokens⟩ attr.quote.char =
        ⟨.tag none (attr.quote.char :: before), names, tokens⟩ := by
    simp [step, stepTag]
  have hequals : Unquoted ['='] := by simp [Unquoted]
  have hbefore := (((unquoted_blanks attr.before).append (unquoted_name attr.name)).append
    (unquoted_blanks attr.beforeEquals)).append (hequals.append (unquoted_blanks attr.afterEquals))
  have hwrite : attr.write = attr.before.chars ++ attr.name.chars ++ attr.beforeEquals.chars ++
      (['='] ++ attr.afterEquals.chars) ++
        (attr.quote.char :: (attr.value ++ [attr.quote.char])) := by
    simp [AttributeLayout.write]
  rw [hwrite, List.foldl_append, foldl_unquoted hbefore, List.foldl_cons, hopen,
    List.foldl_append, foldl_quoted _ _ attr.unquoted, List.foldl_cons, hclose]
  simp

theorem foldl_attributes (attributes : List AttributeLayout) (collected : List Char) :
    (attributes.flatMap AttributeLayout.write).foldl step ⟨.tag none collected, names, tokens⟩ =
      ⟨.tag none ((attributes.flatMap AttributeLayout.write).reverse ++ collected), names,
        tokens⟩ := by
  induction attributes generalizing collected with
  | nil => rfl
  | cons attr attributes ih =>
    rw [List.flatMap_cons, List.foldl_append, foldl_attribute, ih]
    simp

/-- The lexer collects all of a start tag before it looks at how it ends. -/
theorem foldl_tag (tag : TagLayout) :
    tag.write.foldl step ⟨.bracket, names, tokens⟩ =
      ⟨.tag none tag.write.reverse, names, tokens⟩ := by
  obtain ⟨c, rest, hname, hc⟩ := tag.name.exists_cons
  have hunquoted : Unquoted (c :: rest) := hname ▸ unquoted_name tag.name
  have ne (d : Char) (hd : isNameStart d = false) : c ≠ d := by
    rintro rfl
    rw [hc] at hd
    cases hd
  have hstep : step ⟨.bracket, names, tokens⟩ c = ⟨.tag none [c], names, tokens⟩ := by
    simp [step, stepTag, ne '!' (by decide), ne '?' (by decide), hunquoted c List.mem_cons_self]
  rw [TagLayout.write, hname, List.append_assoc, List.foldl_append, List.foldl_cons, hstep,
    foldl_unquoted fun d hd => hunquoted d (List.mem_cons_of_mem c hd), List.foldl_append,
    foldl_attributes, foldl_unquoted (unquoted_blanks tag.after)]
  simp

/-- A tag does not begin with a slash, so it is no end tag. -/
theorem write_eq_cons (tag : TagLayout) : ∃ c rest, tag.write = c :: rest ∧ c ≠ '/' := by
  obtain ⟨c, rest, hname, hc⟩ := tag.name.exists_cons
  have hne : c ≠ '/' := tag.name.ne_of_mem (by rw [hname]; exact List.mem_cons_self)
  exact ⟨c, rest ++ (tag.attributes.flatMap AttributeLayout.write ++ tag.after.chars),
    by simp [TagLayout.write, hname], hne⟩

/-- A tag does not end with a slash of its own. -/
theorem write_eq_concat (tag : TagLayout) : ∃ init c, tag.write = init ++ [c] ∧ c ≠ '/' := by
  obtain ⟨name, attributes, after⟩ := tag
  simp only [TagLayout.write]
  rcases List.eq_nil_or_concat after.chars with hafter | ⟨init, c, hafter⟩
  · rcases List.eq_nil_or_concat attributes with rfl | ⟨attributes, attr, rfl⟩
    · obtain ⟨c, rest, hname, -⟩ := name.exists_cons
      rcases List.eq_nil_or_concat name.chars with h | ⟨init, d, h⟩
      · simp [hname] at h
      · exact ⟨init, d, by simp [hafter, h], name.ne_of_mem (by rw [h]; simp)⟩
    · refine ⟨name.chars ++ attributes.flatMap AttributeLayout.write ++ attr.before.chars ++
        attr.name.chars ++ attr.beforeEquals.chars ++ ['='] ++ attr.afterEquals.chars ++
        [attr.quote.char] ++ attr.value, attr.quote.char, ?_, ?_⟩
      · simp [hafter, AttributeLayout.write]
      · cases attr.quote <;> decide
  · exact ⟨name.chars ++ attributes.flatMap AttributeLayout.write ++ init, c, by simp [hafter],
      after.ne_of_mem (by rw [hafter]; simp)⟩

/-- A start tag opens an element. -/
theorem foldl_start (tag : TagLayout) :
    (tag.write.foldl step ⟨.bracket, names, tokens⟩).step '>' =
      ⟨.text [], tag.tag.name :: names, .start tag.tag :: tokens⟩ := by
  obtain ⟨c, rest, hfirst, hc⟩ := write_eq_cons tag
  obtain ⟨init, d, hlast, hd⟩ := write_eq_concat tag
  rw [foldl_tag]
  show closeTag _ tag.write.reverse = _
  have hreverse : tag.write.reverse = d :: init.reverse := by simp [hlast]
  unfold closeTag
  split
  · next content h => simp_all
  · split
    · next shorter h => simp_all
    · simp [emit, TagLayout.tag]

/-- A tag that ends in a slash opens an element and closes it. -/
theorem foldl_selfClosed (tag : TagLayout) :
    ((tag.write.foldl step ⟨.bracket, names, tokens⟩).step '/').step '>' =
      ⟨.text [], names, .finish tag.tag.name :: .start tag.tag :: tokens⟩ := by
  obtain ⟨c, rest, hfirst, hc⟩ := write_eq_cons tag
  have hslash : step ⟨.tag none tag.write.reverse, names, tokens⟩ '/' =
      ⟨.tag none ('/' :: tag.write.reverse), names, tokens⟩ := by
    simp [step, stepTag]
  rw [foldl_tag, hslash]
  show closeTag _ ('/' :: tag.write.reverse) = _
  unfold closeTag
  split
  · next content h => simp_all
  · simp [emit, TagLayout.tag]

theorem endName_name (name : Name) : endName name.chars = name.chars := by
  unfold endName
  split
  · rfl
  · obtain ⟨c, rest, hname, -⟩ := name.exists_cons
    rcases List.eq_nil_or_concat name.chars with h | ⟨init, d, h⟩
    · simp [hname] at h
    · have hd : Text.isBlank d = false := name.not_isBlank_of_mem (by rw [h]; simp)
      simp [Text.trimEnd, h, hd]

/-- The lexer collects all of an end tag before it looks at which element it closes. -/
theorem foldl_endTag (name : Name) :
    name.chars.foldl step (step ⟨.bracket, names, tokens⟩ '/') =
      ⟨.tag none (name.chars.reverse ++ ['/']), names, tokens⟩ := by
  have hslash : step ⟨.bracket, names, tokens⟩ '/' = ⟨.tag none ['/'], names, tokens⟩ := by
    simp [step, stepTag]
  rw [hslash, foldl_unquoted (unquoted_name name)]

/-- An end tag closes the element whose name it repeats. -/
theorem foldl_finish (name : Name) :
    (name.chars.foldl step (step ⟨.bracket, name.chars :: names, tokens⟩ '/')).step '>' =
      ⟨.text [], names, .finish name.chars :: tokens⟩ := by
  rw [foldl_endTag]
  show closeTag _ (name.chars.reverse ++ ['/']) = _
  unfold closeTag
  have hreverse : (name.chars.reverse ++ ['/']).reverse = '/' :: name.chars := by simp
  rw [hreverse]
  simp [endName_name, closeElement, emit]

end Lexer

/-- The name of a tag ends at the first blank. -/
theorem TagLayout.name_tag (tag : TagLayout) : tag.tag.name = tag.name.chars := by
  have hname : ∀ c ∈ tag.name.chars, (!Text.isBlank c) = true := fun c hc => by
    rw [tag.name.not_isBlank_of_mem hc]
    rfl
  have hrest : (tag.attributes.flatMap AttributeLayout.write ++ tag.after.chars).takeWhile
      (fun c => !Text.isBlank c) = [] := by
    have stop (blanks : Blanks) (rest : List Char) (h : blanks.chars ≠ []) :
        (blanks.chars ++ rest).takeWhile (fun c => !Text.isBlank c) = [] := by
      obtain ⟨c, chars, hc⟩ := List.exists_cons_of_ne_nil h
      have hblank : Text.isBlank c = true :=
        blanks.isBlank_of_mem (by rw [hc]; exact List.mem_cons_self)
      rw [hc, List.cons_append, List.takeWhile_cons, hblank]
      rfl
    cases tag.attributes with
    | nil =>
      by_cases hafter : tag.after.chars = []
      · simp [hafter]
      · simpa using stop tag.after [] hafter
    | cons attr attributes =>
      rw [List.flatMap_cons, AttributeLayout.write]
      simp only [List.append_assoc]
      exact stop attr.before _ attr.separated
  rw [Tag.name, TagLayout.tag, TagLayout.write, List.append_assoc,
    List.takeWhile_append_of_pos hname, hrest, List.append_nil]

/-! ### Nodes -/

namespace Node

variable {names : List (List Char)} {tokens : List Token}

@[simp] theorem tokensAll_nil : tokensAll [] = [] := by simp [tokensAll]

@[simp] theorem tokensAll_cons (node : Node) (nodes : List Node) :
    tokensAll (node :: nodes) = node.tokens ++ tokensAll nodes := by simp [tokensAll, Node.tokens]

theorem foldl_writeAll (nodes : List Node)
    (h : ∀ node ∈ nodes, ∀ names tokens, node.write.foldl Lexer.step ⟨.text [], names, tokens⟩ =
      ⟨.text [], names, node.tokens.reverse ++ tokens⟩) :
    (writeAll nodes).foldl Lexer.step ⟨.text [], names, tokens⟩ =
      ⟨.text [], names, (tokensAll nodes).reverse ++ tokens⟩ := by
  induction nodes generalizing tokens with
  | nil => rfl
  | cons node nodes ih =>
    rw [writeAll, List.foldl_append, h node List.mem_cons_self,
      ih fun node hnode => h node (List.mem_cons_of_mem _ hnode)]
    simp

/-- After a node the lexer is where it was before, with the tokens of the node. -/
theorem foldl_write (node : Node) : ∀ names tokens,
    node.write.foldl Lexer.step ⟨.text [], names, tokens⟩ =
      ⟨.text [], names, node.tokens.reverse ++ tokens⟩ := by
  induction node using Node.induct with
  | step node ih =>
    intro names tokens
    cases node with
    | selfClosed lead tag =>
      simp only [write, List.foldl_append, List.foldl_cons, List.foldl_nil, Lexer.foldl_gap,
        Lexer.foldl_selfClosed, tag.name_tag]
      simp [Node.tokens, pieces, Piece.tokens, Mark.token]
    | paired lead tag children trail =>
      simp only [write, List.foldl_append, List.foldl_cons, List.foldl_nil, Lexer.foldl_gap,
        Lexer.foldl_start, foldl_writeAll children ih, tag.name_tag, Lexer.foldl_finish]
      simp [Node.tokens, pieces, Piece.tokens, Mark.token, tokensAll]

end Node

theorem Node.exists_write_eq (node : Node) :
    ∃ rest, node.write = node.lead.write ++ '<' :: rest := by
  cases node with
  | selfClosed lead tag => exact ⟨_, by rw [write, List.append_assoc, List.append_assoc]; rfl⟩
  | paired lead tag children trail =>
    exact ⟨_, by
      rw [write]
      simp only [List.append_assoc]
      rfl⟩

/-- A node that begins with markup has no byte order mark in front. -/
theorem dropMark_write (node : Node) (h : node.lead.text.chars = []) :
    dropMark node.write = node.write := by
  obtain ⟨rest, hrest⟩ := node.exists_write_eq
  rw [hrest, Gap.write, h]
  cases node.lead.remarks with
  | nil => rfl
  | cons remark remarks =>
    obtain ⟨remark, raw⟩ := remark
    cases remark <;> rfl

/-- The tokens of a node are found in its text, without a fault. -/
theorem Tokens.ofText_write (node : Node) (h : node.lead.text.chars = []) :
    Tokens.ofText node.write = ⟨node.tokens, none⟩ := by
  rw [Tokens.ofText, dropMark_write node h, node.foldl_write]
  simp [Lexer.finish, Lexer.flush]

end UpdateProtocol.Markup

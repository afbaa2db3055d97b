import UpdateProtocol.Markup.Source
import UpdateProtocol.Proofs.Markup.Lexing

/-!
# What stands before the root

Before its root a document may have a byte order mark, blanks, remarks and document type
declarations.  All that a lexer finds there are blank texts and the declarations
(`Tokens.ofText_prolog`), and a reader passes over both (`Remainder.nextFrom_prolog`).
-/

namespace UpdateProtocol.Markup

/-- A gap with nothing but blanks beside its remarks. -/
structure Filler where
  gap : Gap := {}
  blank : gap.IsBlank

/-- A document type declaration that has only a name. -/
structure Doctype where
  before : Blanks := .space
  name : Name
  after : Blanks := .empty
  separated : before.chars ≠ []

/-- What stands before the root and the filler that leads up to it: perhaps a byte order mark, then
declarations, each after a filler. -/
structure Prolog where
  marked : Bool := false
  declarations : List (Filler × Doctype) := []

/-- The text between the angle brackets. -/
def Doctype.content (doctype : Doctype) : List Char :=
  "!DOCTYPE".toList ++ (doctype.before.chars ++ doctype.name.chars ++ doctype.after.chars)

/-- The text of declarations. -/
def Prolog.writeDeclarations (declarations : List (Filler × Doctype)) : List Char :=
  declarations.flatMap (fun (filler, doctype) =>
    filler.gap.write ++ ['<'] ++ doctype.content ++ ['>'])

/-- The text of a prolog. -/
def Prolog.write (prolog : Prolog) : List Char :=
  (if prolog.marked then ['\ufeff'] else []) ++ writeDeclarations prolog.declarations

/-- The tokens of a prolog. -/
def Prolog.tokens (prolog : Prolog) : List Token :=
  prolog.declarations.flatMap (fun (filler, _) => filler.gap.texts.map .text ++ [.doctype])

/-! ### Lexing -/

namespace Lexer

variable {names : List (List Char)} {tokens : List Token}

theorem foldl_doctypeText {chars : List Char} (h : ∀ c ∈ chars, c ≠ '<' ∧ c ≠ '>')
    (collected : List Char) :
    chars.foldl step ⟨.doctype 0 collected, names, tokens⟩ =
      ⟨.doctype 0 (chars.reverse ++ collected), names, tokens⟩ := by
  induction chars generalizing collected with
  | nil => rfl
  | cons c chars ih =>
    obtain ⟨⟨hopen, hclose⟩, hchars⟩ := List.forall_mem_cons.1 h
    have hstep : step ⟨.doctype 0 collected, names, tokens⟩ c =
        ⟨.doctype 0 (c :: collected), names, tokens⟩ := by
      simp [step, hopen, hclose]
    rw [List.foldl_cons, hstep, ih hchars]
    simp

/-- A declaration with a name leaves its token. -/
theorem foldl_doctype (doctype : Doctype) :
    (doctype.content.foldl step ⟨.bracket, names, tokens⟩).step '>' =
      ⟨.text [], names, .doctype :: tokens⟩ := by
  have hopen (chars : List Char) : ("!DOCTYPE".toList ++ chars).foldl step
      ⟨.bracket, names, tokens⟩ =
        chars.foldl step ⟨.doctype 0 "DOCTYPE".toList.reverse, names, tokens⟩ := by
    simp [step]
  have hchars : ∀ c ∈ doctype.before.chars ++ doctype.name.chars ++ doctype.after.chars,
      c ≠ '<' ∧ c ≠ '>' := by
    simp only [List.forall_mem_append]
    exact ⟨⟨fun _ hc => ⟨doctype.before.ne_of_mem hc, doctype.before.ne_of_mem hc⟩,
      fun _ hc => ⟨doctype.name.ne_of_mem hc, doctype.name.ne_of_mem hc⟩⟩,
      fun _ hc => ⟨doctype.after.ne_of_mem hc, doctype.after.ne_of_mem hc⟩⟩
  have hnamed : (doctype.before.chars ++ doctype.name.chars ++ doctype.after.chars).all
      Text.isBlank = false := by
    obtain ⟨c, rest, hname, -⟩ := doctype.name.exists_cons
    have hc : Text.isBlank c = false :=
      doctype.name.not_isBlank_of_mem (by rw [hname]; exact List.mem_cons_self)
    simp [hname, hc]
  unfold Doctype.content
  rw [hopen, foldl_doctypeText hchars]
  generalize doctype.before.chars ++ doctype.name.chars ++ doctype.after.chars = chars at hnamed
  simp [step, closeDoctype, hnamed, emit]

end Lexer

namespace Prolog

theorem foldl_declarations (declarations : List (Filler × Doctype)) (names : List (List Char))
    (tokens : List Token) :
    (writeDeclarations declarations).foldl Lexer.step ⟨.text [], names, tokens⟩ =
      ⟨.text [], names, (declarations.flatMap
        (fun (filler, _) => filler.gap.texts.map .text ++ [.doctype])).reverse ++ tokens⟩ := by
  unfold writeDeclarations
  induction declarations generalizing tokens with
  | nil => rfl
  | cons declaration declarations ih =>
    simp only [List.flatMap_cons, List.foldl_append, List.foldl_cons, List.foldl_nil,
      Lexer.foldl_gap, Lexer.foldl_doctype, ih]
    simp

end Prolog

/-- Fillers do not begin with a byte order mark. -/
theorem Gap.IsBlank.dropMark_write {gap : Gap} (blank : gap.IsBlank) (rest : List Char) :
    dropMark (gap.write ++ '<' :: rest) = gap.write ++ '<' :: rest := by
  obtain ⟨⟨raw, noMarkup⟩, remarks⟩ := gap
  rw [Gap.write]
  cases raw with
  | nil =>
    cases remarks with
    | nil => rfl
    | cons remark remarks =>
      obtain ⟨remark, raw⟩ := remark
      cases remark <;> rfl
  | cons c raw =>
    have hraw : (c :: raw).all Text.isBlank = true := blank (c :: raw) (by simp [Gap.texts])
    have hmark : c ≠ '\ufeff' := by
      rintro rfl
      rw [List.all_cons] at hraw
      exact absurd (Bool.and_eq_true_iff.1 hraw).1 (by decide)
    simp only [List.cons_append]
    unfold dropMark
    split
    · next h => exact absurd (List.cons.inj h).1 hmark
    · rfl

/-- Only the byte order mark of a prolog is dropped. -/
theorem Prolog.dropMark_write (prolog : Prolog) {gap : Gap} (blank : gap.IsBlank)
    (rest : List Char) :
    dropMark (prolog.write ++ (gap.write ++ '<' :: rest)) =
      writeDeclarations prolog.declarations ++ (gap.write ++ '<' :: rest) := by
  obtain ⟨marked, declarations⟩ := prolog
  cases marked with
  | true => rfl
  | false =>
    cases declarations with
    | nil => exact blank.dropMark_write rest
    | cons declaration declarations =>
      simp only [write, writeDeclarations, List.flatMap_cons, List.append_assoc]
      exact declaration.1.blank.dropMark_write _

/-- The tokens of a prolog stand before those of the root. -/
theorem Tokens.ofText_prolog (prolog : Prolog) {node : Node} (blank : node.lead.IsBlank) :
    Tokens.ofText (prolog.write ++ node.write) = ⟨prolog.tokens ++ node.tokens, none⟩ := by
  obtain ⟨rest, hrest⟩ := node.exists_write_eq
  rw [Tokens.ofText, hrest, prolog.dropMark_write blank, ← hrest, List.foldl_append,
    Prolog.foldl_declarations, node.foldl_write]
  simp [Lexer.finish, Lexer.flush, Prolog.tokens]

/-! ### Reading -/

namespace Remainder

/-- What is read does not depend on tokens that are replaced. -/
theorem nextFrom_tokens (rest : Remainder) (others tokens : List Token) :
    { rest with tokens := others }.nextFrom tokens = rest.nextFrom tokens := by
  induction tokens generalizing rest with
  | nil => rfl
  | cons token tokens ih =>
    cases token with
    | text raw =>
      have hvoid : { rest with tokens := others }.isVoid raw = rest.isVoid raw := rfl
      simp only [nextFrom, hvoid]
      split
      · exact ih { rest with scope := rest.scope.settle }
      · rfl
    | doctype => exact ih { rest with trim := true, scope := rest.scope.settle }
    | _ => rfl

theorem nextFrom_blank {rest : Remainder} (trims : rest.trim = true)
    (settled : rest.scope.settle = rest.scope) {texts : List (List Char)}
    (blank : ∀ raw ∈ texts, raw.all Text.isBlank = true) (tokens : List Token) :
    rest.nextFrom (texts.map .text ++ tokens) = rest.nextFrom tokens := by
  induction texts with
  | nil => rfl
  | cons raw texts ih =>
    obtain ⟨hraw, htexts⟩ := List.forall_mem_cons.1 blank
    have hvoid : rest.isVoid raw = true := Bool.and_eq_true_iff.2 ⟨trims, hraw⟩
    rw [List.map_cons, List.cons_append, nextFrom, if_pos hvoid, settled]
    exact ih htexts

/-- A reader passes over a prolog. -/
theorem nextFrom_prolog {rest : Remainder} (trims : rest.trim = true)
    (settled : rest.scope.settle = rest.scope) (prolog : Prolog) (tokens : List Token) :
    rest.nextFrom (prolog.tokens ++ tokens) = rest.nextFrom tokens := by
  obtain ⟨marked, declarations⟩ := prolog
  rw [Prolog.tokens]
  induction declarations with
  | nil => rfl
  | cons declaration declarations ih =>
    simp only [List.flatMap_cons, List.append_assoc] at ih ⊢
    rw [nextFrom_blank trims settled declaration.1.blank, List.singleton_append, nextFrom, settled,
      ← trims]
    exact ih

end Remainder

theorem Prolog.findSome?_tokens (prolog : Prolog) :
    prolog.tokens.findSome? Tokens.root.tag? = none := by
  simp only [tokens, List.findSome?_eq_none_iff, List.mem_flatMap, List.mem_append, List.mem_map,
    List.mem_singleton]
  rintro token ⟨declaration, -, ⟨raw, -, rfl⟩ | rfl⟩ <;> rfl

theorem Tokens.root_prolog (prolog : Prolog) (tokens : List Token) (fault : Option SyntaxError) :
    Tokens.root ⟨prolog.tokens ++ tokens, fault⟩ = Tokens.root ⟨tokens, fault⟩ := by
  rw [Tokens.root, Tokens.root, List.findSome?_append, prolog.findSome?_tokens, Option.none_or]

/-- The start of an element after a prolog, with nothing that follows its first tag. -/
def Prolog.opening (prolog : Prolog) (filler : Filler) (tag : TagLayout) (single : Bool) :
    List Char :=
  prolog.write ++ (filler.gap.write ++ '<' ::
    (tag.write ++ if single then ['/', '>'] else ['>']))

/-- After a prolog the root is found as soon as its first tag is complete. -/
theorem Tokens.root_opening (prolog : Prolog) (filler : Filler) (tag : TagLayout) (single : Bool) :
    (Tokens.ofText (prolog.opening filler tag single)).root = .ok (some tag.tag) := by
  have htexts : (filler.gap.texts.map Token.text).findSome? root.tag? = none := by
    simp [List.findSome?_eq_none_iff, root.tag?]
  have hfind (more : List Token) : (prolog.tokens ++ (filler.gap.texts.map Token.text ++
      Token.start tag.tag :: more)).findSome? root.tag? = some tag.tag := by
    rw [List.findSome?_append, prolog.findSome?_tokens, Option.none_or, List.findSome?_append,
      htexts, Option.none_or]
    rfl
  have htokens : ∃ more, (Tokens.ofText (prolog.opening filler tag single)).tokens =
      prolog.tokens ++ (filler.gap.texts.map .text ++ .start tag.tag :: more) := by
    rw [Prolog.opening, Tokens.ofText, prolog.dropMark_write filler.blank, List.foldl_append,
      Prolog.foldl_declarations, List.foldl_append, List.foldl_cons, Lexer.foldl_gap,
      List.foldl_append]
    cases single with
    | true =>
      refine ⟨[.finish tag.tag.name], ?_⟩
      simp only [if_true, List.foldl_cons, List.foldl_nil, Lexer.foldl_selfClosed]
      simp [Lexer.finish, Lexer.flush, Prolog.tokens]
    | false =>
      refine ⟨[], ?_⟩
      simp only [Bool.false_eq_true, if_false, List.foldl_cons, List.foldl_nil, Lexer.foldl_start]
      simp [Lexer.finish, Lexer.flush, Prolog.tokens]
  obtain ⟨more, htokens⟩ := htokens
  rw [root, htokens, hfind]

theorem Tokens.next_prolog (prolog : Prolog) (tokens : List Token) (fault : Option SyntaxError) :
    (Tokens.source ⟨prolog.tokens ++ tokens, fault⟩).next =
      (Tokens.source ⟨tokens, fault⟩).next := by
  have hnext : Remainder.next { tokens := prolog.tokens ++ tokens, fault } =
      Remainder.next { tokens, fault } := by
    rw [Remainder.next, Remainder.nextFrom_prolog rfl rfl prolog]
    exact Remainder.nextFrom_tokens { tokens, fault } _ _
  simp only [Tokens.source, Source.next, hnext]

end UpdateProtocol.Markup

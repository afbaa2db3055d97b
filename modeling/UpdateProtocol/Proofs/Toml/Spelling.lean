import Mathlib.Data.List.Forall2
import Mathlib.Data.List.TakeDrop
import Mathlib.Data.List.TakeWhile
import Mathlib.Tactic.IntervalCases
import UpdateProtocol.Toml.Document

/-!
# Spellings of strings and keys

What may stand between the parts of a document, and every way of writing a string of one line and a
key.  Whatever the spelling, the text and the key are read (`lineString_of_quoted`,
`key_of_spells`).
-/

namespace UpdateProtocol.Toml

/-! ### Blanks, comments and line ends -/

/-- Spaces and tabs. -/
def IsBlanks (raw : List Char) : Prop :=
  ∀ c ∈ raw, isBlank c = true

/-- A comment, or nothing. -/
inductive Remark : List Char → Prop
  | nothing : Remark []
  | comment {text : List Char} (h : ∀ c ∈ text, isPlain c = true) : Remark ('#' :: text)

/-- A line feed, which a carriage return may precede. -/
inductive LineEnd : List Char → Prop
  | feed : LineEnd ['\n']
  | both : LineEnd ['\r', '\n']

/-- Blanks and line ends, with a comment before any line end. -/
inductive Filler : List Char → Prop
  | blanks {raw : List Char} (h : IsBlanks raw) : Filler raw
  | line {blanks remark lineEnd more : List Char} (hblanks : IsBlanks blanks)
      (hremark : Remark remark) (hend : LineEnd lineEnd) (hmore : Filler more) :
      Filler (blanks ++ (remark ++ (lineEnd ++ more)))

/-- A character that ends a filler. -/
def isSolid (c : Char) : Bool :=
  !isBlank c && c != '#' && c != '\n' && c != '\r'

theorem isBlanks_nil : IsBlanks [] := by
  simp [IsBlanks]

theorem dropBlanks_append {raw : List Char} (h : IsBlanks raw) (rest : Rest) :
    dropBlanks (raw ++ rest) = dropBlanks rest :=
  List.dropWhile_append_of_pos h

theorem dropBlanks_cons {c : Char} (h : isBlank c = false) (rest : Rest) :
    dropBlanks (c :: rest) = c :: rest :=
  List.dropWhile_cons_of_neg (by simp [h])

/-- A comment ends where the line ends. -/
theorem dropComment_append {text lineEnd : List Char} (h : ∀ c ∈ text, isPlain c = true)
    (hend : LineEnd lineEnd) (rest : Rest) :
    dropComment (text ++ (lineEnd ++ rest)) = lineEnd ++ rest := by
  rw [dropComment, List.dropWhile_append_of_pos h]
  cases hend <;> rfl

theorem dropComment_eq_nil {text : List Char} (h : ∀ c ∈ text, isPlain c = true) :
    dropComment text = [] :=
  List.dropWhile_eq_nil_iff.2 h

theorem endLine?_append {blanks remark lineEnd : List Char} (hblanks : IsBlanks blanks)
    (hremark : Remark remark) (hend : LineEnd lineEnd) (rest : Rest) :
    endLine? (blanks ++ (remark ++ (lineEnd ++ rest))) = some rest := by
  rw [endLine?, dropBlanks_append hblanks]
  cases hremark with
  | nothing => cases hend <;> rfl
  | comment htext =>
    rw [List.cons_append, dropBlanks_cons rfl]
    simp only [dropComment_append htext hend]
    cases hend <;> rfl

/-- The last line may lack its end. -/
theorem endLine?_eq_nil {blanks remark : List Char} (hblanks : IsBlanks blanks)
    (hremark : Remark remark) : endLine? (blanks ++ remark) = some [] := by
  rw [endLine?, dropBlanks_append hblanks]
  cases hremark with
  | nothing => rfl
  | comment htext =>
    rw [dropBlanks_cons rfl]
    simp only [dropComment_eq_nil htext]

theorem dropFiller_solid {c : Char} (h : isSolid c = true) (fuel : Nat) (rest : Rest) :
    dropFiller (fuel + 1) (c :: rest) = some (c :: rest) := by
  simp only [isSolid, Bool.and_eq_true, Bool.not_eq_true', bne_iff_ne] at h
  obtain ⟨⟨⟨hblank, hsharp⟩, hfeed⟩, hreturn⟩ := h
  rw [dropFiller, dropBlanks_cons hblank]
  split <;> simp_all

theorem dropFiller_blanks {blanks : List Char} (h : IsBlanks blanks) (fuel : Nat) (rest : Rest) :
    dropFiller (fuel + 1) (blanks ++ rest) = dropFiller (fuel + 1) rest := by
  rw [dropFiller, dropFiller, dropBlanks_append h]

theorem dropFiller_line {blanks remark lineEnd : List Char} (hblanks : IsBlanks blanks)
    (hremark : Remark remark) (hend : LineEnd lineEnd) (fuel : Nat) (rest : Rest) :
    dropFiller (fuel + 1) (blanks ++ (remark ++ (lineEnd ++ rest))) = dropFiller fuel rest := by
  rw [dropFiller_blanks hblanks, dropFiller]
  cases hremark with
  | nothing => cases hend <;> rfl
  | comment htext =>
    rw [List.cons_append, dropBlanks_cons rfl]
    simp only [dropComment_append htext hend]
    cases hend <;> rfl

theorem dropFiller_of_filler {raw : List Char} (h : Filler raw) {c : Char} (hc : isSolid c = true)
    {rest : Rest} {fuel : Nat} (hfuel : (raw ++ c :: rest).length < fuel) :
    dropFiller fuel (raw ++ c :: rest) = some (c :: rest) := by
  obtain ⟨fuel, rfl⟩ : ∃ before, fuel = before + 1 := ⟨fuel - 1, by omega⟩
  induction h generalizing fuel with
  | blanks hraw =>
    rw [dropFiller_blanks hraw, dropFiller_solid hc]
  | line hblanks hremark hend hmore ih =>
    simp only [List.append_assoc] at hfuel ⊢
    obtain ⟨fuel, rfl⟩ : ∃ before, fuel = before + 1 := ⟨fuel - 1, by grind⟩
    rw [dropFiller_line hblanks hremark hend]
    refine ih fuel ?_
    simp only [List.length_append] at hfuel ⊢
    cases hend <;> simp at hfuel ⊢ <;> omega

/-! ### Strings of one line -/

/-- A hexadecimal digit, in either case, and its value. -/
def IsHexDigit (c : Char) (n : Nat) : Prop :=
  n < 16 ∧ (c = n.digitChar ∨ c = n.digitChar.toUpper)

/-- Hexadecimal digits that make the number of a character. -/
def Numbers (digits : List Char) (c : Char) : Prop :=
  ∃ values, List.Forall₂ IsHexDigit digits values ∧ ofDigits 16 values = c.toNat

/-- The letters that stand for a character after a backslash. -/
def letters : List (Char × Char) :=
  [('b', '\x08'), ('t', '\t'), ('n', '\n'), ('f', '\x0c'), ('r', '\r'), ('"', '"'), ('\\', '\\')]

/-- The ways of writing a character between double quotes: as it is, if it is plain, by a letter, or
by its number. -/
inductive Spelling : Char → List Char → Prop
  | plain {c : Char} (h : isPlain c = true) (hquote : c ≠ '"') (hslash : c ≠ '\\') : Spelling c [c]
  | letter {c letter : Char} (h : (letter, c) ∈ letters) : Spelling c ['\\', letter]
  | short {c : Char} {digits : List Char} (hlength : digits.length = 4) (h : Numbers digits c) :
      Spelling c ('\\' :: 'u' :: digits)
  | long {c : Char} {digits : List Char} (hlength : digits.length = 8) (h : Numbers digits c) :
      Spelling c ('\\' :: 'U' :: digits)

/-- The ways of writing a text between double quotes. -/
inductive Spells : List Char → List Char → Prop
  | nil : Spells [] []
  | cons {c : Char} {chars raw more : List Char} (h : Spelling c raw) (hmore : Spells chars more) :
      Spells (c :: chars) (raw ++ more)

/-- The ways of writing a text on one line, with its quotes. -/
inductive Quoted : String → List Char → Prop
  | basic {text : String} {raw : List Char} (h : Spells text.toList raw) :
      Quoted text ('"' :: (raw ++ ['"']))
  | literal {text : String} (h : ∀ c ∈ text.toList, isPlain c = true ∧ c ≠ '\'') :
      Quoted text ('\'' :: (text.toList ++ ['\'']))

theorem hexDigit?_of_isHexDigit {c : Char} {n : Nat} (h : IsHexDigit c n) :
    hexDigit? c = some n := by
  obtain ⟨hn, rfl | rfl⟩ := h
  all_goals interval_cases n <;> rfl

theorem foldlM_hexDigit? {digits : List Char} {values : List Nat}
    (h : List.Forall₂ IsHexDigit digits values) (start : Nat) :
    digits.foldlM (fun n c => (hexDigit? c).map (n * 16 + ·)) start =
      some (values.foldl (fun n d => n * 16 + d) start) := by
  induction h generalizing start with
  | nil => rfl
  | cons hdigit _ ih =>
    rw [List.foldlM_cons, hexDigit?_of_isHexDigit hdigit, List.foldl_cons]
    exact ih _

theorem numberedChar?_of_numbers {digits : List Char} {c : Char} (h : Numbers digits c) :
    numberedChar? digits = some c := by
  obtain ⟨values, hvalues, hnumber⟩ := h
  have hvalid : c.toNat.isValidChar := c.valid
  have hc := Char.ofNat_toNat c
  rw [Char.ofNat, dif_pos hvalid] at hc
  rw [numberedChar?, foldlM_hexDigit? hvalues 0, ← ofDigits, hnumber, Option.bind_eq_bind,
    Option.bind_some, dif_pos hvalid, hc]

/-- Plain characters stand for themselves. -/
theorem spells_self {chars : List Char}
    (h : ∀ c ∈ chars, isPlain c = true ∧ c ≠ '"' ∧ c ≠ '\\') : Spells chars chars := by
  induction chars with
  | nil => exact .nil
  | cons c chars ih =>
    obtain ⟨⟨hplain, hquote, hslash⟩, hchars⟩ := List.forall_mem_cons.1 h
    exact .cons (.plain hplain hquote hslash) (ih hchars)

/-- Every character can be written, by its number if in no other way. -/
theorem exists_spelling (c : Char) : ∃ raw, Spelling c raw := by
  have hlt : c.toNat < 16 * 16 * 16 * 16 * 16 * 16 := by
    have hvalid : c.toNat.isValidChar := c.valid
    rcases hvalid with h | ⟨_, h⟩ <;> omega
  let values := [0, 0, c.toNat / 1048576, c.toNat / 65536 % 16, c.toNat / 4096 % 16,
    c.toNat / 256 % 16, c.toNat / 16 % 16, c.toNat % 16]
  have hvalues : ∀ n ∈ values, n < 16 := by
    simp only [values, List.forall_mem_cons]
    refine ⟨?_, ?_, ?_, ?_, ?_, ?_, ?_, ?_, by simp⟩ <;> omega
  refine ⟨_, .long (by simp [values]) ⟨values, List.forall₂_map_left_iff.2
    (List.forall₂_same.2 fun n hn => ⟨hvalues n hn, .inl rfl⟩), ?_⟩⟩
  simp only [ofDigits, values, List.foldl_cons, List.foldl_nil]
  omega

theorem exists_spells (chars : List Char) : ∃ raw, Spells chars raw := by
  induction chars with
  | nil => exact ⟨[], .nil⟩
  | cons c chars ih =>
    obtain ⟨raw, hraw⟩ := exists_spelling c
    obtain ⟨more, hmore⟩ := ih
    exact ⟨raw ++ more, .cons hraw hmore⟩

theorem exists_quoted (text : String) : ∃ raw, Quoted text raw := by
  obtain ⟨raw, hraw⟩ := exists_spells text.toList
  exact ⟨_, .basic hraw⟩

/-- However a character is written, it is read. -/
theorem basicString_spelling {c : Char} {raw : List Char} (h : Spelling c raw)
    (collected : List Char) (rest : Rest) :
    basicString collected (raw ++ rest) = basicString (c :: collected) rest := by
  cases h with
  | plain h hquote hslash =>
    rw [List.singleton_append, basicString.eq_def]
    split <;> simp_all
  | letter h =>
    simp only [letters, List.mem_cons, Prod.mk.injEq, List.not_mem_nil, or_false] at h
    rcases h with ⟨rfl, rfl⟩ | ⟨rfl, rfl⟩ | ⟨rfl, rfl⟩ | ⟨rfl, rfl⟩ | ⟨rfl, rfl⟩ | ⟨rfl, rfl⟩ |
      ⟨rfl, rfl⟩
    all_goals rfl
  | @short digits hlength h =>
    match digits, hlength with
    | [_, _, _, _], _ => simp [basicString, numberedChar?_of_numbers h]
  | @long digits hlength h =>
    match digits, hlength with
    | [_, _, _, _, _, _, _, _], _ => simp [basicString, numberedChar?_of_numbers h]

theorem basicString_of_spells {chars raw : List Char} (h : Spells chars raw)
    (collected : List Char) (rest : Rest) :
    basicString collected (raw ++ '"' :: rest) =
      some (String.ofList (collected.reverse ++ chars), rest) := by
  induction h generalizing collected with
  | nil => simp [basicString]
  | cons h _ ih =>
    rw [List.append_assoc, basicString_spelling h, ih]
    simp

theorem literalString_append {chars : List Char} (h : ∀ c ∈ chars, isPlain c = true ∧ c ≠ '\'')
    (collected : List Char) (rest : Rest) :
    literalString collected (chars ++ '\'' :: rest) =
      some (String.ofList (collected.reverse ++ chars), rest) := by
  induction chars generalizing collected with
  | nil => simp [literalString]
  | cons c chars ih =>
    obtain ⟨⟨hplain, hquote⟩, hchars⟩ := List.forall_mem_cons.1 h
    rw [List.cons_append, literalString.eq_2 _ _ _ hquote, if_pos hplain, ih hchars]
    simp

/-- However a text is written on one line, it is read. -/
theorem lineString_of_quoted {text : String} {raw : List Char} (h : Quoted text raw) (rest : Rest) :
    lineString (raw ++ rest) = some (text, rest) := by
  cases h with
  | basic h =>
    rw [List.cons_append, List.append_assoc]
    simp [lineString, basicString_of_spells h]
  | literal h =>
    rw [List.cons_append, List.append_assoc]
    simp [lineString, literalString_append h]

/-! ### Strings -/

/-- A text before which a string ends with its quote. -/
def EndsString (rest : Rest) : Prop :=
  rest.head? ≠ some '"' ∧ rest.head? ≠ some '\''

theorem endsString_nil : EndsString [] := by
  simp [EndsString]

theorem endsString_cons {c : Char} (hdouble : c ≠ '"') (hsingle : c ≠ '\'') (rest : Rest) :
    EndsString (c :: rest) := by
  simp [EndsString, hdouble, hsingle]

theorem IsBlanks.endsString {raw : List Char} (h : IsBlanks raw) {rest : Rest}
    (hrest : EndsString rest) : EndsString (raw ++ rest) := by
  cases raw with
  | nil => exact hrest
  | cons c raw =>
    have hc : isBlank c = true := h c (by simp)
    refine endsString_cons ?_ ?_ _ <;> rintro rfl <;> cases hc

theorem LineEnd.endsString {raw : List Char} (h : LineEnd raw) (rest : Rest) :
    EndsString (raw ++ rest) := by
  cases h <;> exact endsString_cons (by decide) (by decide) _

theorem Remark.endsString {raw : List Char} (h : Remark raw) {rest : Rest}
    (hrest : EndsString rest) : EndsString (raw ++ rest) := by
  cases h with
  | nothing => exact hrest
  | comment h => exact endsString_cons (by decide) (by decide) _

theorem Filler.endsString {raw : List Char} (h : Filler raw) {rest : Rest}
    (hrest : EndsString rest) : EndsString (raw ++ rest) := by
  cases h with
  | blanks h => exact h.endsString hrest
  | line hblanks hremark hend hmore =>
    simp only [List.append_assoc]
    exact hblanks.endsString (hremark.endsString (hend.endsString _))

theorem Spells.head_ne_quote {chars raw : List Char} (h : Spells chars raw) :
    raw.head? ≠ some '"' := by
  cases h with
  | nil => simp
  | cons h hmore => cases h <;> simp_all

/-- A string of one line is not taken for one of several lines. -/
theorem string_of_quoted {text : String} {raw : List Char} (h : Quoted text raw) {rest : Rest}
    (hrest : EndsString rest) : string (raw ++ rest) = some (text, rest) := by
  rw [← lineString_of_quoted h rest]
  cases h with
  | @basic raw h =>
    rw [List.cons_append, List.append_assoc, List.singleton_append]
    unfold string
    split
    · next heq =>
      -- Two quotes can only stand there if the text is empty and a quote follows it.
      cases raw with
      | nil => exact absurd (by simp_all) hrest.1
      | cons c raw => exact absurd (by simp_all) h.head_ne_quote
    · next heq => simp at heq
    · rfl
  | literal h =>
    rw [List.cons_append, List.append_assoc, List.singleton_append]
    unfold string
    split
    · next heq => simp at heq
    · next heq =>
      cases hchars : text.toList with
      | nil => exact absurd (by simp_all) hrest.2
      | cons c chars => exact absurd (by simp_all) (h c (by simp [hchars])).2
    · rfl

/-! ### Keys -/

/-- The ways of writing a key: as it is, if its characters allow it, or between quotes. -/
inductive KeySpells : String → List Char → Prop
  | bare {key : String} (hne : key.toList ≠ []) (h : ∀ c ∈ key.toList, isKeyChar c = true) :
      KeySpells key key.toList
  | quoted {key : String} {raw : List Char} (h : Quoted key raw) : KeySpells key raw

theorem exists_keySpells (key : String) : ∃ raw, KeySpells key raw := by
  obtain ⟨raw, hraw⟩ := exists_quoted key
  exact ⟨raw, .quoted hraw⟩

/-- A character that a key may begin with. -/
def isKeyStart (c : Char) : Bool :=
  isKeyChar c || c == '"' || c == '\''

theorem ne_of_isKeyStart {c d : Char} (h : isKeyStart c = true) (hd : isKeyStart d = false) :
    c ≠ d := by
  rintro rfl
  rw [h] at hd
  cases hd

theorem isBlank_of_isKeyStart {c : Char} (h : isKeyStart c = true) : isBlank c = false := by
  have hspace : c ≠ ' ' := ne_of_isKeyStart h rfl
  have htab : c ≠ '\t' := ne_of_isKeyStart h rfl
  simp [isBlank, hspace, htab]

theorem KeySpells.exists_cons {key : String} {raw : List Char} (h : KeySpells key raw) :
    ∃ c more, raw = c :: more ∧ isKeyStart c = true := by
  cases h with
  | bare hne h =>
    obtain ⟨c, chars, hchars⟩ := List.exists_cons_of_ne_nil hne
    exact ⟨c, chars, hchars, by simp [isKeyStart, h c (by simp [hchars])]⟩
  | quoted h => cases h <;> exact ⟨_, _, rfl, rfl⟩

theorem KeySpells.dropBlanks_append {key : String} {raw : List Char} (h : KeySpells key raw)
    (rest : Rest) : dropBlanks (raw ++ rest) = raw ++ rest := by
  obtain ⟨c, more, rfl, hc⟩ := h.exists_cons
  exact dropBlanks_cons (isBlank_of_isKeyStart hc) _

theorem span_append {chars : List Char} (h : ∀ c ∈ chars, isKeyChar c = true) {rest : Rest}
    (hrest : ∀ c ∈ rest.head?, isKeyChar c = false) :
    (chars ++ rest).span isKeyChar = (chars, rest) := by
  rw [List.span_eq_takeWhile_dropWhile, List.takeWhile_append_of_pos h,
    List.dropWhile_append_of_pos h]
  cases rest with
  | nil => simp
  | cons c rest => simp [hrest c (by simp)]

theorem isKeyChar_of_isBlank {c : Char} (h : isBlank c = true) : isKeyChar c = false := by
  simp only [isBlank, Bool.or_eq_true, beq_iff_eq] at h
  rcases h with rfl | rfl <;> rfl

theorem keyPart_of_spells {key : String} {raw : List Char} (h : KeySpells key raw) {rest : Rest}
    (hrest : ∀ c ∈ rest.head?, isKeyChar c = false) : keyPart (raw ++ rest) = some (key, rest) := by
  cases h with
  | bare hne h =>
    obtain ⟨c, chars, hchars⟩ := List.exists_cons_of_ne_nil hne
    have hc : isKeyChar c = true := h c (by simp [hchars])
    unfold keyPart
    split
    · next heq =>
      rw [hchars, List.cons_append, List.cons.injEq] at heq
      exact absurd (heq.1 ▸ hc) (by decide)
    · next heq =>
      rw [hchars, List.cons_append, List.cons.injEq] at heq
      exact absurd (heq.1 ▸ hc) (by decide)
    · rw [span_append h hrest, hchars]
      simp only [← hchars, String.ofList_toList]
  | quoted h =>
    rw [← lineString_of_quoted h rest]
    cases h <;> rfl

/-- However a key is written, it is read. -/
theorem key_of_spells {name : String} {raw before after : List Char} (h : KeySpells name raw)
    (hbefore : IsBlanks before) (hafter : IsBlanks after) {c : Char} (hc : c = '=' ∨ c = ']')
    (rest : Rest) :
    key (before ++ (raw ++ (after ++ c :: rest))) = some (([], name), c :: rest) := by
  have hhead : ∀ d ∈ (after ++ c :: rest).head?, isKeyChar d = false := by
    cases after with
    | nil => rcases hc with rfl | rfl <;> simp [isKeyChar]
    | cons blank after =>
      rintro d ⟨⟩
      exact isKeyChar_of_isBlank (hafter blank (by simp))
  have hblank : isBlank c = false := by
    rcases hc with rfl | rfl <;> rfl
  have hparts : keyParts maxKeyParts [] (before ++ (raw ++ (after ++ c :: rest))) =
      some ([name], c :: rest) := by
    rw [maxKeyParts, keyParts, dropBlanks_append hbefore, h.dropBlanks_append,
      keyPart_of_spells h hhead]
    simp only [Option.bind_eq_bind, Option.bind_some, dropBlanks_append hafter,
      dropBlanks_cons hblank]
    rcases hc with rfl | rfl <;> rfl
  rw [key, hparts]
  rfl

end UpdateProtocol.Toml

import UpdateProtocol.Markup.Reference

/-!
# References resolve to what they name

A character can be spelled in several ways: as it is, by its number in base ten or sixteen, by one
of five names.  Resolving gives back the characters, whichever spelling each of them has
(`resolve_of_spells`).  The writer's choice is one of these spellings (`spells_escape`).
-/

namespace UpdateProtocol.Markup

/-! ### Spellings -/

/-- Digits of a number in a base up to sixteen, with any leading zeros. -/
inductive Numeral (base : Nat) : List Char → Nat → Prop
  | single {c : Char} {d : Nat} (digit : digit? base c = some d) : Numeral base [c] d
  | snoc {digits : List Char} {n : Nat} {c : Char} {d : Nat} (init : Numeral base digits n)
      (digit : digit? base c = some d) : Numeral base (digits ++ [c]) (n * base + d)

/-- The five names with the characters they stand for. -/
def namedReferences : List (String × Char) :=
  [("lt", '<'), ("gt", '>'), ("amp", '&'), ("apos", '\''), ("quot", '"')]

/-- The ways to write a character. -/
inductive Spelling (c : Char) : List Char → Prop
  | raw (h : c ≠ '&') : Spelling c [c]
  | decimal {digits : List Char} (numeral : Numeral 10 digits c.toNat) (h : c ≠ '\x00') :
      Spelling c ("&#".toList ++ digits ++ [';'])
  | hexadecimal {digits : List Char} (numeral : Numeral 16 digits c.toNat) (h : c ≠ '\x00') :
      Spelling c ("&#x".toList ++ digits ++ [';'])
  | named {name : String} (h : (name, c) ∈ namedReferences) :
      Spelling c (['&'] ++ name.toList ++ [';'])

/-- The ways to write a text, each character on its own. -/
inductive Spells : List Char → List Char → Prop
  | nil : Spells [] []
  | cons {c : Char} {piece text raw : List Char} (first : Spelling c piece)
      (rest : Spells text raw) : Spells (c :: text) (piece ++ raw)

/-- Text without ampersands stands for itself. -/
theorem spells_self {raw : List Char} (h : '&' ∉ raw) : Spells raw raw := by
  induction raw with
  | nil => exact .nil
  | cons c raw ih =>
    obtain ⟨hc, hraw⟩ := List.ne_and_not_mem_of_not_mem_cons h
    exact .cons (.raw (Ne.symm hc)) (ih hraw)

theorem spelling_escapeChar (c : Char) : Spelling c (escapeChar c).toList := by
  unfold escapeChar
  split
  · exact .named (show ("amp", '&') ∈ namedReferences by decide)
  · exact .named (show ("lt", '<') ∈ namedReferences by decide)
  · exact .named (show ("gt", '>') ∈ namedReferences by decide)
  · exact .named (show ("quot", '"') ∈ namedReferences by decide)
  · next hamp _ _ _ => simpa using Spelling.raw hamp

theorem spells_escape (text : List Char) :
    Spells text (text.flatMap (fun c => (escapeChar c).toList)) := by
  induction text with
  | nil => exact .nil
  | cons c text ih => exact .cons (spelling_escapeChar c) ih

/-- No escaped text ends a value between double quotes. -/
theorem quote_not_mem_escape (text : List Char) :
    '"' ∉ text.flatMap (fun c => (escapeChar c).toList) := by
  intro h
  obtain ⟨c, -, hc⟩ := List.mem_flatMap.1 h
  unfold escapeChar at hc
  split at hc
  · simp at hc
  · simp at hc
  · simp at hc
  · simp at hc
  · next hquot =>
    have hchar : '"' = c := by simpa using hc
    exact hquot hchar.symm

/-! ### Numbers -/

theorem range_of_digit? {base : Nat} {c : Char} {n : Nat} (h : digit? base c = some n) :
    ('0' ≤ c ∧ c ≤ '9') ∨ ('a' ≤ c ∧ c ≤ 'f') ∨ ('A' ≤ c ∧ c ≤ 'F') := by
  simp only [digit?, Option.filter_eq_some_iff, Bool.and_eq_true, decide_eq_true_eq] at h
  obtain ⟨h, -⟩ := h
  split at h
  · exact .inl ‹_›
  split at h
  · exact .inr (.inl ‹_›)
  split at h
  · exact .inr (.inr ‹_›)
  · cases h

/-- No digit is a character outside the three ranges. -/
theorem ne_of_digit? {base : Nat} {c d : Char} {n : Nat} (h : digit? base c = some n)
    (hd : ¬ (('0' ≤ d ∧ d ≤ '9') ∨ ('a' ≤ d ∧ d ≤ 'f') ∨ ('A' ≤ d ∧ d ≤ 'F')) := by decide) :
    c ≠ d := by
  rintro rfl
  exact hd (range_of_digit? h)

namespace Numeral

variable {base : Nat} {digits : List Char} {n : Nat}

theorem digit_of_mem (h : Numeral base digits n) {c : Char} (hc : c ∈ digits) :
    ∃ d, digit? base c = some d := by
  induction h with
  | single digit => exact ⟨_, List.mem_singleton.1 hc ▸ digit⟩
  | snoc _ digit ih =>
    rcases List.mem_append.1 hc with hc | hc
    · exact ih hc
    · exact ⟨_, List.mem_singleton.1 hc ▸ digit⟩

theorem ne_nil (h : Numeral base digits n) : digits ≠ [] := by
  cases h <;> simp

/-- Adding digit by digit gives the number, if each step that stays below the limit does. -/
theorem foldlM_eq {f : Nat → Char → Except NumberError Nat} {limit : Nat}
    (hf : ∀ {m c d}, digit? base c = some d → m * base + d < limit → f m c = .ok (m * base + d))
    (h : Numeral base digits n) (hbase : 0 < base) (hn : n < limit) :
    digits.foldlM f 0 = .ok n := by
  induction h with
  | @single c d digit =>
    have hfirst := hf digit (show 0 * base + d < limit by omega)
    rw [List.foldlM_cons, hfirst, Nat.zero_mul, Nat.zero_add]
    rfl
  | @snoc digits m c d init digit ih =>
    -- a prefix stands for a smaller number, so no step reaches the limit
    have hm : m ≤ m * base := Nat.le_mul_of_pos_right m hbase
    have hlast : [c].foldlM f m = .ok (m * base + d) := by
      rw [List.foldlM_cons, hf digit hn]
      rfl
    rw [List.foldlM_append, ih (by omega)]
    exact hlast

/-- The number that is found is the number that was written, leading zeros or not. -/
theorem number_eq (h : Numeral base digits n) (hbase : 0 < base) (hn : n < UInt32.size) :
    number base digits = .ok n := by
  obtain ⟨c, rest, rfl⟩ := List.exists_cons_of_ne_nil h.ne_nil
  obtain ⟨d, hd⟩ := h.digit_of_mem List.mem_cons_self
  unfold number
  split
  · next heq => cases heq
  · next heq => cases heq; exact absurd rfl (ne_of_digit? hd : '+' ≠ '+')
  · next heq => cases heq; exact absurd rfl (ne_of_digit? hd : '-' ≠ '-')
  · refine foldlM_eq (fun digit hlimit => ?_) h hbase hn
    simp only [digit, if_pos hlimit]

end Numeral

theorem characterOf_toNat {c : Char} (h : c ≠ '\x00') : characterOf c.toNat = .ok c := by
  have hne : c.toNat ≠ 0 := fun e => h (Char.toNat_inj.1 e)
  have hvalid : c.toNat.isValidChar := c.valid
  rw [characterOf, if_neg hne, dif_pos hvalid]
  rfl

/-! ### Resolving -/

/-- A reference is read as one character. -/
theorem reference_of_numeral {digits : List Char} {c : Char} (start stop : Nat)
    (h : c ≠ '\x00') :
    (Numeral 10 digits c.toNat → reference start stop ('#' :: digits) = .ok c) ∧
      (Numeral 16 digits c.toNat → reference start stop ('#' :: 'x' :: digits) = .ok c) := by
  have hlt : c.toNat < UInt32.size := c.val.toNat_lt_size
  refine ⟨fun numeral => ?_, fun numeral => ?_⟩
  · have hnumeric : numericReference digits = .ok c := by
      obtain ⟨d, rest, rfl⟩ := List.exists_cons_of_ne_nil numeral.ne_nil
      obtain ⟨n, hn⟩ := numeral.digit_of_mem List.mem_cons_self
      have hx : d ≠ 'x' := ne_of_digit? hn
      unfold numericReference
      split
      · simp_all
      · rw [numeral.number_eq (by decide) hlt]
        exact characterOf_toNat h
    rw [reference, hnumeric]
    rfl
  · have hnumeric : numericReference ('x' :: digits) = .ok c := by
      rw [numericReference, numeral.number_eq (by decide) hlt]
      exact characterOf_toNat h
    rw [reference, hnumeric]
    rfl

theorem reference_of_named {name : String} {c : Char} (start stop : Nat)
    (h : (name, c) ∈ namedReferences) : reference start stop name.toList = .ok c := by
  simp only [namedReferences, List.mem_cons, Prod.mk.injEq, List.not_mem_nil, or_false] at h
  rcases h with ⟨rfl, rfl⟩ | ⟨rfl, rfl⟩ | ⟨rfl, rfl⟩ | ⟨rfl, rfl⟩ | ⟨rfl, rfl⟩ <;> rfl

namespace Resolver

variable (length : Nat) (resolved : List Char)

theorem foldlM_name (start position : Nat) (name collected : List Char)
    (h : ∀ c ∈ name, c ≠ ';' ∧ c ≠ '&') :
    ∃ position', name.foldlM (step length) ⟨resolved, position, some (start, collected)⟩ =
      .ok ⟨resolved, position', some (start, name.reverse ++ collected)⟩ := by
  induction name generalizing position collected with
  | nil => exact ⟨position, rfl⟩
  | cons c name ih =>
    obtain ⟨hsemi, hamp⟩ := h c List.mem_cons_self
    have hstep : step length ⟨resolved, position, some (start, collected)⟩ c =
        .ok ⟨resolved, position + c.utf8Size, some (start, c :: collected)⟩ := by
      simp [step, hsemi, hamp]
    obtain ⟨position', hname⟩ := ih (position + c.utf8Size) (c :: collected)
      fun d hd => h d (List.mem_cons_of_mem c hd)
    refine ⟨position', ?_⟩
    rw [List.foldlM_cons, hstep]
    simpa [bind, Except.bind] using hname

/-- A reference adds the character it names. -/
theorem foldlM_reference (position : Nat) {name : List Char} {c : Char}
    (h : ∀ d ∈ name, d ≠ ';' ∧ d ≠ '&')
    (hname : ∀ start stop, reference start stop name = .ok c) :
    ∃ position', (['&'] ++ name ++ [';']).foldlM (step length) ⟨resolved, position, none⟩ =
      .ok ⟨c :: resolved, position', none⟩ := by
  obtain ⟨middle, hmiddle⟩ :=
    foldlM_name length resolved position (position + '&'.utf8Size) name [] h
  have hopen : step length ⟨resolved, position, none⟩ '&' =
      .ok ⟨resolved, position + '&'.utf8Size, some (position, [])⟩ := by
    simp [step]
  have hclose : step length ⟨resolved, middle, some (position, name.reverse ++ [])⟩ ';' =
      .ok ⟨c :: resolved, middle + ';'.utf8Size, none⟩ := by
    simp [step, hname, bind, Except.bind]
  refine ⟨middle + ';'.utf8Size, ?_⟩
  rw [List.append_assoc, List.singleton_append, List.foldlM_cons, hopen]
  show (name ++ [';']).foldlM (step length) _ = _
  rw [List.foldlM_append, hmiddle]
  show [';'].foldlM (step length) _ = _
  rw [List.foldlM_cons, hclose]
  rfl

theorem foldlM_spelling (position : Nat) {c : Char} {piece : List Char} (h : Spelling c piece) :
    ∃ position', piece.foldlM (step length) ⟨resolved, position, none⟩ =
      .ok ⟨c :: resolved, position', none⟩ := by
  cases h with
  | raw hamp =>
    exact ⟨position + c.utf8Size, by simp [step, hamp, pure, Except.pure, bind, Except.bind]⟩
  | @decimal digits numeral hzero =>
    refine foldlM_reference length resolved position ?_
      fun start stop => (reference_of_numeral start stop hzero).1 numeral
    intro d hd
    rcases List.mem_cons.1 hd with rfl | hd
    · decide
    · obtain ⟨n, hn⟩ := numeral.digit_of_mem hd
      exact ⟨ne_of_digit? hn, ne_of_digit? hn⟩
  | @hexadecimal digits numeral hzero =>
    refine foldlM_reference length resolved position ?_
      fun start stop => (reference_of_numeral start stop hzero).2 numeral
    intro d hd
    rcases List.mem_cons.1 hd with rfl | hd
    · decide
    rcases List.mem_cons.1 hd with rfl | hd
    · decide
    · obtain ⟨n, hn⟩ := numeral.digit_of_mem hd
      exact ⟨ne_of_digit? hn, ne_of_digit? hn⟩
  | @named name hname =>
    refine foldlM_reference length resolved position ?_
      fun start stop => reference_of_named start stop hname
    simp only [namedReferences, List.mem_cons, Prod.mk.injEq, List.not_mem_nil, or_false] at hname
    rcases hname with ⟨rfl, -⟩ | ⟨rfl, -⟩ | ⟨rfl, -⟩ | ⟨rfl, -⟩ | ⟨rfl, -⟩ <;> simp

theorem foldlM_spells (position : Nat) {text raw : List Char} (h : Spells text raw) :
    ∃ position', raw.foldlM (step length) ⟨resolved, position, none⟩ =
      .ok ⟨text.reverse ++ resolved, position', none⟩ := by
  induction h generalizing resolved position with
  | nil => exact ⟨position, rfl⟩
  | @cons c piece text raw first _ ih =>
    obtain ⟨middle, hpiece⟩ := foldlM_spelling length resolved position first
    obtain ⟨position', hraw⟩ := ih (c :: resolved) middle
    refine ⟨position', ?_⟩
    rw [List.foldlM_append, hpiece]
    show raw.foldlM (step length) _ = _
    rw [hraw]
    simp

end Resolver

/-- Resolving a text gives what it spells. -/
theorem resolve_of_spells {text raw : List Char} (h : Spells text raw) :
    resolve raw = .ok text := by
  obtain ⟨position, hraw⟩ := Resolver.foldlM_spells (Text.byteLength raw) [] 0 h
  rw [resolve, hraw]
  simp [bind, Except.bind]

end UpdateProtocol.Markup

import Mathlib.Data.List.Induction
import UpdateProtocol.Proofs.Element.Spelling

/-!
# Typed attributes

Most attributes are plain texts, but a few hold a number, a truth value or a code.  `Form.Means`
says which words such an attribute may have and what they stand for, without a reader; a reader
accepts exactly these words (`Form.readAttribute_raw`).
-/

namespace UpdateProtocol

open Markup (Numeral)

/-! ### Words and their values -/

/-- The words of a form with their values: any text, twelve words for a truth value, and the
numbers of 64 bits in decimal digits, which a plus sign may precede. -/
inductive Form.Means : Form → String → Value → Prop
  | text (word : String) : Means .text word (.text word)
  | yes {word : String} (h : word ∈ ["1", "t", "T", "TRUE", "true", "True"]) :
      Means .flag word (.flag true)
  | no {word : String} (h : word ∈ ["0", "f", "F", "FALSE", "false", "False"]) :
      Means .flag word (.flag false)
  | size {word : String} {sign digits : List Char} {bytes : UInt64}
      (hword : word.toList = sign ++ digits) (hsign : sign = [] ∨ sign = ['+'])
      (numeral : Numeral 10 digits bytes.toNat) : Means .size word (.size bytes)

/-- The attributes of a type that are no plain texts, with their forms.  Codes are texts that have a
meaning. -/
def ElementType.typed : ElementType → List (String × Form)
  | app | updateCheck => [("status", .text)]
  | event => [("eventtype", .text), ("eventresult", .text)]
  | package => [("size", .size), ("required", .flag)]
  | action => [("needsadmin", .flag), ("IsDelta", .flag), ("DisablePayloadBackoff", .flag)]
  | _ => []

/-- The table has them with these forms. -/
theorem ElementType.exists_of_typed (type : ElementType) : ∀ typed ∈ type.typed,
    ∃ attr ∈ type.attributes, attr.name = typed.1 ∧ attr.form = typed.2 := by
  cases type <;> decide

theorem ElementType.form_of_typed (type : ElementType) : ∀ typed ∈ type.typed,
    ∀ attr ∈ type.attributes, attr.name = typed.1 → attr.form = typed.2 := by
  cases type <;> decide

/-- What stands between the quotes for a word.  A number is not escaped. -/
def Form.raw (form : Form) (word : String) : List Char :=
  match form with
  | .size => word.toList
  | .text | .flag => word.toList.flatMap (fun c => (Markup.escapeChar c).toList)

/-- Only a number can end the quotes. -/
theorem Form.quote_not_mem_raw {form : Form} {word : String}
    (h : form = .size → '"' ∉ word.toList) : '"' ∉ form.raw word := by
  cases form with
  | size => exact h rfl
  | text | flag => exact Markup.quote_not_mem_escape _

/-! ### Digits -/

theorem digit?_eq_some_iff {c : Char} {d : Nat} :
    Markup.digit? 10 c = some d ↔ c.isDigit = true ∧ c.toNat - '0'.toNat = d := by
  have hdigit : c.isDigit = true ↔ '0' ≤ c ∧ c ≤ '9' := by
    rw [Char.isDigit, Bool.and_eq_true, decide_eq_true_eq, decide_eq_true_eq]
    rfl
  have hbound (h : '0' ≤ c ∧ c ≤ '9') : c.toNat - '0'.toNat < 10 := by
    have hle : c.toNat ≤ '9'.toNat := h.2
    have hnine : '9'.toNat = '0'.toNat + 9 := rfl
    omega
  rw [hdigit, Markup.digit?, Option.filter_eq_some_iff]
  simp only [Bool.and_eq_true, decide_eq_true_eq]
  constructor
  · rintro ⟨hvalue, hlt⟩
    split_ifs at hvalue with hzero
    · exact ⟨hzero, Option.some.inj hvalue⟩
    -- a letter stands for ten or more
    · have := Option.some.inj hvalue
      omega
    · have := Option.some.inj hvalue
      omega
  · rintro ⟨h, rfl⟩
    exact ⟨if_pos h, hbound h⟩

/-- One more digit makes a number ten times as large and adds its value. -/
theorem readDigits_concat {init : List Char} (hinit : init ≠ []) (c : Char) (n : Nat) :
    Value.readDigits (init ++ [c]) = some n ↔ ∃ m d, Value.readDigits init = some m ∧
      Markup.digit? 10 c = some d ∧ m * 10 + d = n := by
  simp only [Value.readDigits, digit?_eq_some_iff]
  cases hall : init.all Char.isDigit <;> cases hdigit : c.isDigit <;> simp [hinit, hall, hdigit]

theorem readDigits_singleton (c : Char) (n : Nat) :
    Value.readDigits [c] = some n ↔ Markup.digit? 10 c = some n := by
  rw [digit?_eq_some_iff]
  cases hdigit : c.isDigit <;> simp [Value.readDigits, hdigit]

/-- Digits are read as the number that they stand for. -/
theorem readDigits_eq_some_iff {digits : List Char} {n : Nat} :
    Value.readDigits digits = some n ↔ Numeral 10 digits n := by
  constructor
  · intro h
    induction digits using List.reverseRecOn generalizing n with
    | nil => cases h
    | append_singleton init c ih =>
      by_cases hinit : init = []
      · subst hinit
        exact .single ((readDigits_singleton c n).1 h)
      · obtain ⟨m, d, hread, hdigit, rfl⟩ := (readDigits_concat hinit c n).1 h
        exact .snoc (ih hread) hdigit
  · intro h
    induction h with
    | single digit => exact (readDigits_singleton _ _).2 digit
    | snoc init digit ih => exact (readDigits_concat init.ne_nil _ _).2 ⟨_, _, ih, digit, rfl⟩

/-! ### Reading a word -/

/-- A number is read from its digits, and not if it is too large. -/
theorem readSize_of_digits {word digits : List Char} {bytes : UInt64}
    (h : word = digits ∧ digits.head? ≠ some '+' ∨ word = '+' :: digits) :
    Value.readSize word = some bytes ↔ Numeral 10 digits bytes.toNat := by
  have hread : Value.readSize word = (Value.readDigits digits).bind fun n =>
      if n < UInt64.size then some (UInt64.ofNat n) else none := by
    obtain ⟨rfl, hhead⟩ | rfl := h
    · unfold Value.readSize
      split
      · next rest => simp at hhead
      · dsimp only
        cases Value.readDigits word <;> rfl
    · simp only [Value.readSize]
      cases Value.readDigits digits <;> rfl
  rw [hread, ← readDigits_eq_some_iff, Option.bind_eq_some_iff]
  constructor
  · rintro ⟨n, hn, hbytes⟩
    split_ifs at hbytes with hlt
    rw [hn, ← Option.some.inj hbytes, UInt64.toNat_ofNat_of_lt' hlt]
  · intro h
    exact ⟨_, h, by rw [if_pos bytes.toNat_lt, UInt64.ofNat_toNat]⟩

theorem readSize_eq_some_iff {word : List Char} {bytes : UInt64} :
    Value.readSize word = some bytes ↔ ∃ sign digits, word = sign ++ digits ∧
      (sign = [] ∨ sign = ['+']) ∧ Numeral 10 digits bytes.toNat := by
  constructor
  · intro h
    by_cases hhead : word.head? = some '+'
    · obtain ⟨digits, rfl⟩ := List.head?_eq_some_iff.1 hhead
      exact ⟨['+'], digits, rfl, .inr rfl, (readSize_of_digits (.inr rfl)).1 h⟩
    · exact ⟨[], word, rfl, .inl rfl, (readSize_of_digits (.inl ⟨rfl, hhead⟩)).1 h⟩
  · rintro ⟨_, digits, rfl, rfl | rfl, numeral⟩
    · refine (readSize_of_digits (.inl ⟨rfl, fun hhead => ?_⟩)).2 numeral
      obtain ⟨d, hd⟩ := numeral.digit_of_mem (List.mem_of_mem_head? hhead)
      exact absurd rfl (Markup.ne_of_digit? hd : '+' ≠ '+')
    · exact (readSize_of_digits (.inr rfl)).2 numeral

theorem readFlag_eq_some_iff {word : String} {value : Bool} :
    Value.readFlag word.toList = some value ↔ Form.Means .flag word (.flag value) := by
  constructor
  · intro h
    unfold Value.readFlag at h
    rw [String.ofList_toList] at h
    split at h <;> cases h
    all_goals first | exact .yes (by decide) | exact .no (by decide)
  · rintro (_ | h | h)
    all_goals
      simp only [List.mem_cons, List.not_mem_nil, or_false] at h
      obtain rfl | rfl | rfl | rfl | rfl | rfl := h <;> decide

theorem Form.means_size_iff {word : String} {bytes : UInt64} :
    Form.Means .size word (.size bytes) ↔ Value.readSize word.toList = some bytes := by
  rw [readSize_eq_some_iff]
  constructor
  · rintro (_ | _ | _ | ⟨hword, hsign, numeral⟩)
    exact ⟨_, _, hword, hsign, numeral⟩
  · rintro ⟨sign, digits, hword, hsign, numeral⟩
    exact .size hword hsign numeral

/-- A word stands for a value of its form. -/
theorem Form.Means.admits {form : Form} {word : String} {value : Value}
    (h : form.Means word value) : form.Admits value := by
  cases h <;> trivial

/-- The words of a form are read as what they stand for, and no other texts are read. -/
theorem Form.read_eq_ok_iff {form : Form} {word : String} {value : Value} :
    form.read word.toList = .ok value ↔ form.Means word value := by
  cases form with
  | text =>
    rw [read, String.ofList_toList]
    constructor
    · rintro ⟨⟩
      exact .text word
    · rintro ⟨⟩
      rfl
  | flag =>
    constructor
    · intro h
      rw [read] at h
      split at h <;> cases h
      exact readFlag_eq_some_iff.1 ‹_›
    · intro h
      cases value <;> cases h.admits
      rw [read, readFlag_eq_some_iff.2 h]
  | size =>
    constructor
    · intro h
      rw [read] at h
      split at h <;> cases h
      exact means_size_iff.2 ‹_›
    · intro h
      cases value <;> cases h.admits
      rw [read, means_size_iff.1 h]

/-- So it is between quotes. -/
theorem Form.readAttribute_raw {form : Form} {word : String} {value : Value} :
    form.readAttribute (form.raw word) = .ok value ↔ form.Means word value := by
  have hresolve : Markup.resolve (word.toList.flatMap (fun c => (Markup.escapeChar c).toList)) =
      .ok word.toList := Markup.resolve_of_spells (Markup.spells_escape _)
  cases form with
  | size =>
    rw [raw, readAttribute]
    exact read_eq_ok_iff
  | text | flag =>
    rw [raw, readAttribute, hresolve, Except.mapError, lift_ok, ok_bind]
    · exact read_eq_ok_iff
    · simp

end UpdateProtocol

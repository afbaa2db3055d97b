import UpdateProtocol.Proofs.Message.Canonical

/-!
# Open vocabularies lose nothing

Every token is read, and written back unchanged.  A token of the table of a vocabulary is read as
the code of its row, and every other one is kept.  A code is read back from its token unless it
keeps a token that the table has (`ofToken_lossless`).
-/

namespace UpdateProtocol

/-- The tokens of a vocabulary, each with its code. -/
def Vocabulary.table (κ : Type) [Vocabulary κ] : List (String × κ) :=
  Vocabulary.all.map (fun code => (Vocabulary.token code, code))

namespace Code

theorem isKnown_iff {κ : Type} {code : Code κ} :
    code.isKnown = true ↔ ∃ variant, code = known variant := by
  cases code <;> simp [isKnown]

variable {κ : Type} [Vocabulary κ]

theorem ofToken_injective : Function.Injective (ofToken : String → Code κ) :=
  Function.LeftInverse.injective token_ofToken

/-- The codes that come from reading. -/
inductive IsRead : Code κ → Prop
  | ofToken (token : String) : IsRead (.ofToken token)
  | ofText (text : String) : IsRead (.ofText text)

/-- A code that was read is read back from its token. -/
theorem IsRead.ofToken_token {code : Code κ} (h : code.IsRead) : .ofToken code.token = code := by
  cases h with
  | ofToken token => rw [token_ofToken]
  | ofText text => rw [ofText_eq, token_ofToken]

section Table

variable [Vocabulary.Lawful κ] {token : String}

/-- The table says which tokens are read as codes of the vocabulary. -/
theorem mem_table_iff {variant : κ} :
    (token, variant) ∈ Vocabulary.table κ ↔ (ofToken token : Code κ) = known variant := by
  simp only [Vocabulary.table, List.mem_map, Prod.mk.injEq]
  constructor
  · rintro ⟨_, -, rfl, rfl⟩
    exact ofToken_token (known _)
  · intro h
    have htoken : Vocabulary.token variant = token := by
      rw [← token_known, ← h, token_ofToken]
    have hmem := List.mem_of_find?_eq_some (Vocabulary.Lawful.find?_token variant)
    exact ⟨variant, hmem, htoken, rfl⟩

/-- The tokens outside the table are kept. -/
theorem ofToken_eq_other_iff :
    (ofToken token : Code κ) = other token ↔
      ¬ ∃ variant, (token, variant) ∈ Vocabulary.table κ := by
  have htoken := token_ofToken (κ := κ) token
  simp only [mem_table_iff]
  cases hread : (ofToken token : Code κ) with
  | known code => simp
  | other kept =>
    rw [hread, token_other] at htoken
    simp [htoken]

theorem canon_eq_self_iff {code : Code κ} :
    code.canon = code ↔
      ¬ ∃ token variant, (token, variant) ∈ Vocabulary.table κ ∧ code = other token := by
  cases code with
  | known code => simp [canon]
  | other token =>
    rw [canon, ofToken_eq_other_iff]
    simp

end Table

/-- What is kept when a token is read, and when a code is written and read again. -/
structure Lossless (token : String) (code : Code κ) : Prop where
  ofText_eq : (ofText token : Code κ) = ofToken token
  parse_eq : (parse token : Except Empty (Code κ)) = .ok (ofToken token)
  token_eq : (ofToken token : Code κ).token = token
  isKnown_iff : (ofToken token : Code κ).isKnown = true ↔
    ∃ variant, (token, variant) ∈ Vocabulary.table κ
  row_iff : ∀ variant,
    (token, variant) ∈ Vocabulary.table κ ↔ (ofToken token : Code κ) = known variant
  ofToken_eq_iff : ∀ other, (ofToken token : Code κ) = ofToken other ↔ token = other
  /-- A code is read back unless it keeps a token of the table. -/
  read_back_iff : ofToken code.token = code ↔
    ¬ ∃ token variant, (token, variant) ∈ Vocabulary.table κ ∧ code = other token

theorem lossless [Vocabulary.Lawful κ] (token : String) (code : Code κ) : Lossless token code where
  ofText_eq := ofText_eq token
  parse_eq := rfl
  token_eq := token_ofToken token
  isKnown_iff := by simp only [isKnown_iff, mem_table_iff]
  row_iff _ := mem_table_iff
  ofToken_eq_iff _ := ofToken_injective.eq_iff
  read_back_iff := by rw [ofToken_token, canon_eq_self_iff]

end Code

/-- The four vocabularies lose nothing. -/
theorem ofToken_lossless (token : String) (status : Code AppStatus) (update : Code UpdateStatus)
    (event : Code EventType) (result : Code EventResult) :
    status.Lossless token ∧ update.Lossless token ∧ event.Lossless token ∧ result.Lossless token :=
  ⟨Code.lossless token status, Code.lossless token update, Code.lossless token event,
    Code.lossless token result⟩

end UpdateProtocol

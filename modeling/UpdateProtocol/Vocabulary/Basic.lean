/-!
# Open vocabularies

A status or result travels as a token.  A vocabulary is a finite list of codes with one token
each; a `Code` is either one of them or a token outside the vocabulary, kept as it was received.
`Code.ofToken` reads every token and `Code.token` writes it back unchanged.
-/

namespace UpdateProtocol

/-- A finite list of codes, each with the token that stands for it. -/
class Vocabulary (κ : Type) where
  all : List κ
  token : κ → String

/-- A code of the vocabulary `κ`, or a token outside it. -/
inductive Code (κ : Type) where
  | known (code : κ)
  | other (token : String)
  deriving DecidableEq, Repr

namespace Code

variable {κ : Type} [Vocabulary κ]

/-- The token that stands for a code. -/
def token : Code κ → String
  | known code => Vocabulary.token code
  | other token => token

/-- The code a token stands for: the first code of the vocabulary with that token, or the token
itself. -/
def ofToken (token : String) : Code κ :=
  match (Vocabulary.all : List κ).find? (fun code => Vocabulary.token code == token) with
  | some code => known code
  | none => other token

/-- The code a text stands for.  A text that is no token of the vocabulary is kept itself. -/
def ofText (text : String) : Code κ :=
  match (ofToken text : Code κ) with
  | other _ => other text
  | known code => known code

/-- Read a token.  There is no token that is refused. -/
def parse (token : String) : Except Empty (Code κ) :=
  .ok (ofToken token)

/-- Whether a code belongs to its vocabulary. -/
def isKnown : Code κ → Bool
  | known _ => true
  | other _ => false

@[simp] theorem token_known (code : κ) : (known code : Code κ).token = Vocabulary.token code := rfl

@[simp] theorem token_other (token : String) : (other token : Code κ).token = token := rfl

@[simp] theorem token_ofToken (t : String) : (ofToken t : Code κ).token = t := by
  unfold ofToken
  split
  · next code h => simpa using List.find?_some h
  · rfl

theorem ofText_eq (text : String) : (ofText text : Code κ) = ofToken text := by
  have htoken := token_ofToken (κ := κ) text
  unfold ofText
  split
  · next token h =>
    rw [h, token_other] at htoken
    rw [h, htoken]
  · next code h => exact h.symm

end Code

end UpdateProtocol

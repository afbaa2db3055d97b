import UpdateProtocol.Markup.Attribute
import UpdateProtocol.Markup.Lexer

/-!
# Layouts

One tree of elements can be laid out in many ways: blanks in tags, two kinds of quotes, text and
remarks between tags, one tag or two for an element without children.  A `Node` is an element with
all of these choices made, so that `Node.write` is a function and every well-formed spelling of a
tree is the text of some node.

What must not occur in a part of a layout is excluded by its type.  `Node.pieces` lists the tags of
a node, each with the gap before it, in the order in which a reader meets them.
-/

namespace UpdateProtocol.Markup

/-! ### Parts of tags -/

/-- A character that a name may begin with. -/
def isNameStart (c : Char) : Bool :=
  c == ':' || c == '_' || between 'A' 'Z' || between 'a' 'z' || between '\u00c0' '\u00d6' ||
    between '\u00d8' '\u00f6' || between '\u00f8' '\u02ff' || between '\u0370' '\u037d' ||
    between '\u037f' '\u1fff' || between '\u200c' '\u200d' || between '\u2070' '\u218f' ||
    between '\u2c00' '\u2fef' || between '\u3001' '\ud7ff' || between '\uf900' '\ufdcf' ||
    between '\ufdf0' '\ufffd' || (0x10000 ≤ c.toNat && c.toNat ≤ 0xeffff)
where
  between (low high : Char) : Bool := low ≤ c && c ≤ high

/-- A character that a name may go on with. -/
def isNameChar (c : Char) : Bool :=
  isNameStart c || c == '-' || c == '.' || c == '\u00b7' || ('0' ≤ c && c ≤ '9') ||
    ('\u0300' ≤ c && c ≤ '\u036f') || ('\u203f' ≤ c && c ≤ '\u2040')

/-- Whether a text is a name. -/
def isName : List Char → Bool
  | [] => false
  | c :: rest => isNameStart c && rest.all isNameChar

/-- The name of an element or attribute, with any qualifier. -/
@[ext] structure Name where
  chars : List Char
  valid : isName chars = true

/-- A run of blanks. -/
@[ext] structure Blanks where
  chars : List Char
  blank : chars.all Text.isBlank = true

/-- No blanks. -/
def Blanks.empty : Blanks := ⟨[], rfl⟩

/-- A single space. -/
def Blanks.space : Blanks := ⟨[' '], rfl⟩

@[simp] theorem Blanks.chars_empty : empty.chars = [] := rfl

@[simp] theorem Blanks.chars_space : space.chars = [' '] := rfl

theorem Blanks.space_ne_nil : space.chars ≠ [] := List.cons_ne_nil _ _

/-- The two characters that may enclose a value. -/
inductive Quote where
  | single
  | double
  deriving DecidableEq, Repr

/-- The character itself. -/
def Quote.char : Quote → Char
  | single => '\''
  | double => '"'

/-- An attribute with the blanks before it and around its equals sign. -/
structure AttributeLayout where
  before : Blanks
  name : Name
  beforeEquals : Blanks := .empty
  afterEquals : Blanks := .empty
  quote : Quote := .double
  value : List Char
  separated : before.chars ≠ []
  unquoted : quote.char ∉ value

/-- The attribute that a reader finds, references unresolved. -/
def AttributeLayout.attribute (attr : AttributeLayout) : Attribute :=
  ⟨attr.name.chars, attr.value⟩

/-- The text of an attribute. -/
def AttributeLayout.write (attr : AttributeLayout) : List Char :=
  attr.before.chars ++ attr.name.chars ++ attr.beforeEquals.chars ++ ['='] ++
    attr.afterEquals.chars ++ [attr.quote.char] ++ attr.value ++ [attr.quote.char]

/-- What stands between the angle brackets of a start tag, with blanks after the last attribute. -/
structure TagLayout where
  name : Name
  attributes : List AttributeLayout := []
  after : Blanks := .empty

/-- The text between the angle brackets. -/
def TagLayout.write (tag : TagLayout) : List Char :=
  tag.name.chars ++ tag.attributes.flatMap AttributeLayout.write ++ tag.after.chars

/-- The tag that a reader finds. -/
def TagLayout.tag (tag : TagLayout) : Tag := ⟨tag.write⟩

/-! ### Gaps -/

/-- Text between two pieces of markup. -/
structure RawText where
  chars : List Char
  noMarkup : '<' ∉ chars

/-- No text. -/
def RawText.empty : RawText := ⟨[], List.not_mem_nil⟩

@[simp] theorem RawText.chars_empty : empty.chars = [] := rfl

/-- Markup that leaves no token: a comment without two dashes in a row, or an instruction. -/
inductive Remark where
  | comment (content : List Char) (closed : ¬ ['-', '-'] <:+: content ++ ['-'])
  | instruction (content : List Char) (closed : ¬ ['?', '>'] <:+: '?' :: content)

/-- The text of a remark. -/
def Remark.write : Remark → List Char
  | comment content _ => "<!--".toList ++ content ++ "-->".toList
  | instruction content _ => "<?".toList ++ content ++ "?>".toList

/-- What stands between two tags: text, then remarks with text after each of them. -/
structure Gap where
  text : RawText := .empty
  remarks : List (Remark × RawText) := []

/-- The text of a gap. -/
def Gap.write (gap : Gap) : List Char :=
  gap.text.chars ++ gap.remarks.flatMap (fun remark => remark.1.write ++ remark.2.chars)

/-- The texts of a gap that are there at all. -/
def Gap.texts (gap : Gap) : List (List Char) :=
  (gap.text.chars :: gap.remarks.map (fun remark => remark.2.chars)).filter (· ≠ [])

@[simp] theorem Gap.write_empty : ({} : Gap).write = [] := rfl

@[simp] theorem Gap.texts_empty : ({} : Gap).texts = [] := rfl

/-- Whether a gap has nothing but blanks beside its remarks. -/
def Gap.IsBlank (gap : Gap) : Prop :=
  ∀ raw ∈ gap.texts, raw.all Text.isBlank = true

/-! ### Nodes -/

/-- An element with the gap before its start tag.  An element of two tags has a gap before the end
tag as well. -/
inductive Node where
  | selfClosed (lead : Gap) (tag : TagLayout)
  | paired (lead : Gap) (tag : TagLayout) (children : List Node) (trail : Gap)

/-- Where an element begins or ends. -/
inductive Mark where
  | start (tag : Tag)
  | finish (name : List Char)

/-- A mark with the gap before it. -/
structure Piece where
  gap : Gap := {}
  mark : Mark

namespace Node

/-- The gap before the start tag. -/
def lead : Node → Gap
  | selfClosed lead _ => lead
  | paired lead _ _ _ => lead

/-- The start tag. -/
def tag : Node → TagLayout
  | selfClosed _ tag => tag
  | paired _ tag _ _ => tag

/-- The full name. -/
def name (node : Node) : List Char := node.tag.name.chars

/-- The children in order. -/
def children : Node → List Node
  | selfClosed _ _ => []
  | paired _ _ children _ => children

/-- The gap before the end tag, empty if there is none. -/
def trail : Node → Gap
  | selfClosed _ _ => {}
  | paired _ _ _ trail => trail

/-- What holds of a node if it holds of all its children holds of every node. -/
@[elab_as_elim]
theorem induct {motive : Node → Prop}
    (step : ∀ node, (∀ child ∈ node.children, motive child) → motive node) (node : Node) :
    motive node :=
  match node with
  | selfClosed lead tag => step _ (by simp [children])
  | paired lead tag nodes trail => step _ fun child _ => induct step child
decreasing_by
  have := List.sizeOf_lt_of_mem ‹child ∈ children _›
  simp only [children, paired.sizeOf_spec] at this ⊢
  omega

mutual

/-- The text of a node. -/
def write : Node → List Char
  | selfClosed lead tag => lead.write ++ ['<'] ++ tag.write ++ ['/', '>']
  | paired lead tag children trail =>
      lead.write ++ ['<'] ++ tag.write ++ ['>'] ++ writeAll children ++ trail.write ++
        ['<', '/'] ++ tag.name.chars ++ ['>']

/-- The text of nodes that follow each other. -/
def writeAll : List Node → List Char
  | [] => []
  | node :: nodes => write node ++ writeAll nodes

end

theorem writeAll_eq (nodes : List Node) : writeAll nodes = nodes.flatMap write := by
  induction nodes with
  | nil => rfl
  | cons node nodes ih => rw [writeAll, ih, List.flatMap_cons]

mutual

/-- The pieces of a node. -/
def pieces : Node → List Piece
  | selfClosed lead tag => [⟨lead, .start tag.tag⟩, ⟨{}, .finish tag.name.chars⟩]
  | paired lead tag children trail =>
      ⟨lead, .start tag.tag⟩ :: (piecesAll children ++ [⟨trail, .finish tag.name.chars⟩])

/-- The pieces of nodes that follow each other. -/
def piecesAll : List Node → List Piece
  | [] => []
  | node :: nodes => pieces node ++ piecesAll nodes

end

/-- The pieces after the start tag. -/
def content (node : Node) : List Piece :=
  piecesAll node.children ++ [⟨node.trail, .finish node.name⟩]

theorem pieces_eq (node : Node) :
    node.pieces = ⟨node.lead, .start node.tag.tag⟩ :: node.content := by
  cases node <;> rfl

@[simp] theorem piecesAll_nil : piecesAll [] = [] := by rw [piecesAll]

@[simp] theorem piecesAll_cons (node : Node) (nodes : List Node) :
    piecesAll (node :: nodes) = node.pieces ++ piecesAll nodes := by rw [piecesAll]

end Node

/-- The token of a mark. -/
def Mark.token : Mark → Token
  | start tag => .start tag
  | finish name => .finish name

/-- The tokens of a piece. -/
def Piece.tokens (piece : Piece) : List Token :=
  piece.gap.texts.map .text ++ [piece.mark.token]

/-- The tokens of a node. -/
def Node.tokens (node : Node) : List Token :=
  node.pieces.flatMap Piece.tokens

/-- The tokens of nodes that follow each other. -/
def Node.tokensAll (nodes : List Node) : List Token :=
  (Node.piecesAll nodes).flatMap Piece.tokens

end UpdateProtocol.Markup

import UpdateProtocol.Document

/-!
# The size of a document

A document takes the bytes of its characters, so neither their order nor a longer document with the
same characters between others makes it larger.
-/

namespace UpdateProtocol

namespace Text

theorem foldl_utf8Size (chars : List Char) (n : Nat) :
    chars.foldl (fun n c => n + c.utf8Size) n = n + byteLength chars := by
  unfold byteLength
  induction chars generalizing n with
  | nil => rfl
  | cons c chars ih =>
    rw [List.foldl_cons, List.foldl_cons, ih (n + c.utf8Size), ih (0 + c.utf8Size)]
    omega

theorem byteLength_cons (c : Char) (chars : List Char) :
    byteLength (c :: chars) = c.utf8Size + byteLength chars := by
  rw [byteLength, List.foldl_cons, foldl_utf8Size]
  omega

theorem byteLength_perm {chars others : List Char} (h : chars.Perm others) :
    byteLength chars = byteLength others := by
  induction h with
  | nil => rfl
  | cons c _ ih => rw [byteLength_cons, byteLength_cons, ih]
  | swap c d chars =>
    simp only [byteLength_cons]
    omega
  | trans _ _ ih ih' => exact ih.trans ih'

theorem byteLength_sublist {chars others : List Char} (h : List.Sublist chars others) :
    byteLength chars ≤ byteLength others := by
  induction h with
  | slnil => exact Nat.le_refl _
  | cons c _ ih =>
    rw [byteLength_cons]
    omega
  | cons_cons c _ ih =>
    rw [byteLength_cons, byteLength_cons]
    omega

end Text

theorem size_toUTF8 (text : String) : text.toUTF8.size = Text.byteLength text.toList := by
  have hchars (chars : List Char) :
      (String.ofList chars).utf8ByteSize = Text.byteLength chars := by
    induction chars with
    | nil => rfl
    | cons c chars ih =>
      rw [String.ofList_cons, String.utf8ByteSize_append, ih, String.utf8ByteSize_singleton,
        Text.byteLength_cons]
  rw [← hchars, String.ofList_toList]
  rfl

theorem size_append (text other : String) :
    (text ++ other).toUTF8.size = text.toUTF8.size + other.toUTF8.size :=
  String.utf8ByteSize_append

theorem size_eq_of_perm {text other : String} (h : text.toList.Perm other.toList) :
    text.toUTF8.size = other.toUTF8.size := by
  rw [size_toUTF8, size_toUTF8, Text.byteLength_perm h]

theorem size_le_of_sublist {text other : String} (h : List.Sublist text.toList other.toList) :
    text.toUTF8.size ≤ other.toUTF8.size := by
  rw [size_toUTF8, size_toUTF8]
  exact Text.byteLength_sublist h

end UpdateProtocol

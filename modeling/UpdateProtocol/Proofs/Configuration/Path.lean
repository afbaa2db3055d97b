import Mathlib.Data.String.Basic
import UpdateProtocol.Configuration.Path

/-!
# Components of a path

The parts of a path are read off its characters (`splitOn_eq`).  A separator at the end makes no
difference, and a path that is taken from a directory has the components of the directory and then
its own (`components_join`).
-/

namespace UpdateProtocol.Path

/-! ### Parts of a path -/

section Splitting

open String (atEnd_of_valid extract_of_valid get_of_valid next_of_valid ofList splitOnAux utf8Len)

variable (before part : List Char) (parts : List String)

theorem utf8Len_concat (chars : List Char) (c : Char) :
    utf8Len (chars ++ [c]) = utf8Len chars + c.utf8Size := by
  simp

theorem extract_part (after : List Char) :
    String.Pos.Raw.extract (ofList (before ++ part ++ after)) ⟨utf8Len before⟩
      ⟨utf8Len (before ++ part)⟩ = ofList part := by
  rw [String.utf8Len_append, extract_of_valid]

/-- The last part ends with the text. -/
theorem splitOnAux_end :
    splitOnAux (ofList (before ++ part ++ [])) "/" ⟨utf8Len before⟩ ⟨utf8Len (before ++ part)⟩ 0
        parts = parts.reverse ++ [ofList part] := by
  rw [splitOnAux, if_pos ((atEnd_of_valid _ _).2 rfl), extract_part, List.reverse_cons]

/-- A part ends at a separator, and the next one begins behind it. -/
theorem splitOnAux_separator (after : List Char) :
    splitOnAux (ofList (before ++ part ++ '/' :: after)) "/" ⟨utf8Len before⟩
        ⟨utf8Len (before ++ part)⟩ 0 parts =
      splitOnAux (ofList (before ++ part ++ '/' :: after)) "/" ⟨utf8Len (before ++ part ++ ['/'])⟩
        ⟨utf8Len (before ++ part ++ ['/'])⟩ 0 (ofList part :: parts) := by
  have hback : String.Pos.Raw.unoffsetBy ⟨utf8Len (before ++ part) + Char.utf8Size '/'⟩
      (String.Pos.Raw.next "/" 0) = ⟨utf8Len (before ++ part)⟩ := rfl
  have hend : String.Pos.Raw.atEnd "/" (String.Pos.Raw.next "/" 0) = true := by decide
  rw [splitOnAux, if_neg (mt (atEnd_of_valid _ _).1 (List.cons_ne_nil '/' after)), get_of_valid,
    List.headD_cons, show String.Pos.Raw.get "/" 0 = '/' by decide, if_pos (beq_self_eq_true _),
    next_of_valid, if_pos hend, hback, ← utf8Len_concat, extract_part]

/-- Every other character belongs to the part. -/
theorem splitOnAux_other {c : Char} (hc : c ≠ '/') (after : List Char) :
    splitOnAux (ofList (before ++ part ++ c :: after)) "/" ⟨utf8Len before⟩
        ⟨utf8Len (before ++ part)⟩ 0 parts =
      splitOnAux (ofList (before ++ part ++ c :: after)) "/" ⟨utf8Len before⟩
        ⟨utf8Len (before ++ part ++ [c])⟩ 0 parts := by
  have hnext : String.Pos.Raw.next (ofList (before ++ part ++ c :: after))
      (String.Pos.Raw.unoffsetBy ⟨utf8Len (before ++ part)⟩ 0) =
      ⟨utf8Len (before ++ part ++ [c])⟩ := by
    rw [utf8Len_concat, ← next_of_valid]
    rfl
  rw [splitOnAux, if_neg (mt (atEnd_of_valid _ _).1 (List.cons_ne_nil c after)), get_of_valid,
    List.headD_cons, show String.Pos.Raw.get "/" 0 = '/' by decide,
    if_neg (mt beq_iff_eq.1 hc), hnext]

variable {part} in
/-- Splitting gives the part that has been begun and the parts of what follows it. -/
theorem splitOnAux_eq (hpart : '/' ∉ part) (after : List Char) :
    splitOnAux (ofList (before ++ part ++ after)) "/" ⟨utf8Len before⟩ ⟨utf8Len (before ++ part)⟩ 0
        parts = parts.reverse ++ ((part ++ after).splitOn '/').map ofList := by
  -- Characters move from the rest into the part, which is begun anew behind every separator.
  induction after generalizing before part parts with
  | nil =>
    rw [splitOnAux_end, List.append_nil, List.splitOn_eq_singleton hpart, List.map_singleton]
  | cons c after ih =>
    by_cases hc : c = '/'
    · subst hc
      have hrest := ih (before ++ part ++ ['/']) (ofList part :: parts) List.not_mem_nil
      rw [splitOnAux_separator, List.splitOn_append_cons_self_of_not_mem hpart]
      simpa using hrest
    · have hpart' : '/' ∉ part ++ [c] := by simp [hpart, Ne.symm hc]
      rw [splitOnAux_other before part parts hc]
      simpa using ih before parts hpart'

end Splitting

theorem splitOn_eq (path : String) :
    path.splitOn "/" = (path.toList.splitOn '/').map String.ofList := by
  have h := splitOnAux_eq [] [] List.not_mem_nil path.toList
  rw [String.splitOn, if_neg (by decide)]
  simpa using h

theorem splitOn_append (path rest : String) :
    (path ++ "/" ++ rest).splitOn "/" = path.splitOn "/" ++ rest.splitOn "/" := by
  have hchars : (path ++ "/" ++ rest).toList = path.toList ++ '/' :: rest.toList := by simp
  rw [splitOn_eq, hchars, List.splitOn_append_cons_self, List.map_append, ← splitOn_eq,
    ← splitOn_eq]

theorem isAbsolute_eq (path : String) : isAbsolute path = (path.toList.head? == some '/') := by
  rw [Bool.eq_iff_iff, isAbsolute, String.startsWith_string_iff, beq_iff_eq,
    List.head?_eq_some_iff]
  exact ⟨fun ⟨rest, h⟩ => ⟨rest, h.symm⟩, fun ⟨rest, h⟩ => ⟨rest, h.symm⟩⟩

theorem endsWith_eq (path : String) :
    path.endsWith "/" = (path.toList.getLast? == some '/') := by
  have hsuffix : path.endsWith "/" = true ↔ "/".toList <:+ path.toList := by
    rw [← String.endsWith_toSlice, String.Slice.endsWith_string_iff, String.copy_toSlice]
  rw [Bool.eq_iff_iff, hsuffix, beq_iff_eq, List.getLast?_eq_some_iff]
  exact ⟨fun ⟨before, h⟩ => ⟨before, h.symm⟩, fun ⟨before, h⟩ => ⟨before, h.symm⟩⟩

theorem exists_of_endsWith {path : String} (h : path.endsWith "/" = true) :
    ∃ before, path = before ++ "/" := by
  rw [endsWith_eq, beq_iff_eq, List.getLast?_eq_some_iff] at h
  obtain ⟨before, hbefore⟩ := h
  exact ⟨String.ofList before, String.toList_inj.1 (by simp [hbefore])⟩

/-! ### Components of a path -/

/-- What a path begins with: the root, a dot, or a name. -/
def start (path : String) : List String :=
  if isAbsolute path then ["/"]
  else if (path.splitOn "/").head? == some "." then ["."] else []

/-- The parts that are components wherever they stand. -/
def named (parts : List String) : List String :=
  parts.filter (fun part => part != "" && part != ".")

theorem components_eq (path : String) :
    components path = start path ++ named (path.splitOn "/") := rfl

theorem named_append (parts rest : List String) :
    named (parts ++ rest) = named parts ++ named rest :=
  List.filter_append ..

theorem splitOn_slash (path : String) : (path ++ "/").splitOn "/" = path.splitOn "/" ++ [""] := by
  have h := splitOn_append path ""
  rwa [String.append_empty, splitOn_eq ""] at h

theorem head?_splitOn_append (path rest : String) :
    ((path ++ "/" ++ rest).splitOn "/").head? = (path.splitOn "/").head? := by
  have hne : path.splitOn "/" ≠ [] := by
    rw [splitOn_eq]
    simp
  rw [splitOn_append, List.head?_append_of_ne_nil _ hne]

/-- What follows a separator does not change what a path begins with. -/
theorem start_append (path rest : String) : start (path ++ "/" ++ rest) = start (path ++ "/") := by
  have habsolute : isAbsolute (path ++ "/" ++ rest) = isAbsolute (path ++ "/") := by
    rw [isAbsolute_eq, isAbsolute_eq]
    simp [List.head?_append]
  have hhead := head?_splitOn_append path ""
  rw [String.append_empty] at hhead
  rw [start, start, habsolute, head?_splitOn_append, hhead]

theorem start_slash {path : String} (h : path ≠ "") : start (path ++ "/") = start path := by
  have habsolute : isAbsolute (path ++ "/") = isAbsolute path := by
    rw [isAbsolute_eq, isAbsolute_eq, String.toList_append,
      List.head?_append_of_ne_nil _ (by simpa using h)]
  have hhead := head?_splitOn_append path ""
  rw [String.append_empty] at hhead
  rw [start, start, habsolute, hhead]

/-- A separator at the end makes no difference. -/
theorem components_slash {path : String} (h : path ≠ "") :
    components (path ++ "/") = components path := by
  rw [components_eq, components_eq, start_slash h, splitOn_slash, named_append,
    show named [""] = [] from rfl, List.append_nil]

theorem components_append (path : String) {rest : String} (hrest : start rest = []) :
    components (path ++ "/" ++ rest) = components (path ++ "/") ++ components rest := by
  rw [components_eq, components_eq (path ++ "/"), components_eq rest, hrest, start_append,
    splitOn_append, splitOn_slash, named_append, named_append, show named [""] = [] from rfl,
    List.append_nil, List.nil_append, List.append_assoc]

/-- A path that is taken from a directory has the components of both. -/
theorem components_join (directory : String) {path : String} (hpath : start path = []) :
    components (join directory path) = components directory ++ components path := by
  rw [join]
  split
  · next h =>
    rcases Bool.or_eq_true_iff.1 h with hempty | hends
    · have hnone : components "" = [] := by
        rw [components_eq, start, splitOn_eq]
        rfl
      rw [String.isEmpty_iff.1 hempty, String.empty_append, hnone, List.nil_append]
    · obtain ⟨before, rfl⟩ := exists_of_endsWith hends
      exact components_append before hpath
  · next h =>
    have hne : directory ≠ "" := fun hempty => h (by simp [hempty])
    rw [components_append directory hpath, components_slash hne]

theorem same_iff {a b : String} : same a b = true ↔ components a = components b :=
  beq_iff_eq

theorem same_refl (path : String) : same path path = true :=
  same_iff.2 rfl

theorem same_comm (a b : String) : same a b = same b a := by
  rw [Bool.eq_iff_iff, same_iff, same_iff, eq_comm]

/-- No two of the paths are the same location. -/
def Distinct (paths : List String) : Prop :=
  paths.Pairwise (fun a b => same a b = false)

end UpdateProtocol.Path

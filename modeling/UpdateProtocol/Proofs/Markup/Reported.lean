import UpdateProtocol.Proofs.Markup.Conformance

/-!
# What a processor reports of an escaped text

The writer escapes the characters that would end a value or begin markup, and no others.  So a
processor reports a text with a space for each line end and each tab in it (`reportsValue_escape`),
which is the text itself only if there are none (`reportedText_eq_iff`).
-/

namespace UpdateProtocol.Xml

/-! ### Line ends in parts of a text -/

theorem unifyLines_cons {c : Char} (h : c ≠ '\r') (rest : List Char) :
    unifyLines (c :: rest) = c :: unifyLines rest := by
  rw [unifyLines]
  · exact fun _ e => absurd e h
  · exact h

theorem unifyLines_return {rest : List Char} (h : rest.head? ≠ some '\n') :
    unifyLines ('\r' :: rest) = '\n' :: unifyLines rest := by
  rw [unifyLines]
  rintro more rfl
  exact h rfl

theorem head?_ne {text : List Char} {c : Char} (h : ∀ rest, text = c :: rest → False) :
    text.head? ≠ some c := fun e => by
  obtain ⟨rest, hrest⟩ := List.head?_eq_some_iff.1 e
  exact h rest hrest

/-- A text before anything but a line feed is unified on its own. -/
theorem unifyLines_append {text rest : List Char} (h : rest.head? ≠ some '\n') :
    unifyLines (text ++ rest) = unifyLines text ++ unifyLines rest := by
  induction text using unifyLines.induct with
  | case1 text ih => simp [unifyLines, ih]
  | case2 text hnext ih =>
    have hfirst := head?_ne hnext
    have hboth : (text ++ rest).head? ≠ some '\n' := by
      cases text with
      | nil => exact h
      | cons c text => exact hfirst
    rw [List.cons_append, unifyLines_return hboth, unifyLines_return hfirst, ih, List.cons_append]
  | case3 c text hpair hreturn ih =>
    rw [List.cons_append, unifyLines_cons hreturn, unifyLines_cons hreturn, ih, List.cons_append]
  | case4 => rfl

theorem unifyLines_append_plain {text : List Char} (h : '\r' ∉ text) (rest : List Char) :
    unifyLines (text ++ rest) = text ++ unifyLines rest := by
  induction text with
  | nil => rfl
  | cons c text ih =>
    obtain ⟨hc, htext⟩ := List.ne_and_not_mem_of_not_mem_cons h
    rw [List.cons_append, unifyLines_cons (Ne.symm hc), ih htext, List.cons_append]

/-! ### Texts as they are reported -/

/-- What is reported for a text that is escaped between quotes. -/
def reportedText (text : List Char) : List Char :=
  (unifyLines text).map spaced

theorem mem_unifyLines {text : List Char} {c : Char} (h : c ∈ unifyLines text) :
    c ∈ text ∨ c = '\n' := by
  induction text using unifyLines.induct with
  | case1 text ih =>
    rw [unifyLines] at h
    rcases List.mem_cons.1 h with rfl | h
    · exact .inr rfl
    · exact (ih h).imp_left fun hc => List.mem_cons_of_mem _ (List.mem_cons_of_mem _ hc)
  | case2 text hnext ih =>
    rw [unifyLines_return (head?_ne hnext)] at h
    rcases List.mem_cons.1 h with rfl | h
    · exact .inr rfl
    · exact (ih h).imp_left (List.mem_cons_of_mem _)
  | case3 c text hpair hne ih =>
    rw [unifyLines_cons hne] at h
    rcases List.mem_cons.1 h with rfl | h
    · exact .inl List.mem_cons_self
    · exact (ih h).imp_left (List.mem_cons_of_mem _)
  | case4 => cases h

/-- What is reported for a text has no blanks but spaces. -/
theorem spaced_not_mem (c : Char) : spaced c ∉ ['\t', '\n', '\r'] := by
  unfold spaced
  split
  · decide
  · next hblank =>
    have hblanks : ['\t', '\n', '\r'].all Text.isBlank = true := by decide
    exact fun hmem => hblank (List.all_eq_true.1 hblanks c hmem)

theorem spaced_eq_self {c : Char} (h : c ∉ ['\t', '\n', '\r']) : spaced c = c := by
  unfold spaced
  split
  · next hblank =>
    simp only [Text.isBlank, Bool.or_eq_true, beq_iff_eq] at hblank
    simp only [List.mem_cons, List.not_mem_nil, or_false, not_or] at h
    tauto
  · rfl

/-- A text that may occur in a document and has no blanks but spaces. -/
def Kept (text : List Char) : Prop :=
  Allowed text ∧ ∀ c ∈ text, c ∉ ['\t', '\n', '\r']

/-- A text is reported as it is exactly if it has no tabs and no line ends. -/
theorem reportedText_eq_iff {text : List Char} :
    reportedText text = text ↔ ∀ c ∈ text, c ∉ ['\t', '\n', '\r'] := by
  constructor
  · intro h c hc
    rw [← h] at hc
    obtain ⟨d, -, rfl⟩ := List.mem_map.1 hc
    exact spaced_not_mem d
  · intro h
    have hreturn : '\r' ∉ text := fun hc => absurd (by decide) (h '\r' hc)
    have hunify := unifyLines_append_plain hreturn []
    rw [unifyLines, List.append_nil] at hunify
    calc reportedText text = text.map spaced := by rw [reportedText, hunify]
      _ = text.map id := List.map_congr_left fun c hc => spaced_eq_self (h c hc)
      _ = text := List.map_id text

theorem allowed_reportedText {text : List Char} (h : Allowed text) :
    Allowed (reportedText text) := by
  intro c hc
  obtain ⟨d, hd, rfl⟩ := List.mem_map.1 hc
  have hallowed : isChar d = true := by
    rcases mem_unifyLines hd with hd | rfl
    · exact h d hd
    · decide
  unfold spaced
  split
  · decide
  · exact hallowed

/-! ### Escaped texts -/

/-- An escaped character is itself, or it is written with letters, an ampersand and a semicolon. -/
theorem escapeChar_cases (c : Char) :
    (Markup.escapeChar c).toList = [c] ∧ c ≠ '<' ∨
      c ∈ ['&', '<', '>', '"'] ∧ (Markup.escapeChar c).toList ⊆ "&;ampltgquo".toList := by
  unfold Markup.escapeChar
  split
  · exact .inr (by decide)
  · exact .inr (by decide)
  · exact .inr (by decide)
  · exact .inr (by decide)
  · next _ hopen _ _ => exact .inl ⟨by simp, hopen⟩

theorem not_mem_escapeChar {c d : Char} (h : d ≠ c ∨ d = '<') (hother : d ∉ "&;ampltgquo".toList) :
    d ∉ (Markup.escapeChar c).toList := by
  intro hmem
  rcases escapeChar_cases c with ⟨he, hopen⟩ | ⟨-, hletters⟩
  · rw [he, List.mem_singleton] at hmem
    rcases h with hne | rfl
    · exact hne hmem
    · exact hopen hmem.symm
  · exact hother (hletters hmem)

theorem exists_escapeChar (c : Char) :
    ∃ d rest, (Markup.escapeChar c).toList = d :: rest ∧ (d = c ∨ d = '&') := by
  rcases escapeChar_cases c with ⟨he, -⟩ | ⟨hc, -⟩
  · exact ⟨c, [], he, .inl rfl⟩
  · simp only [List.mem_cons, List.not_mem_nil, or_false] at hc
    rcases hc with rfl | rfl | rfl | rfl <;> exact ⟨'&', _, rfl, .inr rfl⟩

theorem map_spaced_escapeChar (c : Char) :
    (Markup.escapeChar c).toList.map spaced = (Markup.escapeChar (spaced c)).toList := by
  rcases escapeChar_cases c with ⟨he, -⟩ | ⟨hc, -⟩
  · by_cases hblank : Text.isBlank c = true
    · rw [he, List.map_singleton, spaced, if_pos hblank]
      decide
    · rw [he, List.map_singleton, spaced, if_neg hblank, he]
  · simp only [List.mem_cons, List.not_mem_nil, or_false] at hc
    rcases hc with rfl | rfl | rfl | rfl <;> decide

theorem map_spaced_escape (text : List Char) :
    (text.flatMap (fun c => (Markup.escapeChar c).toList)).map spaced =
      (text.map spaced).flatMap (fun c => (Markup.escapeChar c).toList) := by
  simp only [List.map_flatMap, List.flatMap_map, map_spaced_escapeChar]

/-- Escaping leaves line ends as they are. -/
theorem unifyLines_escape (text : List Char) :
    unifyLines (text.flatMap (fun c => (Markup.escapeChar c).toList)) =
      (unifyLines text).flatMap (fun c => (Markup.escapeChar c).toList) := by
  have hreturn : (Markup.escapeChar '\r').toList = ['\r'] := by decide
  have hfeed : (Markup.escapeChar '\n').toList = ['\n'] := by decide
  induction text using unifyLines.induct with
  | case1 text ih =>
    simp only [List.flatMap_cons, hreturn, hfeed, List.singleton_append, unifyLines, ih]
  | case2 text hnext ih =>
    have hhead : (text.flatMap (fun c => (Markup.escapeChar c).toList)).head? ≠ some '\n' := by
      cases text with
      | nil => simp
      | cons c text =>
        obtain ⟨d, rest, hd, hfirst⟩ := exists_escapeChar c
        rw [List.flatMap_cons, hd, List.cons_append, List.head?_cons, Option.some_inj.ne]
        rcases hfirst with rfl | rfl
        · exact fun e => hnext text (by rw [e])
        · decide
    rw [List.flatMap_cons, hreturn, List.singleton_append, unifyLines_return hhead, ih,
      unifyLines_return (head?_ne hnext), List.flatMap_cons, hfeed, List.singleton_append]
  | case3 c text hpair hne ih =>
    have hc : '\r' ∉ (Markup.escapeChar c).toList :=
      not_mem_escapeChar (.inl (Ne.symm hne)) (by decide)
    rw [List.flatMap_cons, unifyLines_append_plain hc, ih, unifyLines_cons hne, List.flatMap_cons]
  | case4 => rfl

theorem allowed_escape (text : List Char) :
    Allowed (text.flatMap (fun c => (Markup.escapeChar c).toList)) ↔ Allowed text := by
  have hchar (c : Char) : Allowed (Markup.escapeChar c).toList ↔ isChar c = true := by
    rcases escapeChar_cases c with ⟨he, -⟩ | ⟨hc, hletters⟩
    · rw [he, Allowed, List.forall_mem_singleton]
    · have hspecial : Allowed ['&', '<', '>', '"'] := by decide
      have hallowed : Allowed "&;ampltgquo".toList := by decide
      exact ⟨fun _ => hspecial c hc, fun _ d hd => hallowed d (hletters hd)⟩
  simp only [allowed_flatMap, hchar]
  rfl

/-- An escaped text is reported as it is but for its line ends and tabs. -/
theorem reportsValue_escape {text : List Char} (h : Allowed text) :
    ReportsValue ((unifyLines text).flatMap (fun c => (Markup.escapeChar c).toList))
      (reportedText text) where
  noMarkup := by
    intro hmem
    obtain ⟨c, -, hc⟩ := List.mem_flatMap.1 hmem
    exact not_mem_escapeChar (.inr rfl) (by decide) hc
  spells := by
    rw [map_spaced_escape]
    exact Markup.spells_escape _
  allowed := allowed_reportedText h

end UpdateProtocol.Xml

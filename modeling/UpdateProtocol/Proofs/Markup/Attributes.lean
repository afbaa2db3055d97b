import UpdateProtocol.Proofs.Markup.Lexing
import UpdateProtocol.Markup.Scope

/-!
# The attributes of a tag

The reader of attributes finds in a tag its attributes in order, each with its value as it is
written (`TagLayout.attributes_tag`).  It must not meet a name twice if names have to be unique.
-/

namespace UpdateProtocol.Markup

namespace AttributeReader

/-- Reading `chars` leads to a state.  Its position, which only faults show, is left open. -/
def Leads (unique : Bool) (reader : AttributeReader) (chars : List Char) (mode : Mode)
    (seen : List (List Char × Nat)) (found : List (Except AttributeError Attribute)) : Prop :=
  ∃ position, chars.foldl (step unique) reader = ⟨mode, position, seen, found⟩

variable {unique : Bool} {seen : List (List Char × Nat)}
  {found : List (Except AttributeError Attribute)}

theorem leads_nil (mode : Mode) (position : Nat) :
    Leads unique ⟨mode, position, seen, found⟩ [] mode seen found :=
  ⟨position, rfl⟩

theorem Leads.append {reader : AttributeReader} {chars rest : List Char} {mode mode' : Mode}
    {seen' : List (List Char × Nat)} {found' : List (Except AttributeError Attribute)}
    (h : Leads unique reader chars mode seen found)
    (hrest : ∀ position, Leads unique ⟨mode, position, seen, found⟩ rest mode' seen' found') :
    Leads unique reader (chars ++ rest) mode' seen' found' := by
  obtain ⟨position, hchars⟩ := h
  obtain ⟨after, hafter⟩ := hrest position
  exact ⟨after, by rw [List.foldl_append, hchars, hafter]⟩

/-- Characters that leave the reader inside of the same thing. -/
theorem leads_of_step {mode : Mode} {chars : List Char}
    (h : ∀ c ∈ chars, ∀ position, read unique ⟨mode, position, seen, found⟩ c =
      ⟨mode, position, seen, found⟩) (position : Nat) :
    Leads unique ⟨mode, position, seen, found⟩ chars mode seen found := by
  induction chars generalizing position with
  | nil => exact leads_nil mode position
  | cons c chars ih =>
    have hstep : step unique ⟨mode, position, seen, found⟩ c =
        ⟨mode, position + c.utf8Size, seen, found⟩ := by
      rw [step, h c List.mem_cons_self]
    obtain ⟨after, hafter⟩ := ih (fun d hd => h d (List.mem_cons_of_mem c hd))
      (position + c.utf8Size)
    exact ⟨after, by rw [List.foldl_cons, hstep, hafter]⟩

theorem leads_singleton {mode mode' : Mode} {position position' : Nat} {c : Char}
    {seen' : List (List Char × Nat)} {found' : List (Except AttributeError Attribute)}
    (h : read unique ⟨mode, position, seen, found⟩ c = ⟨mode', position', seen', found'⟩) :
    Leads unique ⟨mode, position, seen, found⟩ [c] mode' seen' found' :=
  ⟨position + c.utf8Size, by simp [step, h]⟩

variable (unique seen found)

theorem leads_between (blanks : Blanks) (position : Nat) :
    Leads unique ⟨.between, position, seen, found⟩ blanks.chars .between seen found :=
  leads_of_step (fun c hc position => by simp [read, blanks.isBlank_of_mem hc]) position

theorem leads_name (name : Name) (position : Nat) :
    ∃ start, Leads unique ⟨.between, position, seen, found⟩ name.chars
      (.name start name.chars.reverse) seen found := by
  have inside (chars : List Char) (h : ∀ c ∈ chars, c ∈ name.chars) (start : Nat) :
      ∀ collected position, Leads unique ⟨.name start collected, position, seen, found⟩ chars
        (.name start (chars.reverse ++ collected)) seen found := by
    induction chars with
    | nil => exact fun collected position => leads_nil _ position
    | cons c chars ih =>
      intro collected position
      have hc := h c List.mem_cons_self
      have hread : read unique ⟨.name start collected, position, seen, found⟩ c =
          ⟨.name start (c :: collected), position, seen, found⟩ := by
        simp [read, name.not_isBlank_of_mem hc,
          name.ne_of_mem hc (by decide : isNameChar '=' = false)]
      have hchars := (leads_singleton hread).append
        (ih (fun d hd => h d (List.mem_cons_of_mem c hd)) (c :: collected))
      simpa using hchars
  obtain ⟨c, rest, hname, -⟩ := name.exists_cons
  have hread : read unique ⟨.between, position, seen, found⟩ c =
      ⟨.name position [c], position, seen, found⟩ := by
    simp [read, name.not_isBlank_of_mem (by simp [hname] : c ∈ name.chars)]
  have hchars := (leads_singleton hread).append
    (inside rest (fun d hd => by simp [hname, hd]) position [c])
  exact ⟨position, by simpa [hname] using hchars⟩

/-- The equals sign after a name ends it, with blanks before it or without. -/
theorem exists_named (name : Name) (blanks : Blanks) (start position : Nat) :
    ∃ mode last, (blanks.chars ++ ['=']).foldl (step unique)
        ⟨.name start name.chars.reverse, position, seen, found⟩ =
      { named unique ⟨mode, last, seen, found⟩ start name.chars with
        position := last + '='.utf8Size } := by
  have hafter (position : Nat) :
      step unique ⟨.afterName start name.chars, position, seen, found⟩ '=' =
        { named unique ⟨.afterName start name.chars, position, seen, found⟩ start name.chars with
          position := position + '='.utf8Size } := by
    simp [step, read]
  cases hblanks : blanks.chars with
  | nil =>
    refine ⟨.name start name.chars.reverse, position, ?_⟩
    simp [step, read]
  | cons c chars =>
    have hmem : ∀ d ∈ c :: chars, Text.isBlank d = true ∧ d ≠ '=' := fun d hd => by
      rw [← hblanks] at hd
      exact ⟨blanks.isBlank_of_mem hd, blanks.ne_of_mem hd⟩
    obtain ⟨hblank, hne⟩ := hmem c List.mem_cons_self
    have hread : read unique ⟨.name start name.chars.reverse, position, seen, found⟩ c =
        ⟨.afterName start name.chars, position, seen, found⟩ := by
      simp [read, hblank, hne]
    have hrest (position : Nat) : Leads unique ⟨.afterName start name.chars, position, seen, found⟩
        chars (.afterName start name.chars) seen found := by
      refine leads_of_step (fun d hd position => ?_) position
      obtain ⟨hblank, hne⟩ := hmem d (List.mem_cons_of_mem c hd)
      simp [read, hblank, hne]
    obtain ⟨last, hchars⟩ := (leads_singleton hread).append hrest
    refine ⟨.afterName start name.chars, last, ?_⟩
    rw [List.singleton_append] at hchars
    rw [List.foldl_append, hchars, List.foldl_cons, List.foldl_nil, hafter]

/-- A name that is new, where it has to be, is noted. -/
theorem leads_equals (name : Name) (blanks : Blanks) (start position : Nat)
    (h : unique = true → seen.lookup name.chars = none) :
    ∃ noted, (∀ other, other ≠ name.chars → noted.lookup other = seen.lookup other) ∧
      (unique = true → noted.lookup name.chars ≠ none) ∧
      Leads unique ⟨.name start name.chars.reverse, position, seen, found⟩
        (blanks.chars ++ ['=']) (.beforeValue name.chars) noted found := by
  obtain ⟨mode, last, hnamed⟩ := exists_named unique seen found name blanks start position
  cases unique with
  | false =>
    exact ⟨seen, fun _ _ => rfl, fun hu => Bool.noConfusion hu, _, hnamed⟩
  | true =>
    refine ⟨(name.chars, start) :: seen, fun other hne => ?_, fun _ => by simp,
      last + '='.utf8Size, ?_⟩
    · rw [List.lookup_cons, beq_false_of_ne hne]
    · rw [hnamed]
      simp only [named, h rfl, if_true]

theorem leads_value (attr : AttributeLayout) (position : Nat) :
    Leads unique ⟨.beforeValue attr.name.chars, position, seen, found⟩
      (attr.afterEquals.chars ++ [attr.quote.char] ++ attr.value ++ [attr.quote.char])
      .between seen (.ok attr.attribute :: found) := by
  have inside (value : List Char) (h : attr.quote.char ∉ value) :
      ∀ collected position,
        Leads unique ⟨.value attr.name.chars attr.quote.char collected, position, seen, found⟩
          value (.value attr.name.chars attr.quote.char (value.reverse ++ collected)) seen
          found := by
    induction value with
    | nil => exact fun collected position => leads_nil _ position
    | cons c value ih =>
      intro collected position
      obtain ⟨hc, hvalue⟩ := List.ne_and_not_mem_of_not_mem_cons h
      have hread : read unique
          ⟨.value attr.name.chars attr.quote.char collected, position, seen, found⟩ c =
            ⟨.value attr.name.chars attr.quote.char (c :: collected), position, seen, found⟩ := by
        simp [read, Ne.symm hc]
      simpa using (leads_singleton hread).append (ih hvalue (c :: collected))
  have hblanks : Leads unique ⟨.beforeValue attr.name.chars, position, seen, found⟩
      attr.afterEquals.chars (.beforeValue attr.name.chars) seen found :=
    leads_of_step (fun c hc position => by
      have hdouble : c ≠ '"' := attr.afterEquals.ne_of_mem hc
      have hsingle : c ≠ '\'' := attr.afterEquals.ne_of_mem hc
      simp [read, attr.afterEquals.isBlank_of_mem hc, hdouble, hsingle]) position
  have hopen (position : Nat) : read unique
      ⟨.beforeValue attr.name.chars, position, seen, found⟩ attr.quote.char =
        ⟨.value attr.name.chars attr.quote.char [], position, seen, found⟩ := by
    cases attr.quote <;> rfl
  have hclose (position : Nat) : read unique
      ⟨.value attr.name.chars attr.quote.char (attr.value.reverse ++ []), position, seen, found⟩
        attr.quote.char =
          ⟨.between, position, seen, .ok attr.attribute :: found⟩ := by
    simp [read, emit, AttributeLayout.attribute]
  exact ((hblanks.append fun position => leads_singleton (hopen position)).append
    fun position => inside attr.value attr.unquoted [] position).append
      fun position => leads_singleton (hclose position)

/-- An attribute adds itself to what has been found. -/
theorem leads_write (attr : AttributeLayout) (position : Nat)
    (h : unique = true → seen.lookup attr.name.chars = none) :
    ∃ noted, (∀ other, other ≠ attr.name.chars → noted.lookup other = seen.lookup other) ∧
      (unique = true → noted.lookup attr.name.chars ≠ none) ∧
      Leads unique ⟨.between, position, seen, found⟩ attr.write .between noted
        (.ok attr.attribute :: found) := by
  obtain ⟨afterBlanks, hblanks⟩ := leads_between unique seen found attr.before position
  obtain ⟨start, afterName, hname⟩ := leads_name unique seen found attr.name afterBlanks
  obtain ⟨noted, hother, hnoted, afterEquals, hequals⟩ :=
    leads_equals unique seen found attr.name attr.beforeEquals start afterName h
  obtain ⟨after, hvalue⟩ := leads_value unique noted found attr afterEquals
  have hwrite : attr.write = attr.before.chars ++ (attr.name.chars ++
      ((attr.beforeEquals.chars ++ ['=']) ++ (attr.afterEquals.chars ++ [attr.quote.char] ++
        attr.value ++ [attr.quote.char]))) := by
    simp [AttributeLayout.write]
  refine ⟨noted, hother, hnoted, after, ?_⟩
  rw [hwrite, List.foldl_append, hblanks, List.foldl_append, hname, List.foldl_append, hequals,
    hvalue]

theorem leads_attributes (attributes : List AttributeLayout) (position : Nat)
    (hnodup : unique = true → (attributes.map (fun attr => attr.name.chars)).Nodup)
    (hseen : unique = true → ∀ attr ∈ attributes, seen.lookup attr.name.chars = none) :
    ∃ noted, Leads unique ⟨.between, position, seen, found⟩
      (attributes.flatMap AttributeLayout.write) .between noted
        ((attributes.map (fun attr => .ok attr.attribute)).reverse ++ found) := by
  induction attributes generalizing position seen found with
  | nil => exact ⟨seen, leads_nil _ position⟩
  | cons attr attributes ih =>
    obtain ⟨noted, hother, -, after, hwrite⟩ := leads_write unique seen found attr position
      fun hu => hseen hu attr List.mem_cons_self
    have hnew (hu : unique = true) : ∀ other ∈ attributes,
        noted.lookup other.name.chars = none := by
      intro other hmem
      have hne : other.name.chars ≠ attr.name.chars := fun e =>
        (List.nodup_cons.1 (hnodup hu)).1 (List.mem_map.2 ⟨other, hmem, e⟩)
      rw [hother _ hne]
      exact hseen hu other (List.mem_cons_of_mem _ hmem)
    obtain ⟨all, last, hrest⟩ := ih noted (.ok attr.attribute :: found) after
      (fun hu => (List.nodup_cons.1 (hnodup hu)).2) hnew
    refine ⟨all, last, ?_⟩
    rw [List.flatMap_cons, List.foldl_append, hwrite, hrest]
    simp

/-! ### Repeated names -/

variable {found}

theorem found_subset_read (reader : AttributeReader) (c : Char) :
    reader.found ⊆ (reader.read unique c).found := by
  have hnamed (start : Nat) (name : List Char) :
      reader.found ⊆ (named unique reader start name).found := by
    rw [named]
    split
    · split
      · exact List.subset_cons_self _ _
      · exact List.Subset.refl _
    · exact List.Subset.refl _
  rw [read]
  split <;> repeat' split
  all_goals first
    | exact List.Subset.refl _
    | exact List.subset_cons_self _ _
    | exact hnamed _ _

theorem found_subset_foldl (reader : AttributeReader) (chars : List Char) :
    reader.found ⊆ (chars.foldl (step unique) reader).found := by
  induction chars generalizing reader with
  | nil => exact List.Subset.refl _
  | cons c chars ih =>
    exact List.Subset.trans (found_subset_read unique reader c) (ih (step unique reader c))

theorem found_subset_finish (reader : AttributeReader) : reader.found ⊆ reader.finish := by
  rw [finish]
  split <;> simp

variable {unique seen}

/-- Where no fault is found no name is repeated. -/
theorem nodup_of_found {attributes : List AttributeLayout} {position : Nat} {rest : List Char}
    (h : ∀ error, .error error ∉ ((attributes.flatMap AttributeLayout.write ++ rest).foldl
      (step true) ⟨.between, position, seen, found⟩).found) :
    (attributes.map (fun attr => attr.name.chars)).Nodup ∧
      ∀ attr ∈ attributes, seen.lookup attr.name.chars = none := by
  induction attributes generalizing position seen found with
  | nil => simp
  | cons attr attributes ih =>
    have hnew : seen.lookup attr.name.chars = none := by
      cases hseen : seen.lookup attr.name.chars with
      | none => rfl
      | some previous =>
        exfalso
        obtain ⟨afterBlanks, hblanks⟩ := leads_between true seen found attr.before position
        obtain ⟨start, afterName, hname⟩ := leads_name true seen found attr.name afterBlanks
        obtain ⟨mode, last, hnamed⟩ :=
          exists_named true seen found attr.name attr.beforeEquals start afterName
        have hwrite : (attr :: attributes).flatMap AttributeLayout.write ++ rest =
            attr.before.chars ++ (attr.name.chars ++ ((attr.beforeEquals.chars ++ ['=']) ++
              (attr.afterEquals.chars ++ [attr.quote.char] ++ attr.value ++ [attr.quote.char] ++
                attributes.flatMap AttributeLayout.write ++ rest))) := by
          simp [AttributeLayout.write]
        rw [hwrite, List.foldl_append, hblanks, List.foldl_append, hname, List.foldl_append,
          hnamed] at h
        refine h (.duplicated start previous) (found_subset_foldl true _ _ ?_)
        simp [named, hseen, emit]
    obtain ⟨noted, hother, hnoted, after, hwrite⟩ :=
      leads_write true seen found attr position fun _ => hnew
    rw [List.flatMap_cons, List.append_assoc, List.foldl_append, hwrite] at h
    obtain ⟨hnodup, hseen⟩ := ih h
    have hne : ∀ other ∈ attributes, other.name.chars ≠ attr.name.chars := fun other hmem e =>
      hnoted rfl (e ▸ hseen other hmem)
    refine ⟨List.nodup_cons.2 ⟨fun hmem => ?_, hnodup⟩, List.forall_mem_cons.2 ⟨hnew, ?_⟩⟩
    · obtain ⟨other, hmem, e⟩ := List.mem_map.1 hmem
      exact hne other hmem e
    · intro other hmem
      rw [← hother _ (hne other hmem)]
      exact hseen other hmem

end AttributeReader

theorem TagLayout.drop_content (tag : TagLayout) : tag.tag.content.drop tag.tag.name.length =
    tag.attributes.flatMap AttributeLayout.write ++ tag.after.chars := by
  rw [tag.name_tag]
  simp [TagLayout.tag, TagLayout.write]

/-- A reader finds the attributes of a tag as they are written. -/
theorem TagLayout.attributes_tag (tag : TagLayout) {unique : Bool}
    (h : unique = true → (tag.attributes.map (fun attr => attr.name.chars)).Nodup) :
    tag.tag.attributes unique = tag.attributes.map (fun attr => .ok attr.attribute) := by
  obtain ⟨noted, after, hattributes⟩ := AttributeReader.leads_attributes unique [] []
    tag.attributes (Text.byteLength tag.name.chars) h (fun _ _ _ => rfl)
  obtain ⟨last, hblanks⟩ := AttributeReader.leads_between unique noted
    ((tag.attributes.map (fun attr => .ok attr.attribute)).reverse ++ []) tag.after after
  rw [Tag.attributes, tag.drop_content, tag.name_tag, List.foldl_append, hattributes, hblanks]
  simp [AttributeReader.finish]

/-- A tag that is read without a fault repeats no name. -/
theorem TagLayout.nodup_of_attributes (tag : TagLayout) {attributes : List Attribute}
    (h : tag.tag.attributes true = attributes.map .ok) :
    (tag.attributes.map (fun attr => attr.name.chars)).Nodup := by
  rw [Tag.attributes, tag.drop_content] at h
  have hnone (error : AttributeError) : .error error ∉
      ((tag.attributes.flatMap AttributeLayout.write ++ tag.after.chars).foldl
        (AttributeReader.step true)
        ⟨.between, Text.byteLength tag.tag.name, [], []⟩).found := fun hmem => by
    have hmem := AttributeReader.found_subset_finish _ hmem
    rw [h] at hmem
    simp at hmem
  exact (AttributeReader.nodup_of_found hnone).1

end UpdateProtocol.Markup

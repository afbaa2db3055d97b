import UpdateProtocol.Proofs.CommandLine.Outcome
import UpdateProtocol.Proofs.Document.Deletion
import UpdateProtocol.Proofs.Message.Summary

/-!
# What an inspection prints

An inspection prints the line of each item of a response, once and in order, and prints the same for
a response that was written again (`summary_written`).  A line is not always one line of the output:
a text that is printed in it may hold line feeds, and each of them makes one more
(`lines_of_output`).
-/

namespace UpdateProtocol.CommandLine

variable {setting other : Setting} {arguments others : List String}
  {document written : ByteArray} {response : Response}

/-! ### The output of an inspection -/

/-- The arguments of a run name a document whose summary it is to print. -/
def Inspects (setting : Setting) (arguments : List String) (document : ByteArray) : Prop :=
  ∃ path, parse arguments = some (.inspect path) ∧ setting.Holds path document

theorem inspects_input (setting : Setting) : Inspects setting ["inspect", "-"] setting.input :=
  ⟨"-", by decide, .input⟩

theorem Inspects.run_eq (h : Inspects setting arguments document)
    (hdecode : Response.decode document = .ok response) :
    run setting arguments =
      { exitCode := 0
        output := String.join (response.summary.map (fun line => line ++ "\n")) } := by
  obtain ⟨path, hparse, hheld⟩ := h
  rw [run_inspect hparse hheld, hdecode]

/-- Responses with the same summary are printed alike. -/
theorem Inspects.run_congr (h : Inspects setting arguments document)
    (hdecode : Response.decode document = .ok response) (hother : Inspects other others written)
    {copy : Response} (hcopy : Response.decode written = .ok copy)
    (hsummary : copy.summary = response.summary) : run other others = run setting arguments := by
  rw [h.run_eq hdecode, hother.run_eq hcopy, hsummary]

/-! ### Every item once, also after a response is written again -/

/-- A summary is made of one block of lines for each application, in order.  The block depends on
the application alone: it has the line of each of its items, which are the application and, with an
update check, the download locations and, with a manifest, the manifest, the packages and the
actions.  What is written for a response has the same summary, and an inspection of it prints what
an inspection of any document with that response prints. -/
theorem summary_written (response : Response) :
    response.summary = response.apps.flatMap (fun app => app.items.map Item.line) ∧
    (∀ app : App, (app.items.map Item.line).length = app.itemCount) ∧
    ∀ text ∈ [response.encode, response.document], text.toUTF8.size ≤ maxDocumentSize →
      (∃ copy, Response.decode text.toUTF8 = .ok copy ∧ copy.summary = response.summary) ∧
      ∀ (setting other : Setting) (arguments others : List String) (document : ByteArray),
        Inspects setting arguments document → Response.decode document = .ok response →
        Inspects other others text.toUTF8 → run other others = run setting arguments := by
  refine ⟨?_, fun app => ?_, fun text htext hsize => ?_⟩
  · rw [Response.summary_eq, Response.items, List.map_flatMap]
  · rw [List.length_map, app.length_items]
  · have hcopy : Response.decode text.toUTF8 = .ok response.canon := by
      have h := Message.decode_written response (List.mem_pair.1 htext)
      rwa [if_neg (Nat.not_lt.2 hsize)] at h
    exact ⟨⟨_, hcopy, response.summary_canon⟩, fun _ _ _ _ _ hinspects hdecode hother =>
      hinspects.run_congr hdecode hother hcopy response.summary_canon⟩

/-- A setting in which standard input holds a document. -/
def Setting.piped (input : ByteArray) : Setting where
  files _ := .absent
  input := input
  environment _ := none
  session := "s"
  request := "r"

/-- A response in which an update check has a group of download locations without one. -/
def emptiedResponse : Response where
  protocol := ""
  server := ""
  apps := [{ updateCheck := some { urls := some {} } }]

/-- A document with this response. -/
def emptiedText : String :=
  "<response protocol=\"\" server=\"\"><daystart elapsed_seconds=\"0\"/><app><updatecheck>" ++
    "<urls></urls></updatecheck></app></response>"

set_option maxRecDepth 2000 in
theorem decode_emptiedText : Response.decode emptiedText.toUTF8 = .ok emptiedResponse := by
  let response : Response :=
    { protocol := "", server := "", apps := [{ updateCheck := some { urls := some ⟨[{}]⟩ } }] }
  have hurl := @Element.Deleted.inside .response [("protocol", .text ""), ("server", .text "")] _ _
    [response.daystart.toElement] [] _ _ (@Element.Deleted.inside .app [] _ _ [] [] _ _
      (@Element.Deleted.inside .updateCheck [] _ _ [] [] _ _
        (@Element.Deleted.child .urls [] (Url.toElement {}) [] [])))
  have hsize : (Message.encode response).toUTF8.size ≤ maxDocumentSize := by decide
  show Message.decode Response emptiedText.toUTF8 = _
  refine Message.decode_without_optional hurl ?_ hsize (by decide)
  decide

set_option maxRecDepth 2000 in
/-- The group is not written, and still both documents are printed alike. -/
theorem run_emptiedText :
    run (.piped emptiedResponse.encode.toUTF8) ["inspect", "-"] =
      run (.piped emptiedText.toUTF8) ["inspect", "-"] := by
  obtain ⟨-, -, hwritten⟩ := summary_written emptiedResponse
  obtain ⟨-, hrun⟩ := hwritten emptiedResponse.encode (List.mem_cons_self ..) (by decide)
  exact hrun _ _ _ _ _ (inspects_input _) decode_emptiedText (inspects_input _)

/-! ### Lines of the output -/

theorem length_splitOn {α : Type} [BEq α] (a : α) (items : List α) :
    (items.splitOn a).length = items.count a + 1 := by
  induction items with
  | nil => rfl
  | cons item items ih =>
    rw [List.splitOn_cons_eq_if_modifyHead, List.count_cons]
    split_ifs <;> simp [ih]

/-- The lines of a text that is made of parts with a line feed after each are the lines of the
parts. -/
theorem splitOn_join (parts : List String) :
    (String.join (parts.map (fun part => part ++ "\n"))).toList.splitOn '\n' =
      parts.flatMap (fun part => part.toList.splitOn '\n') ++ [[]] := by
  induction parts with
  | nil => rfl
  | cons part parts ih =>
    have hcons : (String.join ((part :: parts).map (fun part => part ++ "\n"))).toList =
        part.toList ++ '\n' :: (String.join (parts.map (fun part => part ++ "\n"))).toList := by
      simp [String.join_cons]
    rw [hcons, List.splitOn_append_cons_self, ih, List.flatMap_cons, List.append_assoc]

/-- A text without line feeds is one line. -/
theorem splitOn_eq_singleton_iff {chars : List Char} :
    chars.splitOn '\n' = [chars] ↔ '\n' ∉ chars := by
  refine ⟨fun h hmem => ?_, List.splitOn_eq_singleton⟩
  have hlength := length_splitOn '\n' chars
  rw [h, List.length_singleton] at hlength
  have := List.count_pos_iff.2 hmem
  omega

/-- The lines of items, and the line feeds in the texts that are printed in them. -/
theorem length_lines (items : List Item) :
    (items.flatMap fun item => item.line.toList.splitOn '\n').length =
      items.length + ((items.flatMap Item.texts).flatMap String.toList).count '\n' := by
  induction items with
  | nil => rfl
  | cons item items ih =>
    rw [List.flatMap_cons, List.length_append, ih, length_splitOn, Item.count_line,
      List.flatMap_cons, List.flatMap_append, List.count_append, List.length_cons]
    omega

/-- Every item has one line exactly if no printed text has a line feed. -/
theorem lines_eq_iff (items : List Item) :
    (items.flatMap fun item => item.line.toList.splitOn '\n') =
        items.map (fun item => item.line.toList) ↔
      ∀ item ∈ items, ∀ text ∈ item.texts, '\n' ∉ text.toList := by
  constructor
  · intro h item hitem text htext hmem
    have hlength := congrArg List.length h
    rw [length_lines, List.length_map] at hlength
    have hcount : 0 < ((items.flatMap Item.texts).flatMap String.toList).count '\n' :=
      List.count_pos_iff.2 (List.mem_flatMap.2
        ⟨text, List.mem_flatMap.2 ⟨item, hitem, htext⟩, hmem⟩)
    omega
  · intro h
    have hline : ∀ item ∈ items, item.line.toList.splitOn '\n' = [item.line.toList] := by
      intro item hitem
      rw [splitOn_eq_singleton_iff, ← List.count_eq_zero, Item.count_line, List.count_eq_zero,
        List.mem_flatMap]
      rintro ⟨text, htext, hmem⟩
      exact h item hitem text htext hmem
    rw [List.flatMap_congr hline, List.map_eq_flatMap]

/-- The output of an inspection, split at line feeds, is the lines of the items, split likewise, and
an empty rest.  It has a line for each item and one more for each line feed in a text that is
printed, so the lines are those of the items exactly if there is no such line feed. -/
theorem lines_of_output (h : Inspects setting arguments document)
    (hdecode : Response.decode document = .ok response) :
    (run setting arguments).output.toList.splitOn '\n' =
      response.items.flatMap (fun item => item.line.toList.splitOn '\n') ++ [[]] ∧
    ((run setting arguments).output.toList.splitOn '\n').length =
      response.items.length +
        ((response.items.flatMap Item.texts).flatMap String.toList).count '\n' + 1 ∧
    ((run setting arguments).output.toList.splitOn '\n' =
        response.items.map (fun item => item.line.toList) ++ [[]] ↔
      ∀ item ∈ response.items, ∀ text ∈ item.texts, '\n' ∉ text.toList) := by
  have hlines : (run setting arguments).output.toList.splitOn '\n' =
      response.items.flatMap (fun item => item.line.toList.splitOn '\n') ++ [[]] := by
    rw [h.run_eq hdecode, splitOn_join, response.summary_eq, List.flatMap_map]
  refine ⟨hlines, ?_, ?_⟩
  · rw [hlines, List.length_append, length_lines, List.length_singleton]
  · rw [hlines, List.append_left_inj, lines_eq_iff]

/-- A response about two applications. -/
def plainResponse : Response where
  apps := [{ id := "a", status := some (.known .ok) }, { id := "b", status := some (.known .ok) }]

set_option maxRecDepth 2000 in
theorem decode_plainResponse :
    Response.decode plainResponse.encode.toUTF8 = .ok plainResponse :=
  have hsize : ¬ maxDocumentSize < plainResponse.encode.toUTF8.size := by decide
  (Message.decode_written plainResponse (.inl rfl)).trans (if_neg hsize)

/-- Its output has a line for each of them. -/
theorem lines_of_plainResponse :
    (run (.piped plainResponse.encode.toUTF8) ["inspect", "-"]).output.toList.splitOn '\n' =
      ["a status=ok".toList, "b status=ok".toList, []] := by
  obtain ⟨-, -, hlines⟩ := lines_of_output (inspects_input (.piped plainResponse.encode.toUTF8))
    decode_plainResponse
  exact hlines.2 (by decide)

/-- A response about one application, whose id looks like the lines of two. -/
def forgedResponse : Response where
  apps := [{ id := "a status=ok\nb", status := some (.known .ok) }]

set_option maxRecDepth 2000 in
theorem decode_forgedResponse :
    Response.decode forgedResponse.encode.toUTF8 = .ok forgedResponse :=
  have hsize : ¬ maxDocumentSize < forgedResponse.encode.toUTF8.size := by decide
  (Message.decode_written forgedResponse (.inl rfl)).trans (if_neg hsize)

/-- A server can forge a line: an inspection of a response about one application prints what an
inspection of one about two applications prints. -/
theorem run_forgedResponse :
    Response.decode forgedResponse.encode.toUTF8 = .ok forgedResponse ∧
    forgedResponse.items.length = 1 ∧
    ((run (.piped forgedResponse.encode.toUTF8) ["inspect", "-"]).output.toList.splitOn
      '\n').length ≠ forgedResponse.items.length + 1 ∧
    run (.piped forgedResponse.encode.toUTF8) ["inspect", "-"] =
      run (.piped plainResponse.encode.toUTF8) ["inspect", "-"] := by
  have hforged :=
    (inspects_input (.piped forgedResponse.encode.toUTF8)).run_eq decode_forgedResponse
  have hplain := (inspects_input (.piped plainResponse.encode.toUTF8)).run_eq decode_plainResponse
  refine ⟨decode_forgedResponse, rfl, ?_, ?_⟩
  · rw [hforged]
    decide
  · rw [hforged, hplain]
    rfl

end UpdateProtocol.CommandLine

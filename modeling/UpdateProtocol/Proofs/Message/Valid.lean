import UpdateProtocol.Proofs.Element.Valid
import UpdateProtocol.Proofs.Message.Canonical

/-!
# The elements of messages are valid

Every part of a message is written as an element that follows the table, whatever its fields are.
-/

namespace UpdateProtocol

open Element (Compatible)

/-! ### Attributes -/

namespace Fits

variable {name : String} {required nullable : Bool} {attributes : List AttributeType}
  {values : List (String × Value)}

theorem text (content : String) (rest : Fits attributes values) :
    Fits (⟨name, .text, required, nullable⟩ :: attributes) (textAttribute name content ++ values) :=
  @Fits.present ⟨name, .text, required, nullable⟩ attributes (.text content) values trivial rest

theorem optional (content : String) (rest : Fits attributes values) :
    Fits (⟨name, .text, false, nullable⟩ :: attributes)
      (optionalAttribute name content ++ values) := by
  unfold optionalAttribute
  split
  · exact .absent rfl rest
  · exact @Fits.present ⟨name, .text, false, nullable⟩ attributes (.text content) values trivial
      rest

theorem code {κ : Type} [Vocabulary κ] (code : Option (Code κ)) (rest : Fits attributes values) :
    Fits (⟨name, .text, false, nullable⟩ :: attributes) (codeAttribute name code ++ values) := by
  cases code with
  | none => exact .absent rfl rest
  | some code =>
    exact @Fits.present ⟨name, .text, false, nullable⟩ attributes (.text code.token) values trivial
      rest

theorem flag (value : Bool) (rest : Fits attributes values) :
    Fits (⟨name, .flag, false, nullable⟩ :: attributes) (flagAttribute name value ++ values) :=
  @Fits.present ⟨name, .flag, false, nullable⟩ attributes (.flag value) values trivial rest

theorem mark (value : Bool) (rest : Fits attributes values) :
    Fits (⟨name, .flag, false, nullable⟩ :: attributes) (markAttribute name value ++ values) := by
  cases value with
  | false => exact .absent rfl rest
  | true => exact flag true rest

theorem size (bytes : UInt64) (rest : Fits attributes values) :
    Fits (⟨name, .size, required, nullable⟩ :: attributes) ((name, .size bytes) :: values) :=
  @Fits.present ⟨name, .size, required, nullable⟩ attributes (.size bytes) values trivial rest

theorem of_append_nil (h : Fits attributes (values ++ [])) : Fits attributes values := by
  rwa [List.append_nil] at h

end Fits

/-! ### Children -/

/-- Children of different types before the members of a list may stand together. -/
theorem pairwise_compatible {type : ElementType} (singles members : List Element)
    (hsingles : (singles.map Element.type).Nodup)
    (hmembers : ∀ child ∈ members, child.type ∉ type.children) :
    (singles ++ members).Pairwise (Compatible type) := by
  refine List.pairwise_append.2 ⟨?_, ?_, ?_⟩
  · exact (List.pairwise_map.1 hsingles).imp fun hne _ e => hne e.symm
  · exact List.pairwise_of_forall_mem_list fun child hchild _ _ hmem =>
      absurd hmem (hmembers child hchild)
  · exact fun child _ other hother hmem e => hmembers other hother (e ▸ hmem)

/-! ### Parts of messages -/

theorem Os.valid_toElement (os : Os) : os.toElement.Valid := by
  refine .intro (.of_append_nil ?_) (by simp) .nil (by simp)
  simp only [List.append_assoc]
  exact .optional _ (.optional _ (.optional _ (.optional _ .nil)))

theorem DayStart.valid_toElement (daystart : DayStart) : daystart.toElement.Valid :=
  .intro (.text _ .nil) (by simp) .nil (by simp)

theorem Ping.valid_toElement (ping : Ping) : ping.toElement.Valid := by
  refine .intro (.of_append_nil ?_) (by simp) .nil (by simp)
  simp only [List.append_assoc]
  exact .optional _ (.optional _ .nil)

theorem Event.valid_toElement (event : Event) : event.toElement.Valid := by
  refine .intro (.of_append_nil ?_) (by simp) .nil (by simp)
  simp only [List.append_assoc]
  exact .text _ (.text _ (.optional _ (.optional _ (.optional _ .nil))))

theorem Url.valid_toElement (url : Url) : url.toElement.Valid :=
  .intro (.text _ .nil) (by simp) .nil (by simp)

theorem Package.valid_toElement (package : Package) : package.toElement.Valid := by
  refine .intro (.of_append_nil ?_) (by simp) .nil (by simp)
  simp only [List.append_assoc]
  exact .text _ (.text _ (.size _ (.flag _ .nil)))

theorem Action.valid_toElement (action : Action) : action.toElement.Valid := by
  refine .intro (.of_append_nil ?_) (by simp) .nil (by simp)
  simp only [List.append_assoc]
  exact .text _ (.optional _ (.optional _ (.flag _ (.flag _ (.mark _ (.optional _ (.optional _
    (.optional _ .nil))))))))

/-- A list of parts, written one after the other. -/
theorem valid_list {α : Type} {f : α → Element} (type : ElementType) {part : ElementType}
    (hvalid : ∀ a, (f a).Valid) (htype : ∀ a, (f a).type = part)
    (hpart : type.member? = some part) (hattributes : Fits type.attributes []) (items : List α) :
    (Element.mk type [] (items.map f)).Valid := by
  have hmem : ∀ child ∈ items.map f, child.Valid ∧ child.type = part := fun child hchild => by
    obtain ⟨a, -, rfl⟩ := List.mem_map.1 hchild
    exact ⟨hvalid a, htype a⟩
  refine .intro hattributes (fun child hchild => .inr ?_) ?_
    fun child hchild => (hmem child hchild).1
  · rw [(hmem child hchild).2, hpart]
  · refine pairwise_compatible [] _ (by simp) fun child hchild => ?_
    rw [(hmem child hchild).2]
    exact ElementType.not_mem_children hpart

theorem Urls.valid_toElement (urls : Urls) : urls.toElement.Valid :=
  valid_list .urls Url.valid_toElement Url.type_toElement rfl .nil urls.urls

theorem Manifest.valid_toElement (manifest : Manifest) : manifest.toElement.Valid := by
  have hpackages := valid_list .packages Package.valid_toElement Package.type_toElement rfl .nil
    manifest.packages
  have hactions := valid_list .actions Action.valid_toElement Action.type_toElement rfl .nil
    manifest.actions
  refine .intro (.text _ .nil) (by simp [ElementType.children]) ?_ (by simp [hpackages, hactions])
  exact pairwise_compatible [_, _] [] (by simp) (by simp)

theorem UpdateCheck.valid_toElement (check : UpdateCheck) : check.toElement.Valid := by
  refine .intro (.of_append_nil ?_) ?_ ?_ ?_
  · simp only [List.append_assoc]
    exact .optional _ (.code _ .nil)
  · simp only [List.forall_mem_append, List.forall_mem_map]
    exact ⟨fun _ _ => .inl (by simp [ElementType.children]),
      fun _ _ => .inl (by simp [ElementType.children])⟩
  · rw [← List.append_nil (_ ++ _)]
    refine pairwise_compatible _ [] ?_ (by simp)
    rcases check.urls with _ | ⟨_ | _⟩ <;> cases check.manifest <;> simp
  · simp only [List.forall_mem_append, List.forall_mem_map]
    exact ⟨fun urls _ => urls.valid_toElement, fun manifest _ => manifest.valid_toElement⟩

theorem App.valid_toElement (app : App) : app.toElement.Valid := by
  refine .intro (.of_append_nil ?_) ?_ (pairwise_compatible _ _ ?_ ?_) ?_
  · simp only [List.append_assoc]
    exact .optional _ (.optional _ (.optional _ (.optional _ (.optional _ (.optional _ (.code _
      (.optional _ (.optional _ (.optional _ (.optional _ (.optional _ .nil)))))))))))
  · simp only [List.forall_mem_append, List.forall_mem_map]
    exact ⟨⟨fun _ _ => .inl (by simp [ElementType.children]),
      fun _ _ => .inl (by simp [ElementType.children])⟩, fun _ _ => .inr rfl⟩
  · cases app.ping <;> cases app.updateCheck <;> simp
  · simp [ElementType.children]
  · simp only [List.forall_mem_append, List.forall_mem_map]
    exact ⟨⟨fun ping _ => ping.valid_toElement, fun check _ => check.valid_toElement⟩,
      fun event _ => event.valid_toElement⟩

/-! ### Messages -/

theorem Request.valid_toElement (request : Request) : request.toElement.Valid := by
  refine .intro (.of_append_nil ?_) ?_ (pairwise_compatible _ _ ?_ ?_) ?_
  · simp only [List.append_assoc]
    exact .text _ (.optional _ (.optional _ (.optional _ (.optional _ (.optional _ (.optional _
      (.optional _ (.optional _ .nil))))))))
  · simp only [List.forall_mem_append, List.forall_mem_map]
    exact ⟨fun _ _ => .inl (by simp [ElementType.children]), fun _ _ => .inr rfl⟩
  · cases request.os <;> simp
  · simp [ElementType.children]
  · simp only [List.forall_mem_append, List.forall_mem_map]
    exact ⟨fun os _ => os.valid_toElement, fun app _ => app.valid_toElement⟩

theorem Response.valid_toElement (response : Response) : response.toElement.Valid := by
  refine .intro (.of_append_nil ?_) ?_ (pairwise_compatible [_] _ ?_ ?_) ?_
  · simp only [List.append_assoc]
    exact .text _ (.text _ .nil)
  · simp only [List.forall_mem_cons, List.forall_mem_map]
    exact ⟨.inl (by simp [ElementType.children]), fun _ _ => .inr rfl⟩
  · simp
  · simp [ElementType.children]
  · simp only [List.forall_mem_cons, List.forall_mem_map]
    exact ⟨response.daystart.valid_toElement, fun app _ => app.valid_toElement⟩

end UpdateProtocol

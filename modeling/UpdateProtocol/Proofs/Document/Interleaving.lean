import Mathlib.Data.List.Perm.Basic
import UpdateProtocol.Proofs.Document.Size
import UpdateProtocol.Proofs.Message.Wire

/-!
# The order of children

The children of an element may stand in any order that keeps the members of its list in theirs, at
every level.  A document that is rearranged like this is as large as before and decodes to the same
message (`decode_rearranged`).
-/

namespace UpdateProtocol

open Markup (Node)

namespace Element

/-- An element with its children and theirs in another order, in which the members of a list keep
their places among each other. -/
inductive Rearranged : Element → Element → Prop
  | intro {type : ElementType} {attributes : List (String × Value)}
      {children moved others : List Element} (each : List.Forall₂ Rearranged children moved)
      (perm : moved.Perm others)
      (order : ∀ part, type.member? = some part → ofType part moved = ofType part others) :
      Rearranged (mk type attributes children) (mk type attributes others)

variable {type part : ElementType} {children others : List Element} {element element' : Element}

theorem Rearranged.type_eq (h : Rearranged element element') : element'.type = element.type := by
  cases h
  rfl

theorem Rearranged.refl (element : Element) : Rearranged element element := by
  induction element using Element.induct with
  | step element ih =>
  obtain ⟨type, attributes, children⟩ := element
  exact .intro (List.forall₂_same.2 ih) (.refl _) fun _ _ => rfl

/-- Rearranging keeps an element valid. -/
theorem valid_of_rearranged (element : Element) :
    ∀ element', element.Valid → Rearranged element element' → element'.Valid := by
  induction element using Element.induct with
  | step element ih =>
  intro element' valid h
  cases h with
  | @intro type attributes children moved others each perm order =>
  cases valid with
  | intro fits known compatible valid =>
  have htypes := map_eq_of_forall₂ (f := Element.type) (g := Element.type) each Rearranged.type_eq
  refine .intro fits (fun child hchild => ?_) (perm.pairwise ?_ fun h => h.symm)
    fun child hchild => ?_
  · obtain ⟨old, hold, h⟩ := exists_of_forall₂ each (perm.mem_iff.2 hchild)
    rw [h.type_eq]
    exact known old hold
  · have h : (children.map Element.type).Pairwise (fun a b => a ∈ type.children → b ≠ a) :=
      List.pairwise_map.2 compatible
    rw [← htypes] at h
    exact (List.pairwise_map (f := Element.type)).1 h
  · obtain ⟨old, hold, h⟩ := exists_of_forall₂ each (perm.mem_iff.2 hchild)
    exact ih old hold child (valid old hold) h

/-- A child that may stand once stands once. -/
theorem length_ofType_le (compatible : children.Pairwise (Compatible type))
    (hpart : part ∈ type.children) : (ofType part children).length ≤ 1 := by
  have h := compatible.filter (fun child => child.type == part)
  have htypes : ∀ child ∈ ofType part children, child.type = part := fun child hchild => by
    simpa using (List.mem_filter.1 hchild).2
  rw [ofType] at htypes ⊢
  generalize children.filter (fun child => child.type == part) = found at h htypes
  rcases found with _ | ⟨first, _ | ⟨second, rest⟩⟩
  · simp
  · simp
  · obtain ⟨hfirst, hrest⟩ := List.forall_mem_cons.1 htypes
    obtain ⟨hsecond, -⟩ := List.forall_mem_cons.1 hrest
    have hne := (List.pairwise_cons.1 h).1 second List.mem_cons_self (hfirst ▸ hpart)
    exact absurd (hsecond.trans hfirst.symm) hne

/-- What is no member of the list stands once at most. -/
theorem Valid.length_ofType_le {attributes : List (String × Value)}
    (valid : (mk type attributes children).Valid) (hpart : type.member? ≠ some part) :
    (ofType part children).length ≤ 1 := by
  cases valid with
  | intro fits known compatible valid =>
  by_cases hchild : part ∈ type.children
  · exact Element.length_ofType_le compatible hchild
  · have hnone : ofType part children = [] := by
      refine List.filter_eq_nil_iff.2 fun child hmem htype => ?_
      have hknown := known child hmem
      rw [eq_of_beq htype] at hknown
      exact hknown.elim hchild hpart
    simp [hnone]

/-- Rearranging changes nothing that a message depends on. -/
theorem alike_of_rearranged (element : Element) :
    ∀ element', element.Valid → Rearranged element element' → Alike element element' := by
  induction element using Element.induct with
  | step element ih =>
  intro element' valid h
  cases h with
  | @intro type attributes children moved others each perm order =>
  have hmoved : List.Forall₂ Alike children moved := by
    cases valid with
    | intro fits known compatible valid =>
    exact forall₂_of_mem each fun child hchild child' => ih child hchild child' (valid child hchild)
  refine .intro rfl (fun _ => rfl) fun part => ?_
  have hpart := forall₂_ofType hmoved part
  by_cases hmember : type.member? = some part
  · exact order part hmember ▸ hpart
  · have hlength := valid.length_ofType_le hmember
    rw [hpart.length_eq] at hlength
    have hperm : (ofType part moved).Perm (ofType part others) := perm.filter _
    exact eq_of_perm_of_length_le hperm hlength ▸ hpart

/-! ### Texts -/

/-- Rearranging moves the characters of the text. -/
theorem write_perm_of_rearranged (element : Element) : ∀ element',
    Rearranged element element' → element.layout.write.Perm element'.layout.write := by
  induction element using Element.induct with
  | step element ih =>
  intro element' h
  cases h with
  | @intro type attributes children moved others each perm order =>
  have hchildren : List.Forall₂ (fun child child' => child.layout.write.Perm child'.layout.write)
      children moved := forall₂_of_mem each ih
  have hall : (Node.writeAll (layoutAll children)).Perm (Node.writeAll (layoutAll others)) := by
    rw [layoutAll_eq, layoutAll_eq, Node.writeAll_eq, Node.writeAll_eq, List.flatMap_map,
      List.flatMap_map]
    refine .trans ?_ (perm.flatMap_right _)
    exact List.Perm.flatten_congr
      (List.forall₂_map_left_iff.2 (List.forall₂_map_right_iff.2 hchildren))
  have hlength : children.length = others.length := each.length_eq.trans perm.length_eq
  rcases children with _ | ⟨child, children⟩
  · rw [List.length_nil, eq_comm, List.length_eq_zero_iff] at hlength
    subst hlength
    exact .refl _
  · obtain ⟨other, others, rfl⟩ := List.exists_cons_of_length_eq_add_one hlength.symm
    simp only [layoutAll] at hall
    rw [layout, layout, Node.write, Node.write]
    exact ((((hall.append_left _).append_right _).append_right _).append_right _).append_right _

theorem size_render_of_rearranged (valid : element.Valid) (h : Rearranged element element') :
    element'.render.toUTF8.size = element.render.toUTF8.size := by
  refine (size_eq_of_perm ?_).symm
  rw [toList_render valid, toList_render (valid_of_rearranged _ _ valid h)]
  exact write_perm_of_rearranged _ _ h

end Element

/-! ### Documents -/

open Element (Rearranged)

variable {header : String} {element : Element}

/-- A document with the children of a message rearranged decodes to the message, as the one that
was written does. -/
theorem Message.decode_of_rearranged {μ : Type} [Message μ] {message : μ}
    (h : Rearranged (toElement message) element) (hheader : IsHeader header)
    (hsize : (header ++ element.render).toUTF8.size ≤ maxDocumentSize) :
    decode μ (header ++ element.render).toUTF8 = .ok (canon message) ∧
      decode μ (header ++ encode message).toUTF8 = .ok (canon message) := by
  have valid := valid_toElement message
  have valid' := Element.valid_of_rearranged _ _ valid h
  have hroot : element.type = root μ := h.type_eq.trans (type_toElement message)
  have halike := Element.alike_of_rearranged _ _ valid h
  constructor
  · rw [decode_render hroot valid' hheader hsize, ofElement_alike halike, ofElement_toElement]
  · apply decode_header_encode message hheader
    rwa [size_append, encode, ← Element.size_render_of_rearranged valid h, ← size_append]

/-- The order of the children does not matter to a message, as long as the members of a list keep
theirs. -/
theorem decode_rearranged (hheader : IsHeader header)
    (hsize : (header ++ element.render).toUTF8.size ≤ maxDocumentSize) :
    (∀ request : Request, Rearranged request.toElement element →
      Request.decode (header ++ element.render).toUTF8 = .ok request.canon ∧
        Request.decode (header ++ request.encode).toUTF8 = .ok request.canon) ∧
    (∀ response : Response, Rearranged response.toElement element →
      Response.decode (header ++ element.render).toUTF8 = .ok response.canon ∧
        Response.decode (header ++ response.encode).toUTF8 = .ok response.canon) :=
  ⟨fun _ h => Message.decode_of_rearranged h hheader hsize,
    fun _ h => Message.decode_of_rearranged h hheader hsize⟩

/-- A request about two applications, the first of them with two events. -/
def interleavedRequest : Request where
  os := some { platform := "x" }
  apps := [{ id := "a", ping := some {}, events := [{}, { errorCode := "1" }] }, { id := "b" }]

/-- The request with its first application before the operating system and an event before the
ping. -/
def interleavedElement : Element :=
  .mk .request interleavedRequest.toElement.attributes
    [.mk .app (optionalAttribute "appid" "a")
        [Event.toElement {}, Ping.toElement {}, Event.toElement { errorCode := "1" }],
      Os.toElement { platform := "x" }, App.toElement { id := "b" }]

theorem rearranged_interleavedElement :
    Rearranged interleavedRequest.toElement interleavedElement := by
  have happ : Rearranged
      (App.toElement { id := "a", ping := some {}, events := [{}, { errorCode := "1" }] })
      (.mk .app (optionalAttribute "appid" "a")
        [Event.toElement {}, Ping.toElement {}, Event.toElement { errorCode := "1" }]) :=
    .intro (List.forall₂_same.2 fun child _ => .refl child) (.swap _ _ _)
      fun part hpart => by cases hpart; rfl
  exact .intro (.cons (.refl _) (.cons happ (.cons (.refl _) .nil))) (.swap _ _ _)
    fun part hpart => by cases hpart; rfl

set_option maxRecDepth 2000 in
theorem decode_interleavedElement :
    Request.decode (documentHeader ++ interleavedElement.render).toUTF8 =
      .ok interleavedRequest.canon :=
  ((decode_rearranged (.inr rfl) (by decide)).1 interleavedRequest
    rearranged_interleavedElement).1

end UpdateProtocol

import UpdateProtocol.Message.Summary
import UpdateProtocol.Proofs.Message.Canonical

/-!
# Items of a summary

A summary has one line for each item of a response: an application, a download location, a
manifest, a package or an action (`Response.summary_eq`).  It does not see what canonical forms
change (`Response.summary_canon`), and the only characters of a line that are not always the same
ones or digits come from the texts that are printed in it (`Item.count_line`).
-/

namespace UpdateProtocol

/-! ### Items -/

/-- What a line of a summary is about. -/
inductive Item where
  | ofApp (app : App)
  | ofUrl (url : Url)
  | ofManifest (manifest : Manifest)
  | ofPackage (package : Package)
  | ofAction (action : Action)

/-- The line of an item.  The one of an application says whether it has an update check. -/
def Item.line : Item → String
  | .ofApp app =>
      app.id ++ " status=" ++ Code.display app.status ++
        (app.updateCheck.map fun check => " update=" ++ Code.display check.status).getD ""
  | .ofUrl url => "  url " ++ url.codebase
  | .ofManifest manifest => "  manifest " ++ manifest.version
  | .ofPackage package =>
      "  package " ++ package.name ++ " size=" ++ toString package.size.toNat ++ " hash=" ++
        package.hash ++ " required=" ++ (if package.required then "true" else "false")
  | .ofAction action => "  action " ++ action.event

/-- The texts of a message that are printed in the line of an item. -/
def Item.texts : Item → List String
  | .ofApp app =>
      app.id :: Code.display app.status ::
        app.updateCheck.toList.map fun check => Code.display check.status
  | .ofUrl url => [url.codebase]
  | .ofManifest manifest => [manifest.version]
  | .ofPackage package => [package.name, package.hash]
  | .ofAction action => [action.event]

/-- A manifest, then its packages, then its actions. -/
def Manifest.items (manifest : Manifest) : List Item :=
  .ofManifest manifest :: (manifest.packages.map .ofPackage ++ manifest.actions.map .ofAction)

/-- The download locations of an update check, then the items of its manifest. -/
def UpdateCheck.items (check : UpdateCheck) : List Item :=
  check.urls.toList.flatMap (fun group => group.urls.map .ofUrl) ++
    check.manifest.toList.flatMap Manifest.items

/-- An application, then the items of its update check. -/
def App.items (app : App) : List Item :=
  .ofApp app :: app.updateCheck.toList.flatMap UpdateCheck.items

/-- The items of a response, application by application. -/
def Response.items (response : Response) : List Item :=
  response.apps.flatMap App.items

/-- How many items there are below an update check: each download location and, with a manifest,
the manifest itself, each package and each action. -/
def UpdateCheck.itemCount (check : UpdateCheck) : Nat :=
  check.codebases.length +
    match check.manifest with
    | some manifest => 1 + manifest.packages.length + manifest.actions.length
    | none => 0

/-- How many items there are of an application: itself and those of its update check. -/
def App.itemCount (app : App) : Nat :=
  match app.updateCheck with
  | some check => 1 + check.itemCount
  | none => 1

/-! ### One line for each item -/

theorem Package.summary_eq (package : Package) :
    package.summary = (Item.ofPackage package).line := rfl

theorem Manifest.summary_eq (manifest : Manifest) :
    manifest.summary = manifest.items.map Item.line := by
  simp only [summary, items, List.map_cons, List.map_append, List.map_map,
    funext Package.summary_eq]
  rfl

theorem UpdateCheck.summary_eq (check : UpdateCheck) :
    check.summary = check.items.map Item.line := by
  obtain ⟨_, _, urls, manifest⟩ := check
  rw [summary, items, List.map_append]
  congr 1
  · cases urls with
    | none => rfl
    | some group =>
      simp only [codebases, Option.toList_some, List.flatMap_singleton, List.map_map]
      rfl
  · cases manifest with
    | none => rfl
    | some manifest => simp [manifest.summary_eq]

theorem App.summary_eq (app : App) : app.summary = app.items.map Item.line := by
  rw [summary, items, List.map_cons]
  cases h : app.updateCheck with
  | none =>
    have hline : (Item.ofApp app).line = app.id ++ " status=" ++ Code.display app.status := by
      unfold Item.line
      simp [h]
    simp [hline]
  | some check =>
    have hline : (Item.ofApp app).line =
        app.id ++ " status=" ++ Code.display app.status ++ " update=" ++
          Code.display check.status := by
      unfold Item.line
      simp [h, String.append_assoc]
    simp [hline, check.summary_eq]

theorem Response.summary_eq (response : Response) :
    response.summary = response.items.map Item.line := by
  rw [summary, items, List.map_flatMap, funext App.summary_eq]

theorem UpdateCheck.length_items (check : UpdateCheck) :
    check.items.length = check.itemCount := by
  obtain ⟨_, _, urls, manifest⟩ := check
  cases urls <;> cases manifest <;>
    simp [items, itemCount, codebases, Manifest.items] <;> omega

theorem App.length_items (app : App) : app.items.length = app.itemCount := by
  simp only [items, itemCount, List.length_cons]
  cases app.updateCheck <;> simp [UpdateCheck.length_items, Nat.add_comm]

/-! ### Canonical forms -/

theorem Code.token_canon {κ : Type} [Vocabulary κ] (code : Code κ) :
    code.canon.token = code.token := by
  cases code with
  | known code => rfl
  | other token => exact token_ofToken token

theorem Code.display_canon {κ : Type} [Vocabulary κ] (code : Option (Code κ)) :
    display (code.map canon) = display code := by
  cases code with
  | none => rfl
  | some code => exact code.token_canon

/-- A group that is not written has no download locations. -/
theorem UpdateCheck.codebases_canon (check : UpdateCheck) :
    check.canon.codebases = check.codebases := by
  obtain ⟨_, _, urls, _⟩ := check
  cases urls with
  | none => rfl
  | some group =>
    by_cases hempty : group.urls = [] <;> simp [codebases, canon, Option.filter_some, hempty]

theorem UpdateCheck.summary_canon (check : UpdateCheck) : check.canon.summary = check.summary := by
  rw [summary, codebases_canon]
  rfl

theorem App.summary_canon (app : App) : app.canon.summary = app.summary := by
  simp only [summary, canon, Code.display_canon]
  cases app.updateCheck with
  | none => rfl
  | some check =>
    simp only [Option.map_some, check.summary_canon]
    rw [UpdateCheck.canon, Code.display_canon]

/-- A response and its canonical form have the same summary. -/
theorem Response.summary_canon (response : Response) :
    response.canon.summary = response.summary := by
  simp only [summary, canon, List.flatMap_map, App.summary_canon]

/-! ### Line ends in a line -/

namespace Item

theorem count_toDigits (n : Nat) : (Nat.toDigits 10 n).count '\n' = 0 :=
  List.count_eq_zero.2 fun hmem =>
    absurd (Nat.isDigit_of_mem_toDigits (by decide) (by decide) hmem) (by decide)

/-- The line ends in a line are those of the texts that are printed in it. -/
theorem count_line (item : Item) :
    item.line.toList.count '\n' = (item.texts.flatMap String.toList).count '\n' := by
  unfold line
  cases item with
  | ofApp app => cases h : app.updateCheck <;> simp [texts, h]
  | ofPackage package => cases h : package.required <;> simp [texts, count_toDigits, h]
  | _ => simp [texts]

end Item

end UpdateProtocol

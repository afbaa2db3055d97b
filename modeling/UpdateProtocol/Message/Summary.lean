import UpdateProtocol.Message.Build

/-!
# Summaries

A response is summarised by one block of lines per application: a line for the application and,
when it has an update check, a line for each download location, the manifest, each package and
each action.
-/

namespace UpdateProtocol

/-- A token, or a dash where there is none. -/
def Code.display {κ : Type} [Vocabulary κ] : Option (Code κ) → String
  | some code => code.token
  | none => "-"

/-- The line of a package. -/
def Package.summary (package : Package) : String :=
  "  package " ++ package.name ++ " size=" ++ toString package.size.toNat ++ " hash=" ++
    package.hash ++ " required=" ++ (if package.required then "true" else "false")

/-- The lines of a manifest: its version, its packages, its actions. -/
def Manifest.summary (manifest : Manifest) : List String :=
  ("  manifest " ++ manifest.version) :: manifest.packages.map Package.summary ++
    manifest.actions.map (fun action => "  action " ++ action.event)

/-- The lines of an update check below the line of its application. -/
def UpdateCheck.summary (check : UpdateCheck) : List String :=
  check.codebases.map (fun codebase => "  url " ++ codebase) ++
    (match check.manifest with
      | some manifest => manifest.summary
      | none => [])

/-- The block of one application. -/
def App.summary (app : App) : List String :=
  let line := app.id ++ " status=" ++ Code.display app.status
  match app.updateCheck with
  | none => [line]
  | some check => (line ++ " update=" ++ Code.display check.status) :: check.summary

/-- The blocks of a response's applications in order. -/
def Response.summary (response : Response) : List String :=
  response.apps.flatMap App.summary

end UpdateProtocol

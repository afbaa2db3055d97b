import UpdateProtocol.CommandLine
import UpdateProtocol.Uuid

/-!
# The program

Reads what a run depends on, performs it, and prints what it leaves behind.
-/

namespace UpdateProtocol.CommandLine

/-- Look at what stands at a path.  Nothing stands there if opening it fails because it, or a
directory on the way to it, does not exist. -/
def lookAt (path : String) : IO FileEntry := do
  try pure (.file (← IO.FS.readBinFile path))
  catch
    | .noFileOrDirectory _ _ _ | .inappropriateType (some _) _ _ => pure .absent
    | _ => pure .directory

/-- A new unique id. -/
def newUuid : IO String := do
  pure (Uuid.text (← IO.getRandomBytes 16).toList)

/-- The variables that a run looks at. -/
def readEnvironment : IO Environment := do
  let names := ["XDG_CONFIG_HOME", "HOME", "OMAHA_TRACK", "OMAHA_MACHINE_ID", "OMAHA_OEM"]
  let values ← names.filterMapM (fun name => do
    pure ((← IO.getEnv name).map (fun value => (name, value))))
  pure (fun name => values.lookup name)

end UpdateProtocol.CommandLine

open UpdateProtocol CommandLine

/-- Run the program with its arguments. -/
def main (arguments : List String) : IO UInt32 := do
  let environment ← readEnvironment
  let invocation := parse arguments
  let paths := match invocation with
    | some invocation => invocation.paths environment
    | none => []
  let entries ← paths.mapM (fun path => do pure (path, ← lookAt path))
  let input ← match invocation with
    | some (.inspect "-") => (← IO.getStdin).readBinToEnd
    | _ => pure .empty
  let setting : Setting :=
    { files := fun path => (entries.lookup path).getD .absent
      input
      environment
      session := ← newUuid
      request := ← newUuid }
  let outcome := run setting arguments
  (← IO.getStdout).putStr outcome.output
  let errors ← IO.getStderr
  match outcome.failure with
  | some failure =>
      errors.putStrLn failure.heading
      match failure.cause? with
      | some cause => errors.putStrLn ("\nCaused by:\n    " ++ cause)
      | none => pure ()
  | none => if outcome.exitCode != 0 then errors.putStr usage
  pure outcome.exitCode

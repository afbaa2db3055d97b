import UpdateProtocol.Message

/-!
# Hosts

Servers know some operating systems and processors under names of their own.
-/

namespace UpdateProtocol

/-- The name servers use for an operating system. -/
def Os.platformName (os : String) : String :=
  match os with
  | "macos" => "mac"
  | "windows" => "win"
  | other => other

/-- The name servers use for a processor architecture. -/
def Os.archName (arch : String) : String :=
  match arch with
  | "x86_64" => "x64"
  | "aarch64" => "arm64"
  | other => other

/-- A host described by the names of its operating system and processor. -/
def Os.ofHost (os arch : String) : Os :=
  { platform := Os.platformName os, arch := Os.archName arch }

/-- The host this library is built for. -/
def Os.current : Os := Os.ofHost "linux" "x86_64"

end UpdateProtocol

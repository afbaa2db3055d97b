/-!
# Paths

A path is a text.  Two paths are the same location when their components agree; doubled and trailing
separators and inner dots make no difference.
-/

namespace UpdateProtocol

namespace Path

/-- A relative path taken from a directory. -/
def join (directory relative : String) : String :=
  if directory.isEmpty || directory.endsWith "/" then directory ++ relative
  else directory ++ "/" ++ relative

/-- Whether a path starts at the root. -/
def isAbsolute (path : String) : Bool :=
  path.startsWith "/"

/-- The components of a path.  The root and a leading dot are components of their own. -/
def components (path : String) : List String :=
  let parts := path.splitOn "/"
  let start := if isAbsolute path then ["/"] else if parts.head? == some "." then ["."] else []
  start ++ parts.filter (fun part => part != "" && part != ".")

/-- Whether two paths are the same location. -/
def same (a b : String) : Bool :=
  components a == components b

end Path

end UpdateProtocol

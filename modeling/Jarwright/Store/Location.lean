import Jarwright.Store.Coordinate

/-!
# Where artifacts are kept

A repository keeps each artifact in a file of its own below its root, with a sidecar for the
metadata and a lock file next to it.
-/

namespace Jarwright.Store

/-- Variables by their names. -/
abbrev Variables := String → Option String

/-- The root of the repository when none is given: that of `ANVIL_REPOSITORY` unless it is empty, or
a place in the home directory, if there is one. -/
def defaultRoot? (environment : Variables) : Option String :=
  match environment "ANVIL_REPOSITORY" with
  | some "" | none =>
    (environment "HOME" <|> environment "USERPROFILE").map fun home =>
      Path.join (Path.join home ".anvil") "repository"
  | root => root

/-- The wording of a missing home directory. -/
def noHomeMessage : String := "failed to determine home directory for default repository path"

namespace Coordinate

/-- The file of an artifact. -/
def contentPath (c : Coordinate) (root : String) : String := Path.join root c.relativePath

/-- The sidecar of an artifact. -/
def sidecarPath (c : Coordinate) (root : String) : String := c.contentPath root ++ ".meta.json"

/-- The lock of an artifact. -/
def lockPath (c : Coordinate) (root : String) : String := c.contentPath root ++ ".lock"

end Coordinate

end Jarwright.Store

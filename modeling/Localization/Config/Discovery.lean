import Localization.Config.Reader
import Localization.FileSystem.Access

/-!
# Finding the configuration

The configuration of a directory is the nearest one on the way up from it.  The way ends at the
first directory that holds `.git`: a configuration beside it still counts, one above it does
not.
-/

namespace Localization.Config

/-- The configuration at the path or at the nearest of its parents, as far as `fuel` parents. -/
def findFrom (fs : FileSystem) : (fuel : Nat) → Path → Option Path
  | 0, _ => none
  | fuel + 1, directory =>
    let file := directory.join fileName
    if fs.exists file then some file
    else if fs.exists (directory.join ⟨".git"⟩) then none
    else directory.parent?.bind (findFrom fs fuel)

/-- The path of the configuration for a directory.  Every parent has a shorter path than the
directory, so that the length of the path bounds the number of parents. -/
def find? (fs : FileSystem) (directory : Path) : Option Path :=
  findFrom fs (directory.text.length + 1) directory

/-- A configuration and the file it was read from; there is none for the defaults. -/
structure Loaded where
  config : Config
  path : Option Path
  deriving DecidableEq, Repr

/-- The valid configuration in a file. -/
def readFile (fs : FileSystem) (file : Path) : Except Failure Config := do
  let text ← (fs.readText file).mapError (.unreadableConfig file)
  let config ← (ofJson text).mapError (.badConfig file)
  config.validate
  return config

/-- The configuration for a directory.  Where none is found, it is the default one; one that is
found and cannot be used is a failure. -/
def load (fs : FileSystem) (directory : Path) : Except Failure Loaded :=
  match find? fs directory with
  | some file => do
    let config ← readFile fs file
    return { config, path := some file }
  | none => .ok { config := {}, path := none }

end Localization.Config

import Localization.Failure
import Localization.FileSystem.Access

/-!
# Scanning a directory

`Scan.run` selects the source files below a directory: those with one of the given extensions,
except the ignored ones.  An ignore entry with a wildcard is a pattern for the path of a file
from the directory on; one without is the path of a file or of a whole directory.
-/

namespace Localization

/-- The compiled ignore entries: paths and patterns. -/
structure Ignores where
  paths : List Path
  globs : List Glob
  deriving Repr

namespace Ignores

/-- The entries with a wildcard are patterns, the others are paths. -/
def compile (entries : List String) : Except Failure Ignores := do
  let globs ← (entries.filter Glob.hasWildcard).mapM fun entry =>
    (Glob.compile entry).mapError (.badIgnore entry)
  return { paths := (entries.filter (!Glob.hasWildcard ·)).map Path.mk, globs }

/-- The file at this path below the directory is ignored. -/
def covers (ignores : Ignores) (relative : Path) : Bool :=
  ignores.paths.any (relative.startsWith ·)
    || ignores.globs.any (·.accepts relative.slashForm)

end Ignores

/-- A selected source file. -/
structure SourceFile where
  /-- The path by which the file is read. -/
  path : Path
  /-- The path from the scanned directory on, in slash form. -/
  relative : String
  deriving DecidableEq, Repr

/-- The files that a scan selects, in increasing order of their relative paths, and the number
of files that it ignores. -/
structure Scan where
  files : List SourceFile
  ignored : Nat
  deriving DecidableEq, Repr

namespace Scan

/-- The last of the names has one of the extensions. -/
def hasExtension (extensions : List String) (names : Location) : Bool :=
  (names.getLast?.bind Path.extension?).any extensions.contains

/-- The entry counts as a file: a file, or a link that does not lead to a directory. -/
def isFile (fs : FileSystem) (path : Path) : Entry → Bool
  | .file _ => true
  | .directory => false
  | .link _ => !fs.isDirectory path

/-- The names, from a directory down, of the files below it that have one of the extensions. -/
def candidates (fs : FileSystem) (root : Path) (directory : Location)
    (extensions : List String) : List Location :=
  fs.entries.entries.filterMap fun (l, e) =>
    (directory.isPrefixOf? l).filter fun names =>
      hasExtension extensions names && isFile fs (root.join (.ofNames names)) e

/-- The source file at these names below a directory. -/
def sourceFile (root : Path) (names : Location) : SourceFile where
  path := root.join (.ofNames names)
  relative := (Path.ofNames names).slashForm

/-- The files with one more file in its place: in front of the first that is not before it. -/
def insertFile (file : SourceFile) : List SourceFile → List SourceFile
  | [] => [file]
  | f :: fs => if file.relative ≤ f.relative then file :: f :: fs else f :: insertFile file fs

/-- The files in increasing order of their relative paths. -/
def sortFiles (files : List SourceFile) : List SourceFile :=
  files.foldr insertFile []

/-- The location of the directory to which a path leads. -/
def directory (fs : FileSystem) (root : Path) : Except Failure Location :=
  match fs.resolve root with
  | .ok l => if fs.get? l = some .directory then .ok l else .error (.notDirectory root)
  | .error _ => .error (.notDirectory root)

/-- Selects the source files below a directory. -/
def run (fs : FileSystem) (root : Path) (extensions ignores : List String) :
    Except Failure Scan := do
  let ignores ← Ignores.compile ignores
  let l ← directory fs root
  let (ignored, kept) :=
    (candidates fs root l extensions).partition fun names => ignores.covers (.ofNames names)
  return {
    files := sortFiles (kept.map (sourceFile root))
    ignored := ignored.length }

end Scan
end Localization

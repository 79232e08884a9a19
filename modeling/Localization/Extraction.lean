import Localization.Catalog
import Localization.Scan
import Localization.Text.Utf8

/-!
# Extraction

`Extraction.run` reads the records of all source files that a scan of a directory selects, and
gives them as one catalog.  A file that cannot be read fails the whole extraction.
-/

namespace Localization

/-- What to extract: from files with which extensions, except which files, and the elements of
which component. -/
structure ExtractionOptions where
  extensions : List String
  ignores : List String
  component : String
  deriving DecidableEq, Repr

/-- The records of a directory, and how many files were selected and ignored. -/
structure Extraction where
  catalog : Catalog
  scanned : Nat
  ignored : Nat
  deriving DecidableEq, Repr

namespace Extraction

/-- The records of a source file. -/
def fileRecords (fs : FileSystem) (component : Component) (file : SourceFile) :
    Except Failure (List Record) := do
  let bytes ← (fs.read file.path).mapError (.unreadableSource file.path)
  return Record.ofSource component file.relative (Text.Utf8.decode bytes)

/-- The component of this name. -/
def component (name : String) : Except Failure Component :=
  match Component.ofName? name with
  | some c => .ok c
  | none => .error .blankMarker

/-- Extracts the records of a directory. -/
def run (fs : FileSystem) (root : Path) (options : ExtractionOptions) :
    Except Failure Extraction := do
  let component ← component options.component
  let scan ← Scan.run fs root options.extensions options.ignores
  let perFile ← scan.files.mapM (fileRecords fs component)
  return {
    catalog := .ofFiles perFile
    scanned := scan.files.length
    ignored := scan.ignored }

end Extraction
end Localization

import Localization.Attribute
import Localization.Comment
import Localization.Marker

/-!
# Records and catalogs

A `Record` is what one marker of a source file declares: the file and the attributes of the
marker.  `Record.ofSource` reads the records of a source text, and a `Catalog` is the records
of several files, one file after the other.
-/

namespace Localization

/-- The attributes of a marker together with the file it was found in. -/
structure Record extends Attributes where
  file : String
  deriving DecidableEq, Inhabited, Repr

/-- The records of a source text: one for each marker that is left when the comments that start
a line have been dropped. -/
def Record.ofSource (component : Component) (file : String) (source : String) : List Record :=
  (Marker.findAll component (Comment.strip source.toList)).map fun marker =>
    { Attributes.ofMarker marker with file }

/-- The records found in a project, in order. -/
structure Catalog where
  records : List Record
  deriving DecidableEq, Inhabited, Repr

namespace Catalog

/-- The catalog of the records of each file. -/
def ofFiles (perFile : List (List Record)) : Catalog :=
  ⟨perFile.flatten⟩

/-- The number of records. -/
def size (catalog : Catalog) : Nat :=
  catalog.records.length

/-- The number of records without an id. -/
def missingIds (catalog : Catalog) : Nat :=
  catalog.records.countP (·.id.isNone)

end Catalog
end Localization

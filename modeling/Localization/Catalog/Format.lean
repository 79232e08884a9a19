import Localization.Catalog
import Localization.Json.Value
import Localization.Table

/-!
# Written catalogs

A catalog is written in one of three formats.  `Catalog.toKeyValue` is a JSON object from ids
to messages, in which a later record overwrites an earlier one with the same id; `Catalog.toCsv`
is one row of four quoted fields per record; `Catalog.toJson` is a JSON array with all that a
record holds.
-/

namespace Localization

/-- The formats in which a catalog is written. -/
inductive Format where
  | keyValue
  | csv
  | json
  deriving DecidableEq, Inhabited, Repr

namespace Format

/-- The name of a format on the command line and in configurations. -/
def name : Format → String
  | keyValue => "key-value"
  | csv => "csv"
  | json => "json"

/-- The format of a name. -/
def ofName? (name : String) : Option Format :=
  [keyValue, csv, json].find? (·.name = name)

end Format

/-! ### Comma-separated values -/

namespace Csv

/-- A field in quotes, with each quote inside it doubled. -/
def field (text : String) : List Char :=
  '"' :: text.toList.flatMap (fun c => if c = '"' then ['"', '"'] else [c]) ++ ['"']

/-- The fields of a row, separated by commas. -/
def row (fields : List String) : List Char :=
  [','].intercalate (fields.map field)

/-- The rows of a table, separated by line breaks. -/
def render (rows : List (List String)) : List Char :=
  ['\n'].intercalate (rows.map row)

end Csv

namespace Catalog

/-- The fields of a record's row.  A missing attribute is the empty text. -/
def csvFields (r : Record) : List String :=
  [r.id.getD "", r.defaultMessage.getD "", r.description.getD "", r.file]

/-- The catalog as comma-separated values: id, default message, description and file. -/
def toCsv (catalog : Catalog) : String :=
  .ofList (Csv.render (catalog.records.map csvFields))

/-! ### JSON -/

/-- The key under which messages without an id are stored. -/
def missingIdKey : String := "null"

/-- The messages of the catalog by key.  The last record with a key gives its message. -/
def messages (catalog : Catalog) : Table String (Option String) :=
  .ofList (catalog.records.map fun r => (r.id.getD missingIdKey, r.defaultMessage))

/-- The catalog as a JSON object of messages. -/
def toKeyValue (catalog : Catalog) : String :=
  (Json.Value.object
    (catalog.messages.entries.map fun e => (e.1, Json.Value.ofString? e.2))).pretty

/-- A record as a JSON object. -/
def recordValue (r : Record) : Json.Value :=
  .object [
    ("file", .string r.file),
    ("id", .ofString? r.id),
    ("description", .ofString? r.description),
    ("defaultMessage", .ofString? r.defaultMessage)]

/-- The catalog as a JSON array of records. -/
def toJson (catalog : Catalog) : String :=
  (Json.Value.array (catalog.records.map recordValue)).pretty

/-- The catalog in a format. -/
def render (catalog : Catalog) : Format → String
  | .keyValue => catalog.toKeyValue
  | .csv => catalog.toCsv
  | .json => catalog.toJson

end Catalog
end Localization

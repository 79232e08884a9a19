import Localization.Catalog
import Localization.Json.Reader

/-!
# Reading catalogs

A catalog is read from a JSON array of records.  A record is an object, in which a missing
attribute is the same as `null`, or an array of its four fields in order.
-/

namespace Localization

namespace Record

/-- The fields of a record that have been read so far. -/
structure Draft where
  file : Option String := none
  id : Option (Option String) := none
  description : Option (Option String) := none
  defaultMessage : Option (Option String) := none

/-- The record of a draft.  The file must be there. -/
def Draft.complete (d : Draft) : Except Json.Fault Record :=
  match d.file with
  | none => .error .mistyped
  | some file => .ok {
      file
      id := d.id.join
      description := d.description.join
      defaultMessage := d.defaultMessage.join }

/-- Reads a member of a record. -/
def readMember : Json.MemberReader Draft := fun key d =>
  match key with
  | "file" => Json.once d.file Json.string fun x => { d with file := some x }
  | "id" => Json.once d.id Json.string? fun x => { d with id := some x }
  | "description" => Json.once d.description Json.string? fun x => { d with description := some x }
  | "defaultMessage" =>
    Json.once d.defaultMessage Json.string? fun x => { d with defaultMessage := some x }
  | _ => Json.value fun text => do
    let ((), rest) ← Json.skipValue text
    return (d, rest)

/-- Reads an item of an array that must be there. -/
def requireItem {α : Type} (read : Json.Reader α) (first : Bool) : Json.Reader α := fun text => do
  match ← Json.item? read first text with
  | (some a, rest) => return (a, rest)
  | (none, _) => .error .mistyped

/-- Reads the fields of a record in order. -/
def readItems : Json.Reader Record := fun text => do
  let (file, text) ← requireItem Json.string true text
  let (id, text) ← requireItem Json.string? false text
  let (description, text) ← requireItem Json.string? false text
  let (defaultMessage, text) ← requireItem Json.string? false text
  return ({ file, id, description, defaultMessage }, ← Json.endItems text)

/-- Reads a record. -/
def read : Json.Reader Record := fun text =>
  match Json.skipSpace text with
  | '{' :: cs => do
    let (d, rest) ← Json.members readMember {} cs
    return (← d.complete, rest)
  | '[' :: cs => readItems cs
  | cs => .error (Json.misfit cs)

end Record

/-- The catalog that a text holds. -/
def Catalog.ofJson (text : String) : Except Json.Fault Catalog :=
  (Json.document (Json.array Record.read) text).map Catalog.mk

end Localization

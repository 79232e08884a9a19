import Localization.Catalog.Format
import Localization.Catalog.Reader
import Localization.Proofs.Json.Arrays

/-!
# Catalogs are read back from JSON

A written record is read back field by field: each field is met once, and so the `Record.Draft`
grows from the empty one to the whole record (`Record.reads_members`).  A catalog is an array
of records, and reading its JSON gives the catalog (`Catalog.ofJson_toJson`): a missing
attribute, which is written as `null`, is not mixed up with an empty text.
-/

namespace Localization

namespace Record

open Json

/-- The members of a written record are its fields, each of them once. -/
theorem reads_members (depth : Nat) (r : Record) :
  Reads readMember depth [
      ("file", .string r.file),
      ("id", .ofString? r.id),
      ("description", .ofString? r.description),
      ("defaultMessage", .ofString? r.defaultMessage)]
    {} {
      file := some r.file
      id := some r.id
      description := some r.description
      defaultMessage := some r.defaultMessage }
  := by
  have hspace : ∀ c ∈ [' '], isSpace c := by simp [isSpace]
  have hstring := string_prettyAt [' '] hspace depth
  have hstring? := string?_prettyAt [' '] hspace depth
  let d₀ : Draft := {}
  let d₁ : Draft := { d₀ with file := some r.file }
  let d₂ : Draft := { d₁ with id := some r.id }
  let d₃ : Draft := { d₂ with description := some r.description }
  apply Reads.cons fun rest => once_none (hstring r.file rest) fun x => { d₀ with file := some x }
  apply Reads.cons fun rest => once_none (hstring? r.id rest) fun x => { d₁ with id := some x }
  apply Reads.cons fun rest => once_none (hstring? r.description rest) fun x =>
    { d₂ with description := some x }
  apply Reads.cons fun rest => once_none (hstring? r.defaultMessage rest) fun x =>
    { d₃ with defaultMessage := some x }
  apply Reads.nil

/-- A written record is read back. -/
theorem read_prettyAt (depth : Nat) (r : Record) (rest : List Char) :
  read ((Catalog.recordValue r).prettyAt depth ++ rest) = .ok (r, rest)
  := by
  obtain ⟨text, htext, hmembers⟩ := members_prettyAt_of_reads (reads_members (depth + 1) r) rest
  rw [Catalog.recordValue, htext, read, skipSpace_cons (by decide)]
  change (members readMember {} text >>= fun p => p.1.complete >>= fun r => pure (r, p.2)) = _
  rw [hmembers]
  rfl

end Record

/-- A catalog is read back from its JSON. -/
theorem Catalog.ofJson_toJson (catalog : Catalog) :
  ofJson catalog.toJson = .ok catalog
  := by
  have hread := Json.array_prettyAt (Record.read_prettyAt 1) catalog.records []
  rw [List.append_nil] at hread
  rw [ofJson, toJson, Json.document, Json.Value.pretty, String.toList_ofList, hread]
  rfl

end Localization

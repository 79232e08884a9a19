import Localization.Catalog.Format
import Localization.Proofs.Json.Objects
import Localization.Proofs.Table.Lookup

/-!
# The key-value form of a catalog

The key-value form of a catalog is an object with one member for each key, in the order of the
first record under it, and with the message of the last record under it, `Catalog.last?`.  An
object read with its members in order, `Json.readEntry`, shows exactly this
(`entries_toKeyValue`).
-/

namespace Localization

/-! ### Members in order -/

/-- Reads a member whose value is a string or `null`, and puts it after those read before. -/
def Json.readEntry : MemberReader (List (String × Option String)) := fun key entries text => do
  let (value, rest) ← value string? text
  return (entries ++ [(key, value)], rest)

theorem Json.readEntry_afterKey (key : String) (entries : List (String × Option String))
    (depth : Nat) (value : Option String) (rest : List Char) :
  readEntry key entries (afterKey depth (Value.ofString? value) rest)
    = .ok (entries ++ [(key, value)], rest)
  := by
  rw [readEntry, value_string?_afterKey]
  rfl

/-- The members of a written object are read in order, each as it was. -/
theorem Json.document_readEntry_pretty (entries : List (String × Option String)) :
  document (object readEntry [])
      (Value.object (entries.map fun e => (e.1, Value.ofString? e.2))).pretty
    = .ok entries
  := by
  rw [document_object_pretty (fun e : String × Option String => (e.1, Value.ofString? e.2))
    (fun e entries rest => readEntry_afterKey e.1 entries 1 e.2 rest)]
  have happend : ∀ es fs : List (String × Option String),
      es.foldl (fun entries e => entries ++ [(e.1, e.2)]) fs = fs ++ es := by
    intro es
    induction es with
    | nil => simp
    | cons e es ih =>
      intro fs
      rw [List.foldl_cons, ih, List.append_assoc]
      rfl
  rw [happend, List.nil_append]

namespace Catalog

/-! ### Keys -/

/-- The keys of the records, in order: the id of each, or `missingIdKey` when it has none. -/
def keys (catalog : Catalog) : List String :=
  catalog.records.map fun r => r.id.getD missingIdKey

/-- The last record under a key: its id, or `missingIdKey` when it has none. -/
def last? (catalog : Catalog) (key : String) : Option Record :=
  catalog.records.reverse.find? fun r => r.id.getD missingIdKey = key

theorem get?_messages (catalog : Catalog) (key : String) :
  catalog.messages.get? key = (catalog.last? key).map (·.defaultMessage)
  := by
  rw [messages, Table.get?_ofList, ← List.map_reverse, Table.lookup_map, last?]

theorem last?_eq_some_iff {catalog : Catalog} {key : String} {r : Record} :
  catalog.last? key = some r
    ↔ ∃ before after, catalog.records = before ++ r :: after ∧ r.id.getD missingIdKey = key
      ∧ ∀ s ∈ after, s.id.getD missingIdKey ≠ key
  := by
  rw [last?, List.find?_eq_some_iff_append]
  simp only [decide_eq_true_eq, Bool.not_eq_true', decide_eq_false_iff_not]
  constructor
  · rintro ⟨hr, after, before, hrecords, hafter⟩
    use before.reverse, after.reverse
    rw [List.reverse_eq_iff] at hrecords
    use by simp [hrecords], hr
    simpa using hafter
  · rintro ⟨before, after, hrecords, hr, hafter⟩
    use hr, after.reverse, before.reverse
    use by simp [hrecords]
    simpa using hafter

/-- The key-value form of a catalog, read as an object with its members in order, has each key of
a record once, in the order of the first records, and with the message of its last record. -/
theorem entries_toKeyValue (catalog : Catalog) :
  ∃ entries, Json.document (Json.object Json.readEntry []) catalog.toKeyValue = .ok entries
    ∧ (entries.map Prod.fst).Nodup
    ∧ (∀ key, key ∈ entries.map Prod.fst ↔ key ∈ catalog.keys)
    ∧ (entries.map Prod.fst).Pairwise (fun j k => catalog.keys.idxOf j < catalog.keys.idxOf k)
    ∧ ∀ key message, (key, message) ∈ entries
      ↔ ∃ before r after, catalog.records = before ++ r :: after
        ∧ r.id.getD missingIdKey = key ∧ (∀ s ∈ after, s.id.getD missingIdKey ≠ key)
        ∧ r.defaultMessage = message
  := by
  have hkeys : (catalog.records.map fun r => (r.id.getD missingIdKey, r.defaultMessage)).map
      Prod.fst = catalog.keys := by
    simp [keys]
  use catalog.messages.entries, Json.document_readEntry_pretty _, catalog.messages.nodup
  refine ⟨?_, ?_, ?_⟩
  · intro key
    rw [← hkeys]
    apply Table.mem_keys_ofList
  · rw [← hkeys]
    apply Table.pairwise_keys_ofList
  · intro key message
    rw [← Table.get?_eq_some_iff_mem, get?_messages, Option.map_eq_some_iff]
    simp only [last?_eq_some_iff]
    constructor
    · rintro ⟨r, ⟨before, after, hr⟩, hm⟩
      use before, r, after, hr.1, hr.2.1, hr.2.2
    · rintro ⟨before, r, after, hrecords, hr, hafter, hm⟩
      use r, ⟨before, after, hrecords, hr, hafter⟩

/-- A record without an id has its member in common with one whose id is `null`. -/
example :
  (Json.document (Json.object Json.readEntry []) (toKeyValue ⟨[{ file := "a", defaultMessage := "A" },
      { file := "a", id := "b" }, { file := "c", id := "null", defaultMessage := "\"N\"" }]⟩)).toOption
    = some [("null", some "\"N\""), ("b", none)]
  := by decide +kernel

end Catalog
end Localization

import Localization.Proofs.Attribute.Spelling
import Localization.Proofs.Table.Lookup

/-!
# Attributes as entries

`Attributes.entries` are the attributes of a message that are present, each with its name.  Of a
marker they are what is found when their names are looked for (`lookup_entries_ofMarker`).
-/

namespace Localization.Attributes

/-- The names by which a marker describes a message. -/
def names : List (List Char) :=
  ["id".toList, "description".toList, "defaultMessage".toList]

theorem isName_of_mem_names :
  ∀ name ∈ names, Attribute.IsName name
  := by decide

/-- The attributes that are present, with their names. -/
def entries (a : Attributes) : List (List Char × List Char) :=
  [("id", a.id), ("description", a.description), ("defaultMessage", a.defaultMessage)].filterMap
    fun e => e.2.map fun value => (e.1.toList, value.toList)

theorem map_fst_entries_sublist (a : Attributes) :
  (a.entries.map Prod.fst).Sublist names
  := by
  obtain ⟨_ | _, _ | _, _ | _⟩ := a
  all_goals
    simp only [entries, names, List.filterMap_cons, List.filterMap_nil, Option.map_none,
      Option.map_some, List.map_cons, List.map_nil]
    simp

theorem nodup_map_fst_entries (a : Attributes) :
  (a.entries.map Prod.fst).Nodup
  := a.map_fst_entries_sublist.nodup (by decide)

theorem lookup_entries (a : Attributes) :
  a.entries.lookup "id".toList = a.id.map String.toList
    ∧ a.entries.lookup "description".toList = a.description.map String.toList
    ∧ a.entries.lookup "defaultMessage".toList = a.defaultMessage.map String.toList
  := by
  obtain ⟨_ | _, _ | _, _ | _⟩ := a
  all_goals simp [entries, List.lookup_cons]

theorem lookup_entries_ofMarker (marker : List Char) {name : List Char} (hn : name ∈ names) :
  (ofMarker marker).entries.lookup name = Attribute.value? name marker
  := by
  obtain ⟨hid, hdescription, hmessage⟩ := (ofMarker marker).lookup_entries
  simp only [names, List.mem_cons, List.not_mem_nil, or_false] at hn
  obtain rfl | rfl | rfl := hn
  · rw [hid]
    simp [ofMarker]
  · rw [hdescription]
    simp [ofMarker]
  · rw [hmessage]
    simp [ofMarker]

/-- The entries of a marker are what is found when their names are looked for. -/
theorem mem_entries_ofMarker_iff (marker : List Char) {name value : List Char} (hn : name ∈ names) :
  (name, value) ∈ (ofMarker marker).entries ↔ Attribute.value? name marker = some value
  := by
  rw [← Table.lookup_eq_some_iff_mem (nodup_map_fst_entries _), lookup_entries_ofMarker marker hn]

end Localization.Attributes

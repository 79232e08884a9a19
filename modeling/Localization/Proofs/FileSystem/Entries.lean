import Localization.FileSystem
import Localization.Proofs.Table.Lookup
import Mathlib.Data.List.Induction

/-!
# Entries of a tree

What is listed in a file system is what is found below its root (`mem_entries_iff`).  Every
entry is reached through directories alone (`get?_prefix_eq`), by valid names
(`isName_of_get?`).
-/

namespace Localization.FileSystem

variable {fs : FileSystem} {l m : Location} {e : Entry}

theorem mem_entries_iff :
  (l, e) ∈ fs.entries.entries ↔ l ≠ [] ∧ fs.get? l = some e
  := by
  rw [← Table.get?_eq_some_iff_mem]
  constructor
  · intro h
    have hne : l ≠ [] := by
      apply fs.ne_root l
      rw [← Table.isSome_get?_iff, h]
      rfl
    rw [fs.get?_of_ne_nil hne]
    exact ⟨hne, h⟩
  · rintro ⟨hne, h⟩
    rwa [fs.get?_of_ne_nil hne] at h

theorem mem_keys_of_get? (hne : l ≠ []) (h : fs.get? l = some e) :
  l ∈ fs.entries.keys
  := List.mem_map_of_mem (mem_entries_iff.2 ⟨hne, h⟩)

theorem isName_of_get? (h : fs.get? l = some e) :
  ∀ name ∈ l, IsName name
  := by
  intro name hn
  apply fs.isName l (mem_keys_of_get? (List.ne_nil_of_mem hn) h) name hn

/-- What stands above an entry is a directory. -/
theorem get?_prefix_eq (h : fs.get? l = some e) (hp : m <+: l) (hne : m ≠ l) :
  fs.get? m = some .directory
  := by
  obtain ⟨below, rfl⟩ := hp
  induction below using List.reverseRecOn generalizing e with
  | nil => exact absurd (List.append_nil m).symm hne
  | append_singleton below name ih =>
    rw [← List.append_assoc] at h
    have hkey := mem_keys_of_get? (List.append_ne_nil_of_right_ne_nil _ (by simp)) h
    have hparent := fs.get?_parent hkey
    rw [List.dropLast_concat] at hparent
    by_cases hb : m = m ++ below
    · rw [hb]
      exact hparent
    · exact ih hparent hb

end Localization.FileSystem

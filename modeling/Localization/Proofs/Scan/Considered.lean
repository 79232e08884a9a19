import Localization.Proofs.FileSystem.Entries
import Localization.Proofs.Path.Names
import Localization.Scan
import Mathlib.Tactic.MkIffOfInductiveProp

/-!
# The files below a directory

`Scan.Considers` says which names lead from a directory to something that a scan looks at: a
file with one of the extensions, or a link with one that does not lead to a directory, reached
through directories only.  These are the candidates of a scan, each of them once
(`mem_candidates_iff`, `nodup_candidates`).
-/

namespace Localization.Scan

/-- The names lead from the directory `base`, through directories, to a file with one of the
extensions, or to a link with one that does not lead to a directory. -/
@[mk_iff]
structure Considers (fs : FileSystem) (root : Path) (base : Location) (extensions : List String)
    (names : Location) : Prop where
  directories : ∀ above, above <+: names → above ≠ names →
    fs.get? (base ++ above) = some .directory
  entry : (∃ content, fs.get? (base ++ names) = some (.file content))
    ∨ (∃ target, fs.get? (base ++ names) = some (.link target))
      ∧ ¬ fs.isDirectory (root.join ⟨"/".intercalate names⟩)
  extension : ∃ name ∈ names.getLast?, ∃ suffix ∈ extensions, Path.IsExtension suffix name

variable {fs : FileSystem} {root : Path} {base : Location} {extensions : List String}
  {names : Location}

theorem Considers.exists_entry (h : Considers fs root base extensions names) :
  ∃ e, fs.get? (base ++ names) = some e
  := by
  obtain ⟨content, he⟩ | ⟨⟨target, he⟩, -⟩ := h.entry
  · exact ⟨_, he⟩
  · exact ⟨_, he⟩

theorem Considers.isName (h : Considers fs root base extensions names) :
  ∀ name ∈ names, IsName name
  := by
  obtain ⟨e, he⟩ := h.exists_entry
  intro name hn
  apply FileSystem.isName_of_get? he name (List.mem_append_right base hn)

theorem hasExtension_iff :
  hasExtension extensions names
    ↔ ∃ name ∈ names.getLast?, ∃ suffix ∈ extensions, Path.IsExtension suffix name
  := by
  rw [hasExtension, Option.any_eq_true]
  simp only [Option.bind_eq_some_iff, List.contains_iff_mem, Option.mem_def,
    Path.extension?_eq_some_iff]
  constructor
  · rintro ⟨suffix, ⟨name, hn, hx⟩, hs⟩
    exact ⟨name, hn, suffix, hs, hx⟩
  · rintro ⟨name, hn, suffix, hs, hx⟩
    exact ⟨suffix, ⟨name, hn, hx⟩, hs⟩

theorem isFile_iff {path : Path} {e : Entry} :
  isFile fs path e
    ↔ (∃ content, e = .file content) ∨ (∃ target, e = .link target) ∧ ¬ fs.isDirectory path
  := by
  cases e with
  | file content => simp [isFile]
  | directory => simp [isFile]
  | link target => simp [isFile]

/-- The candidates are the names of the entries below the directory that count as files. -/
theorem mem_candidates :
  names ∈ candidates fs root base extensions
    ↔ ∃ e, (base ++ names, e) ∈ fs.entries.entries ∧ hasExtension extensions names
      ∧ isFile fs (root.join (.ofNames names)) e
  := by
  simp only [candidates, List.mem_filterMap, Option.filter_eq_some_iff,
    List.isPrefixOf?_eq_some_iff_append_eq, Bool.and_eq_true]
  constructor
  · rintro ⟨⟨l, e⟩, he, rfl, hx, hf⟩
    exact ⟨e, he, hx, hf⟩
  · rintro ⟨e, he, hx, hf⟩
    exact ⟨(base ++ names, e), he, rfl, hx, hf⟩

/-- The candidates of a scan are what it considers. -/
theorem mem_candidates_iff :
  names ∈ candidates fs root base extensions ↔ Considers fs root base extensions names
  := by
  rw [mem_candidates]
  constructor
  · rintro ⟨e, he, hx, hf⟩
    obtain ⟨-, hget⟩ := FileSystem.mem_entries_iff.1 he
    constructor
    · intro above hp hne
      apply FileSystem.get?_prefix_eq hget
      · exact (List.prefix_append_right_inj base).2 hp
      · exact fun heq => hne (List.append_cancel_left heq)
    · obtain ⟨content, rfl⟩ | ⟨⟨target, rfl⟩, hd⟩ := isFile_iff.1 hf
      · apply Or.inl ⟨content, hget⟩
      · rw [Path.ofNames_eq] at hd
        apply Or.inr ⟨⟨target, hget⟩, hd⟩
    · exact hasExtension_iff.1 hx
  · intro h
    obtain ⟨e, hget⟩ := h.exists_entry
    have hne : base ++ names ≠ [] := by
      obtain ⟨name, hn, -⟩ := h.extension
      apply List.append_ne_nil_of_right_ne_nil
      apply List.ne_nil_of_mem (List.mem_of_getLast? hn)
    refine ⟨e, FileSystem.mem_entries_iff.2 ⟨hne, hget⟩, hasExtension_iff.2 h.extension, ?_⟩
    rw [isFile_iff, Path.ofNames_eq]
    simpa only [hget, Option.some.injEq] using h.entry

theorem nodup_candidates (fs : FileSystem) (root : Path) (base : Location)
    (extensions : List String) :
  (candidates fs root base extensions).Nodup
  := by
  rw [candidates, List.Nodup, List.pairwise_filterMap]
  apply (List.pairwise_map.1 fs.entries.nodup).imp
  intro e f hne names he names' hf heq
  apply hne
  simp only [Option.filter_eq_some_iff, List.isPrefixOf?_eq_some_iff_append_eq] at he hf
  rw [← he.1, ← hf.1, heq]

/-- Where the same is considered the same candidates are found, though perhaps in another order. -/
theorem perm_candidates_of_iff {fs' : FileSystem}
    (h : ∀ names, Considers fs root base extensions names
      ↔ Considers fs' root base extensions names) :
  (candidates fs root base extensions).Perm (candidates fs' root base extensions)
  := by
  apply (List.perm_ext_iff_of_nodup (nodup_candidates _ _ _ _) (nodup_candidates _ _ _ _)).2
  intro names
  rw [mem_candidates_iff, mem_candidates_iff, h]

end Localization.Scan

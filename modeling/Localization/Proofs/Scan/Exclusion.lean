import Localization.Proofs.Scan.Selection

/-!
# What a scan excludes

`Scan.Excludes` says of a scan which of the files that it considers it leaves out: it lists the
others and counts these.  A scan excludes what one of its ignore entries matches
(`exists_excludes`), and it is determined by what it excludes (`Excludes.unique`).  When one scan
excludes more than another, its files are those of the other without what it excludes besides
(`Excludes.files_eq_filter`).
-/

namespace Localization.Scan

/-- Of the files that are considered below a directory, the scan leaves out those at the names with
a property: it lists the others, in increasing order of their relative paths, and counts these. -/
structure Excludes (fs : FileSystem) (root : Path) (base : Location) (extensions : List String)
    (Excluded : Location → Prop) (scan : Scan) : Prop where
  mem_files_iff : ∀ file, file ∈ scan.files ↔ ∃ names, Considers fs root base extensions names
    ∧ ¬ Excluded names ∧ file = ⟨root.join ⟨"/".intercalate names⟩, "/".intercalate names⟩
  pairwise_files : scan.files.Pairwise (·.relative < ·.relative)
  ignored_eq : scan.ignored
    = {names | Considers fs root base extensions names ∧ Excluded names}.ncard
  length_add_ignored : scan.files.length + scan.ignored
    = {names | Considers fs root base extensions names}.ncard

variable {fs : FileSystem} {root : Path} {base : Location} {extensions entries : List String}
  {scan scan' : Scan} {Excluded Excluded' : Location → Prop}

/-- A scan excludes what its ignore entries match. -/
theorem exists_excludes (extensions : List String) (hroot : fs.resolve root = .ok base)
    (hbase : fs.get? base = some .directory) (hentries : Ignores.IsValid entries)
    (h : ∀ names, Considers fs root base extensions names →
      ((∃ entry ∈ entries, Ignores.Matches entry names) ↔ Excluded names)) :
  ∃ scan, run fs root extensions entries = .ok scan
    ∧ Excludes fs root base extensions Excluded scan
  := by
  obtain ⟨ignores, hc⟩ := Ignores.exists_compile_eq_ok hentries
  have hkept : ∀ names, names ∈ kept fs root base extensions ignores
      ↔ Considers fs root base extensions names ∧ ¬ Excluded names := by
    intro names
    rw [mem_kept_iff hc]
    apply and_congr_right
    intro hn
    rw [h names hn]
  have hdropped : ∀ names, names ∈ dropped fs root base extensions ignores
      ↔ Considers fs root base extensions names ∧ Excluded names := by
    intro names
    rw [mem_dropped_iff hc]
    apply and_congr_right
    apply h names
  refine ⟨_, run_eq (directory_eq_ok_iff.2 ⟨hroot, hbase⟩) hc, ?_, ?_, ?_, ?_⟩
  · intro file
    rw [(perm_sortFiles _).mem_iff, List.mem_map]
    constructor
    · rintro ⟨names, hn, rfl⟩
      obtain ⟨hn, he⟩ := (hkept names).1 hn
      exact ⟨names, hn, he, sourceFile_eq hn.isName⟩
    · rintro ⟨names, hn, he, rfl⟩
      exact ⟨names, (hkept names).2 ⟨hn, he⟩, sourceFile_eq hn.isName⟩
  · apply pairwise_sortFiles nodup_map_relative
  · rw [ncard_eq_length ((nodup_candidates fs root base extensions).filter _) hdropped]
    rfl
  · rw [ncard_eq_length (nodup_candidates fs root base extensions) fun _ => mem_candidates_iff,
      (perm_sortFiles _).length_eq, List.length_map]
    apply length_kept_add_length_dropped

namespace Excludes

variable (h : Excludes fs root base extensions Excluded scan)

include h

/-- The scans that exclude the same are equal. -/
theorem unique (h' : Excludes fs root base extensions Excluded scan') :
  scan = scan'
  := by
  have hfiles : scan.files = scan'.files := by
    apply eq_of_mem_iff h.pairwise_files h'.pairwise_files
    intro file
    rw [h.mem_files_iff, h'.mem_files_iff]
  have hignored : scan.ignored = scan'.ignored := by
    rw [h.ignored_eq, h'.ignored_eq]
  cases scan
  cases scan'
  cases hfiles
  cases hignored
  rfl

/-- A scan that excludes more lists the files that are left. -/
theorem files_eq_filter (h' : Excludes fs root base extensions Excluded' scan')
    (p : String → Bool) (hp : ∀ names, Considers fs root base extensions names →
      (Excluded' names ↔ Excluded names ∨ p ("/".intercalate names))) :
  scan'.files = scan.files.filter (!p ·.relative)
  := by
  apply eq_of_mem_iff h'.pairwise_files (h.pairwise_files.filter _)
  intro file
  rw [List.mem_filter, h.mem_files_iff, h'.mem_files_iff]
  constructor
  · rintro ⟨names, hn, he, rfl⟩
    rw [hp names hn, not_or, Bool.not_eq_true] at he
    exact ⟨⟨names, hn, he.1, rfl⟩, by simp [he.2]⟩
  · rintro ⟨⟨names, hn, he, rfl⟩, hr⟩
    refine ⟨names, hn, ?_, rfl⟩
    rw [hp names hn, not_or]
    exact ⟨he, by simpa using hr⟩

/-- A scan that excludes more counts what it excludes besides. -/
theorem ignored_eq_add_countP (h' : Excludes fs root base extensions Excluded' scan')
    (p : String → Bool) (hfiles : scan'.files = scan.files.filter (!p ·.relative)) :
  scan'.ignored = scan.ignored + scan.files.countP (p ·.relative)
  := by
  have htotal := h.length_add_ignored.trans h'.length_add_ignored.symm
  have hlength := List.length_eq_countP_add_countP (fun file => p file.relative) (l := scan.files)
  rw [hfiles, ← List.countP_eq_length_filter, hlength] at htotal
  simp only [Bool.not_eq_true, Bool.decide_eq_false] at htotal
  omega

end Excludes

end Localization.Scan

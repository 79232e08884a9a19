import Localization.Proofs.Scan.Considered
import Localization.Proofs.Scan.Ignored
import Mathlib.Data.List.Sort
import Mathlib.Data.Set.Card

/-!
# What a scan selects

The files of a scan are sorted by their relative paths (`perm_sortFiles`,
`pairwise_sortFiles`), and are those that it considers and that no ignore entry matches
(`mem_kept_iff`).  `run_selects` puts together what a scan lists, in which order, and what it
counts.
-/

namespace Localization.Scan

/-! ### Sorting -/

theorem insertFile_eq (file : SourceFile) (files : List SourceFile) :
  insertFile file files = files.orderedInsert (fun f g => f.relative ≤ g.relative) file
  := by
  induction files with
  | nil => rfl
  | cons f fs ih => rw [insertFile, List.orderedInsert_cons, ih]

theorem sortFiles_eq (files : List SourceFile) :
  sortFiles files = files.insertionSort fun f g => f.relative ≤ g.relative
  := by
  induction files with
  | nil => rfl
  | cons f fs ih =>
    rw [List.insertionSort_cons, ← ih, ← insertFile_eq]
    rfl

/-- Sorting neither adds nor drops a file. -/
theorem perm_sortFiles (files : List SourceFile) :
  (sortFiles files).Perm files
  := by
  rw [sortFiles_eq]
  apply List.perm_insertionSort _ files

instance : Std.Total fun f g : SourceFile => f.relative ≤ g.relative :=
  ⟨fun f g => String.le_total f.relative g.relative⟩

instance : IsTrans SourceFile fun f g => f.relative ≤ g.relative :=
  ⟨fun _ _ _ => String.le_trans⟩

/-- Files with different relative paths are sorted in strictly increasing order. -/
theorem pairwise_sortFiles {files : List SourceFile} (h : (files.map (·.relative)).Nodup) :
  (sortFiles files).Pairwise (·.relative < ·.relative)
  := by
  have hle : (sortFiles files).Pairwise (·.relative ≤ ·.relative) := by
    rw [sortFiles_eq]
    apply List.pairwise_insertionSort _ files
  have hne : (sortFiles files).Pairwise (·.relative ≠ ·.relative) := by
    rw [← List.pairwise_map (R := (· ≠ ·))]
    exact (((perm_sortFiles files).map _).nodup_iff).2 h
  apply (hle.and hne).imp
  rintro f g ⟨hfg, hfg'⟩
  apply String.not_le.1
  exact fun hgf => hfg' (String.le_antisymm hfg hgf)

/-- Files in strictly increasing order are determined by what is among them. -/
theorem eq_of_mem_iff {files files' : List SourceFile}
    (hfiles : files.Pairwise (·.relative < ·.relative))
    (hfiles' : files'.Pairwise (·.relative < ·.relative))
    (h : ∀ file, file ∈ files ↔ file ∈ files') :
  files = files'
  := by
  have hne : ∀ {f g : SourceFile}, f.relative < g.relative → f ≠ g := by
    rintro f _ hlt rfl
    exact String.lt_irrefl _ hlt
  apply List.Perm.eq_of_pairwise _ hfiles hfiles'
  · apply (List.perm_ext_iff_of_nodup (hfiles.imp hne) (hfiles'.imp hne)).2 h
  · exact fun f g _ _ hfg hgf => absurd hgf (String.lt_asymm hfg)

/-- The order in which the files are found does not matter. -/
theorem sortFiles_eq_of_perm {files files' : List SourceFile} (hp : files.Perm files')
    (h : (files'.map (·.relative)).Nodup) :
  sortFiles files = sortFiles files'
  := by
  apply eq_of_mem_iff (pairwise_sortFiles ((hp.map _).nodup_iff.2 h)) (pairwise_sortFiles h)
  intro file
  rw [(perm_sortFiles files).mem_iff, (perm_sortFiles files').mem_iff, hp.mem_iff]

/-! ### The files of a scan -/

variable {fs : FileSystem} {root : Path} {base : Location} {extensions entries : List String}
  {ignores : Ignores}

/-- The candidates that are not ignored. -/
def kept (fs : FileSystem) (root : Path) (base : Location) (extensions : List String)
    (ignores : Ignores) : List Location :=
  (candidates fs root base extensions).filter fun names => !ignores.covers (.ofNames names)

/-- The candidates that are ignored. -/
def dropped (fs : FileSystem) (root : Path) (base : Location) (extensions : List String)
    (ignores : Ignores) : List Location :=
  (candidates fs root base extensions).filter fun names => ignores.covers (.ofNames names)

theorem directory_eq_ok_iff :
  directory fs root = .ok base ↔ fs.resolve root = .ok base ∧ fs.get? base = some .directory
  := by
  rw [directory]
  cases fs.resolve root with
  | error fault => simp
  | ok l =>
    by_cases hl : fs.get? l = some .directory
    · simp only [if_pos hl, Except.ok.injEq]
      exact ⟨fun h => ⟨h, h ▸ hl⟩, And.left⟩
    · simp only [if_neg hl, Except.ok.injEq]
      exact ⟨nofun, fun h => absurd (h.1 ▸ h.2) hl⟩

theorem run_eq (hd : directory fs root = .ok base) (hc : Ignores.compile entries = .ok ignores) :
  run fs root extensions entries = .ok {
    files := sortFiles ((kept fs root base extensions ignores).map (sourceFile root))
    ignored := (dropped fs root base extensions ignores).length }
  := by
  rw [run, hc, Outcome.ok_bind, hd, Outcome.ok_bind, List.partition_eq_filter_filter]
  rfl

theorem mem_kept_iff (hc : Ignores.compile entries = .ok ignores) {names : Location} :
  names ∈ kept fs root base extensions ignores
    ↔ Considers fs root base extensions names ∧ ¬ ∃ entry ∈ entries, Ignores.Matches entry names
  := by
  rw [kept, List.mem_filter, mem_candidates_iff]
  apply and_congr_right
  intro h
  rw [← Ignores.covers_iff hc h.isName, Bool.not_eq_true', Bool.not_eq_true]

theorem mem_dropped_iff (hc : Ignores.compile entries = .ok ignores) {names : Location} :
  names ∈ dropped fs root base extensions ignores
    ↔ Considers fs root base extensions names ∧ ∃ entry ∈ entries, Ignores.Matches entry names
  := by
  rw [dropped, List.mem_filter, mem_candidates_iff]
  apply and_congr_right
  intro h
  rw [← Ignores.covers_iff hc h.isName]

theorem length_kept_add_length_dropped :
  (kept fs root base extensions ignores).length + (dropped fs root base extensions ignores).length
    = (candidates fs root base extensions).length
  := by
  have hlength := List.length_eq_length_filter_add (l := candidates fs root base extensions)
    fun names => ignores.covers (.ofNames names)
  rw [hlength, Nat.add_comm]
  rfl

theorem sourceFile_eq {names : Location} (h : ∀ name ∈ names, IsName name) :
  sourceFile root names = ⟨root.join ⟨"/".intercalate names⟩, "/".intercalate names⟩
  := by
  rw [sourceFile, Path.slashForm_ofNames h, Path.ofNames_eq]

/-- The relative path tells to which names it leads. -/
theorem eq_of_relative_eq {names names' : Location} (h : ∀ name ∈ names, IsName name)
    (h' : ∀ name ∈ names', IsName name)
    (heq : (sourceFile root names).relative = (sourceFile root names').relative) :
  names = names'
  := by
  rw [sourceFile_eq h, sourceFile_eq h'] at heq
  apply Path.eq_of_intercalate_eq h h' heq

/-- No two candidates have the same relative path. -/
theorem nodup_map_relative :
  (((kept fs root base extensions ignores).map (sourceFile root)).map (·.relative)).Nodup
  := by
  have hnodup := (nodup_candidates fs root base extensions).filter
    fun names => !ignores.covers (.ofNames names)
  rw [List.map_map]
  apply hnodup.map_on
  intro names hn names' hn' heq
  have h := (mem_candidates_iff.1 (List.mem_filter.1 hn).1).isName
  have h' := (mem_candidates_iff.1 (List.mem_filter.1 hn').1).isName
  apply eq_of_relative_eq h h' heq

/-- The number of things with a property is the length of a list of them without repetitions. -/
theorem ncard_eq_length {α : Type} {p : α → Prop} {l : List α} (hl : l.Nodup)
    (h : ∀ a, a ∈ l ↔ p a) :
  Set.ncard {a | p a} = l.length
  := by
  classical
  rw [← List.toFinset_card_of_nodup hl, ← Set.ncard_coe_finset]
  congr
  ext a
  simp [h]

/-- A scan lists the files that it considers and does not ignore, each of them once and in
increasing order of their relative paths, and counts the others that it considers. -/
theorem run_selects (hroot : fs.resolve root = .ok base) (hbase : fs.get? base = some .directory)
    (hentries : Ignores.IsValid entries) :
  ∃ scan, run fs root extensions entries = .ok scan
    ∧ (∀ file, file ∈ scan.files ↔ ∃ names, Considers fs root base extensions names
      ∧ (¬ ∃ entry ∈ entries, Ignores.Matches entry names)
      ∧ file = ⟨root.join ⟨"/".intercalate names⟩, "/".intercalate names⟩)
    ∧ scan.files.Pairwise (·.relative < ·.relative)
    ∧ {names | Considers fs root base extensions names}.Finite
    ∧ scan.ignored = {names | Considers fs root base extensions names
      ∧ ∃ entry ∈ entries, Ignores.Matches entry names}.ncard
    ∧ scan.files.length + scan.ignored = {names | Considers fs root base extensions names}.ncard
  := by
  obtain ⟨ignores, hc⟩ := Ignores.exists_compile_eq_ok hentries
  refine ⟨_, run_eq (directory_eq_ok_iff.2 ⟨hroot, hbase⟩) hc, ?_, ?_, ?_, ?_, ?_⟩
  · intro file
    rw [(perm_sortFiles _).mem_iff, List.mem_map]
    constructor
    · rintro ⟨names, hn, rfl⟩
      obtain ⟨h, hi⟩ := (mem_kept_iff hc).1 hn
      exact ⟨names, h, hi, sourceFile_eq h.isName⟩
    · rintro ⟨names, h, hi, rfl⟩
      exact ⟨names, (mem_kept_iff hc).2 ⟨h, hi⟩, sourceFile_eq h.isName⟩
  · apply pairwise_sortFiles nodup_map_relative
  · apply (List.finite_toSet (candidates fs root base extensions)).subset
    intro names h
    exact mem_candidates_iff.2 h
  · apply Eq.symm
    apply ncard_eq_length
    · exact (nodup_candidates fs root base extensions).filter _
    · intro names
      apply mem_dropped_iff hc
  · rw [ncard_eq_length (nodup_candidates fs root base extensions) fun _ => mem_candidates_iff,
      (perm_sortFiles _).length_eq, List.length_map]
    exact length_kept_add_length_dropped

/-! ### A project -/

/-- A project with a directory named like a source, a hidden file, and links to a file, to a
directory and to nothing. -/
def project : FileSystem where
  entries := .ofList [
    (["home"], .directory),
    (["home", "app"], .directory),
    (["home", "app", "views.jsx"], .directory),
    (["home", "app", "views.jsx", "Menu.jsx"], .file "<LocalizeText id='menu'/>".toUTF8),
    (["home", "app", "views.jsx", ".jsx"], .file "<LocalizeText id='hidden'/>".toUTF8),
    (["home", "app", "Shared.jsx"], .link ⟨"../lib/Shared.jsx"⟩),
    (["home", "app", "Dead.jsx"], .link ⟨"gone.jsx"⟩),
    (["home", "app", "Linked.jsx"], .link ⟨"../lib"⟩),
    (["home", "app", "App.jsx"], .file "<LocalizeText id='a'/><LocalizeText id='b'/>".toUTF8),
    (["home", "lib"], .directory),
    (["home", "lib", "Shared.jsx"], .file "<LocalizeText id='shared'/>".toUTF8)]
  workingDirectory := ["home"]
  ne_root := by decide +kernel
  isName := by decide +kernel
  parent := by decide +kernel

/-- Of the four files that are considered, one is ignored, by two of the entries. -/
theorem run_selects_project :
  run project ⟨"app"⟩ ["jsx"] ["views.jsx/", "**/M?nu.*"] = .ok {
      files := [⟨⟨"app/App.jsx"⟩, "App.jsx"⟩, ⟨⟨"app/Dead.jsx"⟩, "Dead.jsx"⟩,
        ⟨⟨"app/Shared.jsx"⟩, "Shared.jsx"⟩]
      ignored := 1 }
    ∧ {names | Considers project ⟨"app"⟩ ["home", "app"] ["jsx"] names}.ncard = 4
  := by
  have hentries : Ignores.IsValid ["views.jsx/", "**/M?nu.*"] := by
    intro entry he hw
    simp only [List.mem_cons, List.not_mem_nil, or_false] at he
    obtain rfl | rfl := he
    · exact absurd hw (by decide)
    · exact ⟨_, rfl⟩
  obtain ⟨scan, hscan, -, -, -, -, htotal⟩ := @run_selects project ⟨"app"⟩ ["home", "app"] ["jsx"]
    _ (by decide +kernel) (by decide +kernel) hentries
  constructor
  · decide +kernel
  · have hlength : (run project ⟨"app"⟩ ["jsx"] ["views.jsx/", "**/M?nu.*"]).map
        (fun scan => scan.files.length + scan.ignored) = .ok 4 := by decide +kernel
    rw [hscan] at hlength
    rw [← htotal]
    apply Except.ok.inj hlength

end Localization.Scan

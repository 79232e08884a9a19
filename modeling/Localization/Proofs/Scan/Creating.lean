import Localization.Proofs.FileSystem.Creating
import Localization.Proofs.Scan.Selection

/-!
# Scans after a file has been created

A scan considers what it considered before, and perhaps the new file
(`perm_candidates_of_creates`).  So its files are those from before, or these with the new one
put in its place (`exists_run_of_creates`).
-/

namespace Localization.Scan

open FileSystem (Creates)

variable {l base names : Location} {content : ByteArray} {fs fs' : FileSystem} {root : Path}
  {extensions entries : List String} {ignores : Ignores} (h : Creates l content fs fs')

include h

/-- Apart from the new file the same is considered. -/
theorem considers_iff_of_creates (hne : base ++ names ≠ l) :
  Considers fs' root base extensions names ↔ Considers fs root base extensions names
  := by
  rw [considers_iff, considers_iff]
  simp only [h.get?_eq_directory_iff, h.isDirectory_iff, h.get?_eq _ hne]

theorem not_considers_of_creates (hl : base ++ names = l) :
  ¬ Considers fs root base extensions names
  := by
  intro hold
  obtain ⟨e, he⟩ := hold.exists_entry
  exact h.ne_of_get? he hl

/-- The candidates are those from before, or these and the new file. -/
theorem perm_candidates_of_creates (root : Path) (base : Location) (extensions : List String) :
  (candidates fs' root base extensions).Perm (candidates fs root base extensions)
    ∨ ∃ names, base ++ names = l ∧ Considers fs' root base extensions names
      ∧ (candidates fs' root base extensions).Perm
        (names :: candidates fs root base extensions)
  := by
  by_cases hnew : ∃ names, base ++ names = l ∧ Considers fs' root base extensions names
  · obtain ⟨names, hl, hc⟩ := hnew
    right
    refine ⟨names, hl, hc, ?_⟩
    apply (List.perm_ext_iff_of_nodup (nodup_candidates _ _ _ _) _).2
    · intro names'
      rw [List.mem_cons, mem_candidates_iff, mem_candidates_iff]
      by_cases hl' : base ++ names' = l
      · have heq : names' = names := List.append_cancel_left (hl'.trans hl.symm)
        simp [heq, hc]
      · have hne : names' ≠ names := by
          rintro rfl
          exact hl' hl
        simp [hne, considers_iff_of_creates h hl']
    · apply List.nodup_cons.2 ⟨_, nodup_candidates _ _ _ _⟩
      rw [mem_candidates_iff]
      apply not_considers_of_creates h hl
  · left
    apply perm_candidates_of_iff
    intro names
    by_cases hl : base ++ names = l
    · have hold := @not_considers_of_creates l base names content fs fs' root extensions h hl
      have hnew' : ¬ Considers fs' root base extensions names := fun hc => hnew ⟨names, hl, hc⟩
      simp [hold, hnew']
    · apply considers_iff_of_creates h hl

/-- The files of a scan are those from before, or these with the new file in its place. -/
theorem exists_run_of_creates {scan : Scan} (hrun : run fs root extensions entries = .ok scan) :
  ∃ scan' base, fs.resolve root = .ok base ∧ run fs' root extensions entries = .ok scan'
    ∧ (scan'.files = scan.files
      ∨ ∃ names, base ++ names = l ∧ Considers fs' root base extensions names
        ∧ scan'.files = insertFile (sourceFile root names) scan.files)
  := by
  obtain ⟨ignores, hc, hscan⟩ := Outcome.bind_eq_ok_iff.1 hrun
  obtain ⟨base, hd, -⟩ := Outcome.bind_eq_ok_iff.1 hscan
  obtain rfl := Outcome.eq_of_eq_ok (run_eq hd hc) hrun
  obtain ⟨hbase, hdirectory⟩ := directory_eq_ok_iff.1 hd
  have hd' : directory fs' root = .ok base :=
    directory_eq_ok_iff.2 ⟨h.toWrites.resolve_eq_ok hbase, h.get?_eq_directory_iff.2 hdirectory⟩
  refine ⟨_, base, hbase, run_eq hd' hc, ?_⟩
  obtain hp | ⟨names, hl, hn, hp⟩ := perm_candidates_of_creates h root base extensions
  · left
    apply sortFiles_eq_of_perm ((hp.filter _).map _) nodup_map_relative
  · have hp' := hp.filter fun names => !ignores.covers (.ofNames names)
    rw [List.filter_cons] at hp'
    split at hp'
    · right
      refine ⟨names, hl, hn, ?_⟩
      apply (sortFiles_eq_of_perm (hp'.map _).symm nodup_map_relative).symm
    · left
      apply sortFiles_eq_of_perm (hp'.map _) nodup_map_relative

end Localization.Scan

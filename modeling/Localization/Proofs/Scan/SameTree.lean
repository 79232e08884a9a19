import Localization.Proofs.FileSystem.SameTree
import Localization.Proofs.Scan.Selection

/-!
# Scans do not read files

What a scan selects depends on the tree alone and not on the content of the files in it
(`run_eq_of_sameTree`).
-/

namespace Localization.Scan

variable {fs fs' : FileSystem} (h : fs.SameTree fs')

include h

theorem considers_iff_of_sameTree {root : Path} {base : Location} {extensions : List String}
    {names : Location} :
  Considers fs root base extensions names ↔ Considers fs' root base extensions names
  := by
  rw [considers_iff, considers_iff]
  simp only [h.get?_eq_directory_iff, h.exists_get?_eq_file_iff, h.get?_eq_link_iff,
    h.isDirectory_eq]

theorem perm_candidates_of_sameTree (root : Path) (base : Location) (extensions : List String) :
  (candidates fs root base extensions).Perm (candidates fs' root base extensions)
  := perm_candidates_of_iff fun _ => considers_iff_of_sameTree h

theorem directory_eq_of_sameTree (root : Path) :
  directory fs root = directory fs' root
  := by
  rw [directory, directory, h.resolve_eq]
  simp only [h.get?_eq_directory_iff]

theorem perm_kept_of_sameTree (root : Path) (base : Location) (extensions : List String)
    (ignores : Ignores) :
  (kept fs root base extensions ignores).Perm (kept fs' root base extensions ignores)
  := (perm_candidates_of_sameTree h root base extensions).filter _

theorem perm_dropped_of_sameTree (root : Path) (base : Location) (extensions : List String)
    (ignores : Ignores) :
  (dropped fs root base extensions ignores).Perm (dropped fs' root base extensions ignores)
  := (perm_candidates_of_sameTree h root base extensions).filter _

/-- A scan of the same tree has the same outcome. -/
theorem run_eq_of_sameTree (root : Path) (extensions ignores : List String) :
  run fs root extensions ignores = run fs' root extensions ignores
  := by
  cases hc : Ignores.compile ignores with
  | error failure =>
    rw [run, run, hc, Outcome.error_bind, Outcome.error_bind]
  | ok compiled =>
    cases hd : directory fs' root with
    | error failure =>
      rw [run, run, hc, Outcome.ok_bind, Outcome.ok_bind, directory_eq_of_sameTree h, hd,
        Outcome.error_bind, Outcome.error_bind]
    | ok base =>
      have hfiles := sortFiles_eq_of_perm
        ((perm_kept_of_sameTree h root base extensions compiled).map (sourceFile root))
        nodup_map_relative
      have hignored := (perm_dropped_of_sameTree h root base extensions compiled).length_eq
      have hd' : directory fs root = .ok base := (directory_eq_of_sameTree h root).trans hd
      rw [run_eq hd hc, run_eq hd' hc, hfiles, hignored]

end Localization.Scan

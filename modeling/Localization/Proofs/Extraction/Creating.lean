import Localization.Proofs.Extraction.Schedules
import Localization.Proofs.FileSystem.Paths
import Localization.Proofs.Scan.Creating

/-!
# Extractions after a file has been created

When a file is created that has no records, an extraction that gave a catalog gives the same
catalog (`exists_run_of_creates`), though the new file may be one of those it selects.
-/

namespace Localization

theorem Scan.exists_insertFile_eq (file : SourceFile) (files : List SourceFile) :
  ∃ before after, files = before ++ after ∧ insertFile file files = before ++ file :: after
  := by
  rw [insertFile_eq, List.orderedInsert_eq_take_drop]
  exact ⟨_, _, (List.takeWhile_append_dropWhile).symm, rfl⟩

namespace Extraction

open FileSystem (Creates pathOf)

variable {l base : Location} {content : ByteArray} {fs fs' : FileSystem} {c : Component}
  {files : List SourceFile} {perFile : List (List Record)} {options : ExtractionOptions}
  (h : Creates l content fs fs')

include h

/-- The records of the files that could be read are found again. -/
theorem mapM_fileRecords_of_creates (hfiles : files.mapM (fileRecords fs c) = .ok perFile) :
  files.mapM (fileRecords fs' c) = .ok perFile
  := by
  apply Outcome.mapM_eq_ok_iff.2
  apply (Outcome.mapM_eq_ok_iff.1 hfiles).imp
  intro file records hfile
  obtain ⟨bytes, hread, hrecords⟩ := fileRecords_eq_ok_iff.1 hfile
  exact fileRecords_eq_ok_iff.2 ⟨bytes, h.read_eq_ok hread, hrecords⟩

/-- A file without records adds none, wherever its place is. -/
theorem exists_mapM_insertFile_of_creates {file : SourceFile}
    (hfiles : files.mapM (fileRecords fs c) = .ok perFile)
    (hfile : fileRecords fs' c file = .ok []) :
  ∃ perFile', (Scan.insertFile file files).mapM (fileRecords fs' c) = .ok perFile'
    ∧ perFile'.flatten = perFile.flatten
  := by
  obtain ⟨before, after, rfl, heq⟩ := Scan.exists_insertFile_eq file files
  have hall := mapM_fileRecords_of_creates h hfiles
  rw [List.mapM_append] at hall
  obtain ⟨xs, hxs, hall⟩ := Outcome.bind_eq_ok_iff.1 hall
  obtain ⟨ys, hys, hall⟩ := Outcome.bind_eq_ok_iff.1 hall
  obtain rfl := Except.ok.inj hall
  use xs ++ [] :: ys
  constructor
  · rw [heq, List.mapM_append, hxs, Outcome.ok_bind, List.mapM_cons, hfile, Outcome.ok_bind, hys]
    rfl
  · simp

/-- The new file has no records, by whatever names it is selected. -/
theorem fileRecords_of_creates
    (hcontent : ∀ c file, Record.ofSource c file (Text.Utf8.decode content) = [])
    (hbase : fs.resolve (pathOf base) = .ok base) {names : Location} {extensions : List String}
    (hl : base ++ names = l) (hn : Scan.Considers fs' (pathOf base) base extensions names) :
  fileRecords fs' c (Scan.sourceFile (pathOf base) names) = .ok []
  := by
  obtain ⟨e, he, -⟩ := FileSystem.exists_entry_of_resolve hbase
  have hne : names ≠ [] := by
    obtain ⟨name, hname, -⟩ := hn.extension
    apply List.ne_nil_of_mem (List.mem_of_getLast? hname)
  have hpath := FileSystem.join_pathOf (FileSystem.isName_of_get? he) hn.isName hne
  have hread := h.read_pathOf
  rw [← hl, ← hpath] at hread
  exact fileRecords_eq_ok_iff.2 ⟨content, hread, (hcontent _ _).symm⟩

/-- The catalog of a directory stays the same when a file without records is created. -/
theorem exists_run_of_creates
    (hcontent : ∀ c file, Record.ofSource c file (Text.Utf8.decode content) = [])
    (hbase : fs.resolve (pathOf base) = .ok base) {extraction : Extraction}
    (hrun : run fs (pathOf base) options = .ok extraction) :
  ∃ extraction', run fs' (pathOf base) options = .ok extraction'
    ∧ extraction'.catalog = extraction.catalog
  := by
  obtain ⟨c, hc, hscan⟩ := Outcome.bind_eq_ok_iff.1 hrun
  obtain ⟨scan, hs, -⟩ := Outcome.bind_eq_ok_iff.1 hscan
  rw [run_eq hc hs] at hrun
  obtain ⟨perFile, hfiles, rfl⟩ := Outcome.map_eq_ok_iff.1 hrun
  obtain ⟨scan', base', hbase', hs', hfiles'⟩ := Scan.exists_run_of_creates h hs
  obtain rfl := Outcome.eq_of_eq_ok hbase hbase'
  rw [run_eq hc hs']
  obtain heq | ⟨names, hl, hn, heq⟩ := hfiles'
  · rw [heq, mapM_fileRecords_of_creates h hfiles]
    exact ⟨_, rfl, rfl⟩
  · obtain ⟨perFile', hperFile', hflatten⟩ :=
      exists_mapM_insertFile_of_creates h hfiles (fileRecords_of_creates h hcontent hbase hl hn)
    rw [heq, hperFile']
    exact ⟨_, rfl, congrArg Catalog.mk hflatten⟩

end Extraction
end Localization

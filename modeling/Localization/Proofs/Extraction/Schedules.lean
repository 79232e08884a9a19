import Localization.Extraction
import Localization.Proofs.Scan.SameTree
import Localization.Proofs.Schedule

/-!
# Extraction in any order

The selected files of an extraction are read side by side, and `Extraction.Yields` says what may
come of it.  Whatever the order, `AllOrNothing` holds of the outcome: it has the records of all
selected files, or is the failure of one of them (`yields_all_or_nothing`).
-/

namespace Localization.Extraction

/-- The extraction that gives these records for the files of a scan. -/
def ofScan (scan : Scan) (perFile : List (List Record)) : Extraction where
  catalog := .ofFiles perFile
  scanned := scan.files.length
  ignored := scan.ignored

/-- What an extraction may come to when its files are read in any order. -/
inductive Yields (fs : FileSystem) (root : Path) (options : ExtractionOptions) :
    Except Failure Extraction → Prop where
  | blank {failure : Failure} (hc : component options.component = .error failure) :
      Yields fs root options (.error failure)
  | unscanned {c : Component} {failure : Failure} (hc : component options.component = .ok c)
      (hs : Scan.run fs root options.extensions options.ignores = .error failure) :
      Yields fs root options (.error failure)
  | collected {c : Component} {scan : Scan} {jobs : List (Schedule.Job Failure SourceFile _)}
      {result : Except Failure (List (List Record))} (hc : component options.component = .ok c)
      (hs : Scan.run fs root options.extensions options.ignores = .ok scan)
      (hr : Schedule.Reaches (fileRecords fs c) scan.files jobs)
      (h : Schedule.Collects jobs result) :
      Yields fs root options (result.map (ofScan scan))

/-! ### Files -/

variable {fs fs' : FileSystem} {root : Path} {options : ExtractionOptions} {c : Component}
  {scan : Scan} {file : SourceFile} {outcome : Except Failure Extraction}

theorem fileRecords_eq_ok_iff {records : List Record} :
  fileRecords fs c file = .ok records ↔ ∃ bytes, fs.read file.path = .ok bytes
    ∧ records = Record.ofSource c file.relative (Text.Utf8.decode bytes)
  := by
  rw [fileRecords, Outcome.bind_eq_ok_iff]
  simp only [Outcome.mapError_eq_ok_iff]
  apply exists_congr
  intro bytes
  apply and_congr_right
  intro _
  constructor
  · exact fun h => (Except.ok.inj h).symm
  · exact fun h => congrArg Except.ok h.symm

theorem fileRecords_eq_error {failure : Failure} (h : fileRecords fs c file = .error failure) :
  ∃ fault, fs.read file.path = .error fault ∧ failure = .unreadableSource file.path fault
  := by
  rw [fileRecords] at h
  cases hread : fs.read file.path with
  | ok bytes =>
    rw [hread] at h
    cases h
  | error fault =>
    rw [hread] at h
    exact ⟨fault, rfl, (Except.error.inj h).symm⟩

/-- All files can be read when the records of all files are found. -/
theorem exists_mapM_fileRecords_iff {files : List SourceFile} :
  (∃ perFile, files.mapM (fileRecords fs c) = .ok perFile)
    ↔ ∀ file ∈ files, ∃ bytes, fs.read file.path = .ok bytes
  := by
  constructor
  · rintro ⟨perFile, h⟩ file hf
    obtain ⟨records, hrecords⟩ := Outcome.exists_eq_ok_of_mapM_eq_ok h hf
    obtain ⟨bytes, hread, -⟩ := fileRecords_eq_ok_iff.1 hrecords
    exact ⟨bytes, hread⟩
  · intro h
    apply Outcome.exists_mapM_eq_ok
    intro file hf
    obtain ⟨bytes, hread⟩ := h file hf
    exact ⟨_, fileRecords_eq_ok_iff.2 ⟨bytes, hread, rfl⟩⟩

/-- The records of all files are those of their contents, file by file. -/
theorem exists_contents_of_mapM {files : List SourceFile} {perFile : List (List Record)}
    (h : files.mapM (fileRecords fs c) = .ok perFile) :
  ∃ contents : SourceFile → ByteArray,
    (∀ file ∈ files, fs.read file.path = .ok (contents file))
    ∧ perFile.flatten = files.flatMap fun file =>
      Record.ofSource c file.relative (Text.Utf8.decode (contents file))
  := by
  have hread := exists_mapM_fileRecords_iff.1 ⟨perFile, h⟩
  choose! contents hcontents using hread
  have hall : List.Forall₂ (fun file records =>
      Record.ofSource c file.relative (Text.Utf8.decode (contents file)) = records)
      files perFile := by
    apply ((List.forall₂_and_left files perFile).2
      ⟨hcontents, Outcome.mapM_eq_ok_iff.1 h⟩).imp
    intro file records hp
    obtain ⟨hfile, hrecords⟩ := hp
    obtain ⟨bytes, hbytes, heq⟩ := fileRecords_eq_ok_iff.1 hrecords
    rw [hfile] at hbytes
    rw [heq, Except.ok.inj hbytes]
  rw [← List.forall₂_map_left_iff, List.forall₂_eq_eq_eq] at hall
  refine ⟨contents, hcontents, ?_⟩
  rw [← hall, List.flatMap_def]

/-! ### Outcomes -/

theorem run_eq (hc : component options.component = .ok c)
    (hs : Scan.run fs root options.extensions options.ignores = .ok scan) :
  run fs root options = (scan.files.mapM (fileRecords fs c)).map (ofScan scan)
  := by
  rw [run, hc, Outcome.ok_bind, hs, Outcome.ok_bind]
  cases scan.files.mapM (fileRecords fs c) <;> rfl

/-- Reading the files one after the other is one of the orders. -/
theorem yields_run (fs : FileSystem) (root : Path) (options : ExtractionOptions) :
  Yields fs root options (run fs root options)
  := by
  cases hc : component options.component with
  | error failure =>
    rw [run, hc, Outcome.error_bind]
    exact .blank hc
  | ok c =>
    cases hs : Scan.run fs root options.extensions options.ignores with
    | error failure =>
      rw [run, hc, Outcome.ok_bind, hs, Outcome.error_bind]
      exact .unscanned hc hs
    | ok scan =>
      rw [run_eq hc hs]
      obtain ⟨jobs, hr, hend⟩ := Schedule.exists_forall_not_step (fileRecords fs c)
        (scan.files.map (⟨·, .waiting⟩))
      exact .collected hc hs hr (Schedule.Reaches.collects_mapM hr hend)

theorem Yields.exists_collects (h : Yields fs root options outcome)
    (hc : component options.component = .ok c)
    (hs : Scan.run fs root options.extensions options.ignores = .ok scan) :
  ∃ jobs result, Schedule.Reaches (fileRecords fs c) scan.files jobs
    ∧ Schedule.Collects jobs result ∧ outcome = result.map (ofScan scan)
  := by
  cases h with
  | blank hc' =>
    rw [hc] at hc'
    cases hc'
  | unscanned _ hs' =>
    rw [hs] at hs'
    cases hs'
  | collected hc' hs' hr hcollects =>
    rw [hc] at hc'
    rw [hs] at hs'
    obtain rfl := Except.ok.inj hc'
    obtain rfl := Except.ok.inj hs'
    exact ⟨_, _, hr, hcollects, rfl⟩

/-- What an extraction from the files of a scan has to come to: all records of all files in the
order of the scan, when every file can be read, and otherwise the failure of a file that cannot.
Neither the order in which the files are read nor the content of other files counts. -/
structure AllOrNothing (fs : FileSystem) (root : Path) (options : ExtractionOptions)
    (c : Component) (scan : Scan) (outcome : Except Failure Extraction) : Prop where
  exists_ok_iff : (∃ extraction, outcome = .ok extraction)
    ↔ ∀ file ∈ scan.files, ∃ bytes, fs.read file.path = .ok bytes
  records_eq : ∀ extraction, outcome = .ok extraction →
    ∃ contents : SourceFile → ByteArray,
      (∀ file ∈ scan.files, fs.read file.path = .ok (contents file))
      ∧ extraction.catalog.records = scan.files.flatMap fun file =>
        Record.ofSource c file.relative (Text.Utf8.decode (contents file))
  failure_eq : ∀ failure, outcome = .error failure →
    ∃ file ∈ scan.files, ∃ fault, fs.read file.path = .error fault
      ∧ failure = .unreadableSource file.path fault
  sequential : outcome.toOption = (run fs root options).toOption
  sameTree : ∀ fs', fs.SameTree fs' →
    (∀ file ∈ scan.files, fs.read file.path = fs'.read file.path) →
    Yields fs' root options outcome

theorem Yields.allOrNothing (h : Yields fs root options outcome)
    (hc : component options.component = .ok c)
    (hs : Scan.run fs root options.extensions options.ignores = .ok scan) :
  AllOrNothing fs root options c scan outcome
  := by
  obtain ⟨jobs, result, hr, hcollects, rfl⟩ := h.exists_collects hc hs
  have hoption := hr.toOption_eq hcollects
  constructor
  · rw [← exists_mapM_fileRecords_iff]
    simp only [← Outcome.toOption_eq_some_iff, Outcome.toOption_map, hoption,
      Option.map_eq_some_iff]
    constructor
    · rintro ⟨_, perFile, h, -⟩
      exact ⟨perFile, h⟩
    · rintro ⟨perFile, h⟩
      exact ⟨_, perFile, h, rfl⟩
  · intro extraction hok
    cases result with
    | error failure => cases hok
    | ok perFile =>
      obtain rfl := Except.ok.inj hok
      apply exists_contents_of_mapM (hr.mapM_eq_ok hcollects)
  · intro failure herror
    cases result with
    | ok perFile => cases herror
    | error failure' =>
      obtain rfl := Except.error.inj herror
      obtain ⟨file, hf, hfile⟩ := hr.exists_eq_error hcollects
      exact ⟨file, hf, fileRecords_eq_error hfile⟩
  · rw [run_eq hc hs, Outcome.toOption_map, Outcome.toOption_map, hoption]
  · intro fs' htree hread
    have hs' := Scan.run_eq_of_sameTree htree root options.extensions options.ignores
    rw [hs] at hs'
    have hr' : Schedule.Reaches (fileRecords fs' c) scan.files jobs := by
      apply hr.congr
      intro file hf
      rw [fileRecords, fileRecords, hread file hf]
    exact .collected hc hs'.symm hr' hcollects

/-- An extraction from a directory comes to an end in every order in which its files are read,
and whatever the order, it gives all records of all selected files, in the order of their
relative paths, or fails for a selected file that cannot be read. -/
theorem yields_all_or_nothing {base : Location} (hc : component options.component = .ok c)
    (hroot : fs.resolve root = .ok base) (hbase : fs.get? base = some .directory)
    (hignores : Ignores.IsValid options.ignores) :
  ∃ scan, Scan.run fs root options.extensions options.ignores = .ok scan
    ∧ scan.files.Pairwise (·.relative < ·.relative)
    ∧ (∃ outcome, Yields fs root options outcome)
    ∧ WellFounded (fun jobs' jobs => Schedule.Step (fileRecords fs c) jobs jobs')
    ∧ (∀ jobs, Schedule.Reaches (fileRecords fs c) scan.files jobs →
      (∀ jobs', ¬ Schedule.Step (fileRecords fs c) jobs jobs') →
      ∃ result, Schedule.Collects jobs result)
    ∧ ∀ outcome, Yields fs root options outcome → AllOrNothing fs root options c scan outcome
  := by
  obtain ⟨ignores, hi⟩ := Ignores.exists_compile_eq_ok hignores
  have hd : Scan.directory fs root = .ok base := Scan.directory_eq_ok_iff.2 ⟨hroot, hbase⟩
  refine ⟨_, Scan.run_eq hd hi, ?_, ?_, ?_, ?_, ?_⟩
  · apply Scan.pairwise_sortFiles Scan.nodup_map_relative
  · exact ⟨_, yields_run fs root options⟩
  · apply Schedule.wellFounded_step
  · intro jobs hr hend
    exact ⟨_, hr.collects_mapM hend⟩
  · intro outcome h
    apply h.allOrNothing hc (Scan.run_eq hd hi)

/-- With the dead link ignored, only one thing can come of the project. -/
theorem setOf_yields_project :
  {outcome | Yields Scan.project ⟨"app"⟩
      { extensions := ["jsx"], ignores := ["D*"], component := "LocalizeText" } outcome}
    = {.ok {
      catalog := ⟨[
        { id := some "a", file := "App.jsx" },
        { id := some "b", file := "App.jsx" },
        { id := some "shared", file := "Shared.jsx" },
        { id := some "menu", file := "views.jsx/Menu.jsx" }]⟩
      scanned := 3
      ignored := 1 }}
  := by
  have hignores : Ignores.IsValid ["D*"] := by
    intro entry he _
    obtain rfl := List.mem_singleton.1 he
    exact ⟨_, rfl⟩
  obtain ⟨scan, -, -, hyields, -, -, hall⟩ := @yields_all_or_nothing Scan.project ⟨"app"⟩
    { extensions := ["jsx"], ignores := ["D*"], component := "LocalizeText" } .default
    ["home", "app"] (by decide +kernel) (by decide +kernel) (by decide +kernel) hignores
  apply Set.eq_singleton_iff_nonempty_unique_mem.2
  use hyields
  intro outcome h
  apply Outcome.toOption_eq_some_iff.1
  rw [(hall outcome h).sequential]
  decide +kernel

end Localization.Extraction

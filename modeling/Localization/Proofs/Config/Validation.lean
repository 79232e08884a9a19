import Localization.Config
import Localization.Proofs.Extraction.Schedules
import Localization.Proofs.FileSystem.Paths

/-!
# What a valid configuration rules out

`Config.validate` and the users of a configuration agree.  Both refuse an ignore list for the
first of its entries that is meant as a pattern and is none, `Ignores.FirstFault`.  With a valid
configuration nothing is left that an extraction from a directory could fail for, except a
selected file that cannot be read (`Config.validate_foresees`).
-/

namespace Localization

namespace Ignores

/-- The first entry with a wildcard that is no pattern, and what is wrong with it. -/
def FirstFault (entries : List String) (entry : String) (fault : Glob.Fault) : Prop :=
  ∃ before after, entries = before ++ entry :: after ∧ IsValid before
    ∧ Glob.hasWildcard entry ∧ Glob.compile entry = .error fault

/-- Compiling ignore entries fails exactly for the first of them that is no pattern. -/
theorem compile_eq_error_iff {entries : List String} {failure : Failure} :
  compile entries = .error failure
    ↔ ∃ entry fault, FirstFault entries entry fault ∧ failure = .badIgnore entry fault
  := by
  rw [compile, Outcome.bind_pure_eq_error_iff, Outcome.mapM_eq_error_iff]
  simp only [Outcome.mapError_eq_ok_iff, Outcome.mapError_eq_error_iff]
  constructor
  · rintro ⟨globs, entry, after, hentries, hglobs, fault, hfault, rfl⟩
    obtain ⟨front, back, rfl, rfl, hback⟩ := List.filter_eq_append_iff.1 hentries
    obtain ⟨others, after, rfl, hothers, hw, rfl⟩ := List.filter_eq_cons_iff.1 hback
    refine ⟨entry, fault, ⟨front ++ others, after, by simp, ?_, hw, hfault⟩, rfl⟩
    intro e he hwe
    obtain he | he := List.mem_append.1 he
    · exact hglobs e (List.mem_filter.2 ⟨he, hwe⟩)
    · exact absurd hwe (hothers e he)
  · rintro ⟨entry, fault, ⟨before, after, rfl, hbefore, hw, hfault⟩, rfl⟩
    refine ⟨before.filter Glob.hasWildcard, entry, after.filter Glob.hasWildcard, ?_, ?_, fault,
      hfault, rfl⟩
    · rw [List.filter_append, List.filter_cons_of_pos hw]
    · intro e he
      obtain ⟨he, hwe⟩ := List.mem_filter.1 he
      exact hbefore e he hwe

end Ignores

namespace Config

open Ignores

variable {config : Config} {entry : String} {fault : Glob.Fault}

theorem ignoreFault?_eq_some_iff :
  ignoreFault? entry = some fault ↔ Glob.hasWildcard entry ∧ Glob.compile entry = .error fault
  := by
  rw [ignoreFault?]
  cases Glob.compile entry with
  | ok glob => simp
  | error f => simp

theorem ignoreFault?_eq_none_iff :
  ignoreFault? entry = none ↔ (Glob.hasWildcard entry → ∃ glob, Glob.compile entry = .ok glob)
  := by
  rw [ignoreFault?]
  cases Glob.compile entry with
  | ok glob => simp
  | error f => simp

/-- The entry that a configuration is refused for, if there is one. -/
def firstFault? (entries : List String) : Option (String × Glob.Fault) :=
  entries.findSome? fun entry => (ignoreFault? entry).map (entry, ·)

theorem firstFault?_eq_some_iff {entries : List String} :
  firstFault? entries = some (entry, fault) ↔ FirstFault entries entry fault
  := by
  simp only [firstFault?, List.findSome?_eq_some_iff, Option.map_eq_some_iff, Prod.mk.injEq,
    Option.map_eq_none_iff, ignoreFault?_eq_some_iff, ignoreFault?_eq_none_iff]
  constructor
  · rintro ⟨before, _, after, rfl, ⟨_, ⟨hw, hfault⟩, rfl, rfl⟩, hbefore⟩
    exact ⟨before, after, rfl, hbefore, hw, hfault⟩
  · rintro ⟨before, after, rfl, hbefore, hw, hfault⟩
    exact ⟨before, entry, after, rfl, ⟨fault, ⟨hw, hfault⟩, rfl, rfl⟩, hbefore⟩

theorem firstFault?_eq_none_iff {entries : List String} :
  firstFault? entries = none ↔ IsValid entries
  := by
  simp only [firstFault?, List.findSome?_eq_none_iff, Option.map_eq_none_iff,
    ignoreFault?_eq_none_iff, IsValid]

theorem validate_eq_ok_iff :
  config.validate = .ok ()
    ↔ IsValid config.ignores ∧ config.extensions ≠ []
      ∧ Text.isBlankText config.component.toList = false
  := by
  rw [← firstFault?_eq_none_iff, validate, ← firstFault?]
  cases firstFault? config.ignores with
  | some p => simp
  | none =>
    dsimp only
    split
    · next he => simp [he]
    · next he =>
      split
      · next hc => simp [hc]
      · next hc => simp [he, hc]

theorem validate_eq_badConfigIgnore_iff :
  config.validate = .error (.badConfigIgnore entry fault)
    ↔ FirstFault config.ignores entry fault
  := by
  rw [← firstFault?_eq_some_iff, validate, ← firstFault?]
  cases firstFault? config.ignores with
  | some p => simp [Prod.ext_iff]
  | none =>
    dsimp only
    split
    · simp
    · split
      · simp
      · simp

/-- The options of an extraction that follows the configuration throughout. -/
def extractionOptions (config : Config) : ExtractionOptions where
  extensions := config.extensions
  ignores := config.ignores
  component := config.component

end Config

namespace Scan

variable {fs : FileSystem} {root : Path} {extensions entries : List String}

theorem directory_eq_error {failure : Failure} (h : directory fs root = .error failure) :
  failure = .notDirectory root
  := by
  rw [directory] at h
  split at h
  · split at h
    · cases h
    · exact (Except.error.inj h).symm
  · exact (Except.error.inj h).symm

/-- A scan refuses its ignore entries before it looks at the file system. -/
theorem run_eq_badIgnore_iff {entry : String} {fault : Glob.Fault} :
  run fs root extensions entries = .error (.badIgnore entry fault)
    ↔ Ignores.FirstFault entries entry fault
  := by
  constructor
  · intro h
    cases hc : Ignores.compile entries with
    | error failure =>
      rw [run, hc, Outcome.error_bind] at h
      obtain rfl := Except.error.inj h
      obtain ⟨_, _, hf, heq⟩ := Ignores.compile_eq_error_iff.1 hc
      cases heq
      exact hf
    | ok ignores =>
      rw [run, hc, Outcome.ok_bind] at h
      cases hd : directory fs root with
      | error failure =>
        rw [hd, Outcome.error_bind, directory_eq_error hd] at h
        cases h
      | ok l =>
        rw [hd, Outcome.ok_bind] at h
        cases h
  · intro h
    rw [run, Ignores.compile_eq_error_iff.2 ⟨entry, fault, h, rfl⟩, Outcome.error_bind]

end Scan

theorem Extraction.exists_component {name : String} (h : Text.isBlankText name.toList = false) :
  ∃ c, component name = .ok c
  := by
  rw [component, Component.ofName?, dif_pos h]
  exact ⟨_, rfl⟩

theorem FileSystem.exists_resolve_of_isDirectory {fs : FileSystem} {p : Path}
    (h : fs.isDirectory p) :
  ∃ l, fs.resolve p = .ok l ∧ fs.get? l = some .directory
  := isDirectory_iff.1 h

/-- With a valid configuration an extraction from a directory fails, in whatever order it reads
the files, exactly when a selected file cannot be read, and for such a file.  The ignore entry
that makes a configuration invalid is the one for which every scan is refused: the first that is
meant as a pattern and is none. -/
theorem Config.validate_foresees (config : Config) :
  (config.validate = .ok () → ∀ (fs : FileSystem) (root : Path), fs.isDirectory root →
    ∃ scan, Scan.run fs root config.extensions config.ignores = .ok scan
      ∧ Extraction.Yields fs root config.extractionOptions
        (Extraction.run fs root config.extractionOptions)
      ∧ ∀ outcome, Extraction.Yields fs root config.extractionOptions outcome →
        ((∃ extraction, outcome = .ok extraction)
          ↔ ∀ file ∈ scan.files, ∃ bytes, fs.read file.path = .ok bytes)
        ∧ ∀ failure, outcome = .error failure → ∃ file ∈ scan.files, ∃ fault,
          fs.read file.path = .error fault ∧ failure = .unreadableSource file.path fault)
  ∧ ∀ (entry : String) (fault : Glob.Fault),
    (config.validate = .error (.badConfigIgnore entry fault)
      ↔ Ignores.FirstFault config.ignores entry fault)
    ∧ ∀ (fs : FileSystem) (root : Path) (extensions : List String),
      Scan.run fs root extensions config.ignores = .error (.badIgnore entry fault)
        ↔ Ignores.FirstFault config.ignores entry fault
  := by
  constructor
  · intro hvalid fs root hroot
    obtain ⟨hignores, -, hcomponent⟩ := validate_eq_ok_iff.1 hvalid
    obtain ⟨c, hc⟩ := Extraction.exists_component hcomponent
    obtain ⟨ignores, hi⟩ := Ignores.exists_compile_eq_ok hignores
    obtain ⟨base, hbase⟩ := FileSystem.exists_resolve_of_isDirectory hroot
    have hscan := @Scan.run_eq fs root base config.extensions config.ignores ignores
      (Scan.directory_eq_ok_iff.2 hbase) hi
    refine ⟨_, hscan, Extraction.yields_run fs root _, ?_⟩
    intro outcome h
    have hall := @Extraction.Yields.allOrNothing fs root config.extractionOptions c _ outcome h hc
      hscan
    exact ⟨hall.exists_ok_iff, hall.failure_eq⟩
  · intro entry fault
    exact ⟨validate_eq_badConfigIgnore_iff, fun _ _ _ => Scan.run_eq_badIgnore_iff⟩

/-- A bracket that is not closed is no fault in an entry without a wildcard, and the project is
extracted but for its dead link.  After a wildcard it is one. -/
theorem Config.validate_foresees_project :
  (∀ outcome, Extraction.Yields Scan.project ⟨"app"⟩
      { extensions := ["jsx"], ignores := ["lib/[x", "*/M?nu.*"], component := "LocalizeText" }
      outcome →
    outcome = .error (.unreadableSource ⟨"app/Dead.jsx"⟩ .notFound))
  ∧ Scan.run .empty ⟨"app"⟩ ["jsx"] ["lib/[x", "*/[x", "***"]
    = .error (.badIgnore "*/[x" ⟨2, .bracket⟩)
  := by
  constructor
  · obtain ⟨scan, hscan, -, hall⟩ := (validate_foresees { ignores := ["lib/[x", "*/M?nu.*"] }).1
      (by decide +kernel) Scan.project ⟨"app"⟩ (by decide +kernel)
    have hfiles : Scan.run Scan.project ⟨"app"⟩ ["jsx"] ["lib/[x", "*/M?nu.*"] = .ok {
        files := [⟨⟨"app/App.jsx"⟩, "App.jsx"⟩, ⟨⟨"app/Dead.jsx"⟩, "Dead.jsx"⟩,
          ⟨⟨"app/Shared.jsx"⟩, "Shared.jsx"⟩]
        ignored := 1 } := by decide +kernel
    obtain rfl := Outcome.eq_of_eq_ok hscan hfiles
    have hdead : Scan.project.read ⟨"app/Dead.jsx"⟩ = .error .notFound := by decide +kernel
    have hread : ∀ path ∈ [⟨"app/App.jsx"⟩, ⟨"app/Shared.jsx"⟩],
        (Scan.project.read path).isOk := by decide +kernel
    intro outcome h
    obtain ⟨hok, hfailure⟩ := hall outcome h
    cases outcome with
    | ok extraction =>
      obtain ⟨bytes, hbytes⟩ := hok.1 ⟨extraction, rfl⟩ ⟨⟨"app/Dead.jsx"⟩, "Dead.jsx"⟩ (by simp)
      rw [hdead] at hbytes
      cases hbytes
    | error failure =>
      obtain ⟨file, hf, fault, hfault, rfl⟩ := hfailure failure rfl
      simp only [List.mem_cons, List.not_mem_nil, or_false] at hf
      obtain rfl | rfl | rfl := hf
      · have happ := hread ⟨"app/App.jsx"⟩ (by simp)
        rw [hfault] at happ
        cases happ
      · rw [hdead] at hfault
        rw [Except.error.inj hfault]
      · have hshared := hread ⟨"app/Shared.jsx"⟩ (by simp)
        rw [hfault] at hshared
        cases hshared
  · obtain ⟨hvalidate, hscan⟩ := (validate_foresees { ignores := ["lib/[x", "*/[x", "***"] }).2
      "*/[x" ⟨2, .bracket⟩
    apply (hscan .empty ⟨"app"⟩ ["jsx"]).2
    apply hvalidate.1
    decide +kernel

end Localization

import Localization.Proofs.Glob.Directories
import Localization.Proofs.Path.SlashForm
import Localization.Proofs.Scan.Exclusion

/-!
# Ignored directories

A directory can be ignored by its path, or by a pattern for what is below it.  The path is compared
part by part, and the pattern with the names and the separators between them; both exclude the same
files, except that only the path excludes a file at the directory's own place (`run_directory`).  A
path that is spelled with a `.` in front excludes nothing, and all other spellings of a path exclude
the same (`run_spelled`).  A directory between `**/` and `/**` is ignored wherever it is
(`run_anywhere`).
-/

namespace Localization

namespace Ignores

open Glob (IsPlain)

variable {entry directory : String} {glob : Glob} {names : Location}

/-! ### What an entry for a directory matches -/

/-- The relative path leads to something below the directory. -/
def isBelow (directory relative : String) : Bool :=
  (directory.toList ++ ['/']).isPrefixOf relative.toList

theorem isBelow_iff {relative : String} :
  isBelow directory relative ↔ ∃ rest, relative.toList = directory.toList ++ '/' :: rest
  := by
  rw [isBelow, List.isPrefixOf_iff_prefix]
  constructor
  · rintro ⟨rest, hr⟩
    use rest
    rw [← hr, List.append_assoc]
    rfl
  · rintro ⟨rest, hr⟩
    use rest
    rw [hr, List.append_assoc]
    rfl

theorem not_hasWildcard_of_isPlain (h : IsPlain entry.toList) :
  ¬ Glob.hasWildcard entry
  := by
  rw [Glob.hasWildcard, List.any_eq_true]
  rintro ⟨c, hc, hw⟩
  obtain ⟨hstar, hmark, -⟩ := h c hc
  simp [hstar, hmark] at hw

theorem matches_path_iff (h : ¬ Glob.hasWildcard entry) :
  Matches entry names ↔ (Path.mk entry).parts <+: names.map .name
  := by
  rw [Matches, if_neg h]

theorem matches_pattern_iff (hw : Glob.hasWildcard entry) (hc : Glob.compile entry = .ok glob) :
  Matches entry names ↔ Glob.describes glob.tokens ("/".intercalate names).toList
  := by
  rw [Matches, if_pos hw]
  constructor
  · rintro ⟨glob', hc', hd⟩
    obtain rfl := Outcome.eq_of_eq_ok hc' hc
    exact hd
  · exact fun hd => ⟨glob, hc, hd⟩

/-- A directory followed by `/*` matches what is below it. -/
theorem matches_sequence_iff (h : IsPlain directory.toList) :
  Matches (directory ++ "/*") names ↔ isBelow directory ("/".intercalate names)
  := by
  rw [matches_pattern_iff (by simp [Glob.hasWildcard]) (Glob.compile_sequence h),
    Glob.describes_plain_append, isBelow_iff]
  simp [Glob.describes_sequence]

/-- A directory followed by `/**` matches what is below it. -/
theorem matches_directories_iff (h : IsPlain directory.toList) :
  Matches (directory ++ "/**") names ↔ isBelow directory ("/".intercalate names)
  := by
  rw [matches_pattern_iff (by simp [Glob.hasWildcard]) (Glob.compile_directories h),
    Glob.describes_plain_append, isBelow_iff]
  simp [Glob.describes_final_directories]

/-- A path matches when it has no start and its steps are the first names. -/
theorem matches_spelled_iff (h : ¬ Glob.hasWildcard entry) :
  Matches entry names ↔ (Path.mk entry).anchor? = none
    ∧ (Path.mk (Path.mk entry).slashForm).parts <+: names.map .name
  := by
  rw [matches_path_iff h, Path.parts_prefix_names_iff]

section

variable (hnames : ∀ name ∈ names, IsName name)

include hnames

/-- A path that is its own slash form matches what is at the path and what is below it. -/
theorem matches_slashForm_iff (h : IsPlain directory.toList) (hne : directory ≠ "")
    (hform : (Path.mk directory).slashForm = directory) :
  Matches directory names
    ↔ "/".intercalate names = directory ∨ isBelow directory ("/".intercalate names)
  := by
  rw [matches_path_iff (not_hasWildcard_of_isPlain h),
    Path.parts_prefix_names_iff_of_slashForm hnames hform hne, isBelow_iff]

/-- A directory between `**/` and `/**` matches what has a directory of this name above it. -/
theorem matches_anywhere_iff (h : IsPlain directory.toList) (hname : IsName directory) :
  Matches ("**/" ++ directory ++ "/**") names ↔ directory ∈ names.dropLast
  := by
  have hrest : Glob.describes (Glob.plainTokens (directory.toList ++ ['/']) ++ [.directories]) []
      = false := by
    rw [← Bool.not_eq_true, Glob.describes_plain_append]
    simp
  rw [String.append_assoc, matches_pattern_iff (by simp [Glob.hasWildcard])
    (Glob.compile_anywhere h), Glob.describes_directories hrest,
    ← Path.exists_toList_intercalate_iff_mem_dropLast hnames hname]
  simp [Glob.describes_plain_append, Glob.describes_final_directories]

end

/-! ### Entries that are patterns -/

theorem isValid_append_iff {entries entries' : List String} :
  IsValid (entries ++ entries') ↔ IsValid entries ∧ IsValid entries'
  := List.forall_mem_append

theorem isValid_singleton (h : Glob.hasWildcard entry → ∃ glob, Glob.compile entry = .ok glob) :
  IsValid [entry]
  := by
  simpa [IsValid] using h

/-- A path that goes on after the directory with another character than a separator does not lead
below it, and is not the directory. -/
theorem not_isBelow_of_ne {relative : String} {c : Char} {rest : List Char} (hc : c ≠ '/')
    (h : relative.toList = directory.toList ++ c :: rest) :
  isBelow directory relative = false ∧ relative ≠ directory
  := by
  constructor
  · rw [← Bool.not_eq_true, isBelow_iff]
    rintro ⟨rest', hr⟩
    rw [h] at hr
    exact hc (List.cons.inj (List.append_cancel_left hr)).1
  · rintro rfl
    simp at h

end Ignores

namespace Scan

open Ignores (isBelow)

variable {fs : FileSystem} {root : Path} {base : Location} {extensions entries : List String}
  {directory : String}

/-- A project in which a directory, a file, and the beginning of the name of another directory are
called alike. -/
def alike : FileSystem where
  entries := .ofList [
    (["app"], .directory),
    (["app", "gen.jsx"], .directory),
    (["app", "gen.jsx", "A.jsx"], .file .empty),
    (["app", "gen.jsx", "sub"], .directory),
    (["app", "gen.jsx", "sub", "B.jsx"], .file .empty),
    (["app", "gen.jsx2"], .directory),
    (["app", "gen.jsx2", "C.jsx"], .file .empty),
    (["app", "lib"], .directory),
    (["app", "lib", "gen.jsx"], .file .empty),
    (["app", "lib", "sub"], .directory),
    (["app", "lib", "sub", "gen.jsx"], .directory),
    (["app", "lib", "sub", "gen.jsx", "D.jsx"], .file .empty)]
  workingDirectory := []
  ne_root := by decide +kernel
  isName := by decide +kernel
  parent := by decide +kernel

/-! ### Paths -/

/-- A scan that ignores a path excludes the files whose first names are the steps of the path, when
the path starts neither at the root nor with `.`, and otherwise none. -/
theorem run_spelled (hroot : fs.resolve root = .ok base)
    (hbase : fs.get? base = some .directory) {entry : String} (h : ¬ Glob.hasWildcard entry) :
  ∃ scan, run fs root extensions [entry] = .ok scan
    ∧ Excludes fs root base extensions
      (fun names => (Path.mk entry).anchor? = none
        ∧ (Path.mk (Path.mk entry).slashForm).parts <+: names.map .name) scan
  := by
  apply exists_excludes extensions hroot hbase (Ignores.isValid_singleton fun hw => absurd hw h)
  intro names _
  simp [Ignores.matches_spelled_iff h]

/-- Separators that are repeated or trail, and inner `.` pieces, do not matter. -/
theorem run_spelled_alike :
  ∃ scan, run alike ⟨"app"⟩ ["jsx"] ["lib//./sub/."] = .ok scan
    ∧ Excludes alike ⟨"app"⟩ ["app"] ["jsx"]
      (fun names => (Path.mk "lib//./sub/.").anchor? = none
        ∧ (Path.mk (Path.mk "lib//./sub/.").slashForm).parts <+: names.map .name) scan
    ∧ scan.files.map (·.relative)
      = ["gen.jsx/A.jsx", "gen.jsx/sub/B.jsx", "gen.jsx2/C.jsx", "lib/gen.jsx"]
  := by
  obtain ⟨scan, hscan, hexcludes⟩ := @run_spelled alike ⟨"app"⟩ ["app"] ["jsx"]
    (by decide +kernel) (by decide +kernel) "lib//./sub/." (by decide)
  refine ⟨scan, hscan, hexcludes, ?_⟩
  have hfiles : (run alike ⟨"app"⟩ ["jsx"] ["lib//./sub/."]).map (·.files.map (·.relative))
      = .ok ["gen.jsx/A.jsx", "gen.jsx/sub/B.jsx", "gen.jsx2/C.jsx", "lib/gen.jsx"] := by
    decide +kernel
  rw [hscan] at hfiles
  apply Except.ok.inj hfiles

/-- A `.` in front of a path keeps it from excluding what is at the path and below it. -/
theorem not_forall_run_spelled :
  ¬ ∀ (fs : FileSystem) (root : Path) (base : Location) (extensions : List String)
    (entry : String), fs.resolve root = .ok base → fs.get? base = some .directory →
    ¬ Glob.hasWildcard entry → ¬ (Path.mk entry).isAbsolute → .up ∉ (Path.mk entry).parts →
    ∃ scan, run fs root extensions [entry] = .ok scan
      ∧ Excludes fs root base extensions
        (fun names => (Path.mk (Path.mk entry).slashForm).parts <+: names.map .name) scan
  := by
  intro h
  obtain ⟨scan, hscan, hexcludes⟩ := h alike ⟨"app"⟩ ["app"] ["jsx"] "./gen.jsx"
    (by decide +kernel) (by decide +kernel) (by decide) (by decide) (by decide)
  have hfile : (run alike ⟨"app"⟩ ["jsx"] ["./gen.jsx"]).map
      (decide <| ⟨⟨"app/gen.jsx/A.jsx"⟩, "gen.jsx/A.jsx"⟩ ∈ ·.files) = .ok true := by
    decide +kernel
  rw [hscan] at hfile
  obtain ⟨names, hn, hnot, heq⟩ :=
    (hexcludes.mem_files_iff _).1 (of_decide_eq_true (Except.ok.inj hfile))
  have hnames : names = ["gen.jsx", "A.jsx"] := by
    apply Path.eq_of_intercalate_eq hn.isName (by decide)
    exact (congrArg SourceFile.relative heq).symm
  apply hnot
  rw [hnames]
  decide

/-! ### Paths and patterns -/

/-- A scan with one more entry excludes what this entry matches, too. -/
theorem exists_excludes_append (extensions : List String) (hroot : fs.resolve root = .ok base)
    (hbase : fs.get? base = some .directory) (hentries : Ignores.IsValid entries)
    {entry : String} (hentry : Ignores.IsValid [entry]) (p : String → Bool)
    (h : ∀ names, (∀ name ∈ names, IsName name) →
      (Ignores.Matches entry names ↔ p ("/".intercalate names))) :
  ∃ scan, run fs root extensions (entries ++ [entry]) = .ok scan
    ∧ Excludes fs root base extensions
      (fun names => (∃ e ∈ entries, Ignores.Matches e names) ∨ p ("/".intercalate names)) scan
  := by
  apply exists_excludes extensions hroot hbase
    (Ignores.isValid_append_iff.2 ⟨hentries, hentry⟩)
  intro names hn
  simp [or_and_right, exists_or, h names hn.isName]

/-- The patterns for what is below a directory exclude the same files. -/
theorem exists_excludes_below (extensions : List String) (hroot : fs.resolve root = .ok base)
    (hbase : fs.get? base = some .directory) (hentries : Ignores.IsValid entries)
    (h : Glob.IsPlain directory.toList) :
  ∃ scan, run fs root extensions (entries ++ [directory ++ "/*"]) = .ok scan
    ∧ run fs root extensions (entries ++ [directory ++ "/**"]) = .ok scan
    ∧ Excludes fs root base extensions
      (fun names => (∃ e ∈ entries, Ignores.Matches e names)
        ∨ isBelow directory ("/".intercalate names)) scan
  := by
  obtain ⟨scan, hscan, hexcludes⟩ := exists_excludes_append extensions hroot hbase hentries
    (Ignores.isValid_singleton fun _ => ⟨_, Glob.compile_sequence h⟩) (isBelow directory)
    fun _ _ => Ignores.matches_sequence_iff h
  obtain ⟨scan', hscan', hexcludes'⟩ := exists_excludes_append extensions hroot hbase hentries
    (Ignores.isValid_singleton fun _ => ⟨_, Glob.compile_directories h⟩) (isBelow directory)
    fun _ _ => Ignores.matches_directories_iff h
  obtain rfl := hexcludes.unique hexcludes'
  exact ⟨scan, hscan, hscan', hexcludes⟩

/-- To ignore a directory by its path or by a pattern for what is below it comes to the same, except
for a file at the place of the directory: only the path excludes it, and counts it.  A file whose
path merely begins like the directory is not affected. -/
theorem run_directory (hroot : fs.resolve root = .ok base)
    (hbase : fs.get? base = some .directory) (hentries : Ignores.IsValid entries)
    (hne : directory ≠ "") (hform : (Path.mk directory).slashForm = directory)
    (h : Glob.IsPlain directory.toList) :
  ∃ others path pattern, run fs root extensions entries = .ok others
    ∧ run fs root extensions (entries ++ [directory]) = .ok path
    ∧ run fs root extensions (entries ++ [directory ++ "/*"]) = .ok pattern
    ∧ run fs root extensions (entries ++ [directory ++ "/**"]) = .ok pattern
    ∧ pattern.files = others.files.filter (!isBelow directory ·.relative)
    ∧ path.files = pattern.files.filter (·.relative != directory)
    ∧ path.ignored = pattern.ignored + pattern.files.countP (·.relative == directory)
    ∧ ∀ file ∈ others.files, ∀ c rest, c ≠ '/' →
      file.relative.toList = directory.toList ++ c :: rest →
      file ∈ path.files ∧ file ∈ pattern.files
  := by
  obtain ⟨others, hothers, ho⟩ :=
    exists_excludes extensions hroot hbase hentries fun _ _ => Iff.rfl
  obtain ⟨pattern, hsequence, hdirectories, hp⟩ :=
    exists_excludes_below extensions hroot hbase hentries h
  have hw := Ignores.not_hasWildcard_of_isPlain h
  obtain ⟨path, hpath, ha⟩ := exists_excludes_append extensions hroot hbase hentries
    (Ignores.isValid_singleton fun h' => absurd h' hw)
    (fun relative => relative == directory || isBelow directory relative) fun names hn => by
      rw [Ignores.matches_slashForm_iff hn h hne hform, Bool.or_eq_true, beq_iff_eq]
  have hbelow := ho.files_eq_filter hp _ fun _ _ => Iff.rfl
  have hat : path.files = pattern.files.filter (·.relative != directory) :=
    hp.files_eq_filter ha (· == directory) fun names _ => by
      rw [Bool.or_eq_true, or_assoc, or_comm (a := isBelow directory ("/".intercalate names))]
  refine ⟨others, path, pattern, hothers, hpath, hsequence, hdirectories, hbelow, hat,
    hp.ignored_eq_add_countP ha (· == directory) hat, ?_⟩
  intro file hfile c rest hc hrest
  obtain ⟨hnot, hne⟩ := Ignores.not_isBelow_of_ne hc hrest
  have hpattern : file ∈ pattern.files := by
    rw [hbelow, List.mem_filter]
    simp [hfile, hnot]
  rw [hat, List.mem_filter]
  simp [hpattern, hne]

/-- A directory with something below it beside one whose name begins alike, when something else is
ignored, too. -/
theorem run_directory_alike :
  ∃ path pattern, run alike ⟨"app"⟩ ["jsx"] ["lib/sub", "gen.jsx"] = .ok path
    ∧ run alike ⟨"app"⟩ ["jsx"] ["lib/sub", "gen.jsx/**"] = .ok pattern
    ∧ path.files = pattern.files.filter (·.relative != "gen.jsx")
    ∧ pattern.files.map (·.relative) = ["gen.jsx2/C.jsx", "lib/gen.jsx"]
    ∧ pattern.ignored = 3
  := by
  have hentries : Ignores.IsValid ["lib/sub"] :=
    Ignores.isValid_singleton fun hw => absurd hw (by decide)
  obtain ⟨others, path, pattern, -, hpath, -, hpattern, -, hfiles, -⟩ :=
    @run_directory alike ⟨"app"⟩ ["app"] ["jsx"] ["lib/sub"] "gen.jsx" (by decide +kernel)
      (by decide +kernel) hentries (by decide) (by decide) (by decide)
  refine ⟨path, pattern, hpath, hpattern, hfiles, ?_⟩
  have hrun : (run alike ⟨"app"⟩ ["jsx"] ["lib/sub", "gen.jsx/**"]).map
      (fun scan => (scan.files.map (·.relative), scan.ignored))
      = .ok (["gen.jsx2/C.jsx", "lib/gen.jsx"], 3) := by
    decide +kernel
  have hentry : "gen.jsx" ++ "/**" = "gen.jsx/**" := by decide
  rw [List.singleton_append, hentry] at hpattern
  rw [hpattern] at hrun
  apply Prod.mk.inj (Except.ok.inj hrun)

/-! ### Directories at any depth -/

/-- A directory between `**/` and `/**` is ignored wherever it is: a scan excludes the files that
have a directory of this name above them. -/
theorem run_anywhere (hroot : fs.resolve root = .ok base)
    (hbase : fs.get? base = some .directory) (hname : IsName directory)
    (h : Glob.IsPlain directory.toList) :
  ∃ scan, run fs root extensions ["**/" ++ directory ++ "/**"] = .ok scan
    ∧ Excludes fs root base extensions (fun names => directory ∈ names.dropLast) scan
  := by
  apply exists_excludes extensions hroot hbase
  · apply Ignores.isValid_singleton
    intro _
    rw [String.append_assoc]
    exact ⟨_, Glob.compile_anywhere h⟩
  · intro names hn
    simp [Ignores.matches_anywhere_iff hn.isName h hname]

/-- A file of the name, and a directory whose name begins with it, are kept. -/
theorem run_anywhere_alike :
  ∃ scan, run alike ⟨"app"⟩ ["jsx"] ["**/gen.jsx/**"] = .ok scan
    ∧ Excludes alike ⟨"app"⟩ ["app"] ["jsx"] (fun names => "gen.jsx" ∈ names.dropLast) scan
    ∧ scan.files.map (·.relative) = ["gen.jsx2/C.jsx", "lib/gen.jsx"]
  := by
  obtain ⟨scan, hscan, hexcludes⟩ := @run_anywhere alike ⟨"app"⟩ ["app"] ["jsx"] "gen.jsx"
    (by decide +kernel) (by decide +kernel) (by decide) (by decide)
  refine ⟨scan, hscan, hexcludes, ?_⟩
  have hfiles : (run alike ⟨"app"⟩ ["jsx"] ["**/gen.jsx/**"]).map (·.files.map (·.relative))
      = .ok ["gen.jsx2/C.jsx", "lib/gen.jsx"] := by
    decide +kernel
  have hentry : "**/" ++ "gen.jsx" ++ "/**" = "**/gen.jsx/**" := by decide
  rw [hentry] at hscan
  rw [hscan] at hfiles
  apply Except.ok.inj hfiles

end Scan
end Localization

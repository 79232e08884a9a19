import Localization.Proofs.Config.Loading
import Localization.Proofs.Path.Parents

/-!
# Where the configuration is found

The configuration for a directory is looked for on the way up, in the directory itself and in
its parents.  `Config.IsNearest` says that a directory is the first on this way that holds a
configuration, and that none before it holds `.git`: it is this one that is found
(`find?_eq_some_iff`).  What is loaded depends only on the directories up to the first that holds
one of the two (`load_eq_of_agrees`), and a configuration that is found and cannot be used is a
failure (`find?_nearest`).
-/

namespace Localization.Config

/-- The name of what ends the way up. -/
def gitName : Path := ⟨".git"⟩

/-- The directory is met on the way up, so many parents above the start: none before it holds a
configuration or `.git`. -/
structure IsMet (fs : FileSystem) (start : Path) (n : Nat) (directory : Path) : Prop where
  ancestor : start.ancestor? n = some directory
  no_config : ∀ k < n, ∀ d, start.ancestor? k = some d → ¬ fs.exists (d.join fileName)
  no_git : ∀ k < n, ∀ d, start.ancestor? k = some d → ¬ fs.exists (d.join gitName)

/-- The directory is the first with a configuration on the way up, and none before it holds
`.git`. -/
structure IsNearest (fs : FileSystem) (start : Path) (n : Nat) (directory : Path) : Prop
    extends IsMet fs start n directory where
  exists_config : fs.exists (directory.join fileName)

/-- The file systems have the same configuration in the directory, if any, and both have `.git`
there or none has. -/
structure AgreesAt (fs fs' : FileSystem) (directory : Path) : Prop where
  exists_config : fs.exists (directory.join fileName) = fs'.exists (directory.join fileName)
  exists_git : fs.exists (directory.join gitName) = fs'.exists (directory.join gitName)
  readText : fs.exists (directory.join fileName) →
    fs.readText (directory.join fileName) = fs'.readText (directory.join fileName)

variable {fs fs' : FileSystem} {start directory file : Path} {n fuel : Nat}

/-! ### The way up -/

/-- More steps than there are parents make no difference. -/
theorem findFrom_eq {fuel' : Nat} (h : start.text.length < fuel)
    (h' : start.text.length < fuel') :
  findFrom fs fuel start = findFrom fs fuel' start
  := by
  induction start using Path.induction_parent generalizing fuel fuel' with
  | step start ih =>
    obtain ⟨fuel, rfl⟩ := Nat.exists_eq_succ_of_ne_zero (Nat.ne_zero_of_lt h)
    obtain ⟨fuel', rfl⟩ := Nat.exists_eq_succ_of_ne_zero (Nat.ne_zero_of_lt h')
    have hparent : start.parent?.bind (findFrom fs fuel)
        = start.parent?.bind (findFrom fs fuel') := by
      apply Option.bind_congr
      intro q hq
      have hlt := Path.length_parent?_lt hq
      apply ih q hq
      · omega
      · omega
    rw [findFrom, findFrom, hparent]

/-- What is looked for in a directory, and then in its parent. -/
theorem find?_eq (fs : FileSystem) (start : Path) :
  find? fs start
    = if fs.exists (start.join fileName) then some (start.join fileName)
      else if fs.exists (start.join gitName) then none
      else start.parent?.bind (find? fs)
  := by
  have hparent : start.parent?.bind (findFrom fs start.text.length)
      = start.parent?.bind (find? fs) := by
    apply Option.bind_congr
    intro q hq
    apply findFrom_eq (Path.length_parent?_lt hq) (Nat.lt_succ_self _)
  rw [find?, findFrom, hparent]
  rfl

theorem isMet_zero_iff : IsMet fs start 0 directory ↔ directory = start := by
  constructor
  · intro h
    apply (Option.some.inj h.ancestor).symm
  · rintro rfl
    exact ⟨rfl, nofun, nofun⟩

theorem isMet_succ_iff :
  IsMet fs start (n + 1) directory
    ↔ ¬ fs.exists (start.join fileName) ∧ ¬ fs.exists (start.join gitName)
      ∧ ∃ q, start.parent? = some q ∧ IsMet fs q n directory
  := by
  constructor
  · intro h
    have hancestor := h.ancestor
    rw [Path.ancestor?_succ] at hancestor
    obtain ⟨q, hq, hd⟩ := Option.bind_eq_some_iff.1 hancestor
    obtain ⟨hconfig, hconfig'⟩ := (Path.forall_ancestor?_succ_iff hq).1 h.no_config
    obtain ⟨hgit, hgit'⟩ := (Path.forall_ancestor?_succ_iff hq).1 h.no_git
    exact ⟨hconfig, hgit, q, hq, hd, hconfig', hgit'⟩
  · rintro ⟨hconfig, hgit, q, hq, h⟩
    constructor
    · rw [Path.ancestor?_succ, hq]
      apply h.ancestor
    · exact (Path.forall_ancestor?_succ_iff hq).2 ⟨hconfig, h.no_config⟩
    · exact (Path.forall_ancestor?_succ_iff hq).2 ⟨hgit, h.no_git⟩

/-- A nearest configuration is beside the start, or else it is the nearest from the parent. -/
theorem exists_isNearest_iff {P : Path → Prop} :
  (∃ n d, IsNearest fs start n d ∧ P d)
    ↔ (fs.exists (start.join fileName) ∧ P start)
      ∨ (¬ fs.exists (start.join fileName) ∧ ¬ fs.exists (start.join gitName)
        ∧ ∃ q, start.parent? = some q ∧ ∃ n d, IsNearest fs q n d ∧ P d)
  := by
  constructor
  · rintro ⟨n, d, ⟨hmet, hd⟩, hp⟩
    cases n with
    | zero =>
      obtain rfl := isMet_zero_iff.1 hmet
      apply Or.inl ⟨hd, hp⟩
    | succ n =>
      obtain ⟨hconfig, hgit, q, hq, hmet⟩ := isMet_succ_iff.1 hmet
      apply Or.inr ⟨hconfig, hgit, q, hq, n, d, ⟨hmet, hd⟩, hp⟩
  · rintro (⟨hd, hp⟩ | ⟨hconfig, hgit, q, hq, n, d, ⟨hmet, hd⟩, hp⟩)
    · exact ⟨0, start, ⟨isMet_zero_iff.2 rfl, hd⟩, hp⟩
    · exact ⟨n + 1, d, ⟨isMet_succ_iff.2 ⟨hconfig, hgit, q, hq, hmet⟩, hd⟩, hp⟩

/-! ### What is found -/

/-- What is found is the nearest configuration, if `.git` does not come first. -/
theorem find?_eq_some_iff :
  find? fs start = some file ↔ ∃ n d, IsNearest fs start n d ∧ file = d.join fileName
  := by
  induction start using Path.induction_parent with
  | step start ih =>
    rw [find?_eq, exists_isNearest_iff]
    split
    · next hconfig =>
      simp only [hconfig, Option.some.injEq, true_and, not_true_eq_false, false_and, or_false]
      apply eq_comm
    · next hconfig =>
      split
      · next hgit => simp [hconfig, hgit]
      · next hgit =>
        have hparent : (start.parent?.bind (find? fs) = some file)
            ↔ ∃ q, start.parent? = some q
              ∧ ∃ n d, IsNearest fs q n d ∧ file = d.join fileName := by
          rw [Option.bind_eq_some_iff]
          apply exists_congr
          intro q
          apply and_congr_right
          intro hq
          apply ih q hq
        simp [hconfig, hgit, hparent]

theorem find?_eq_none_iff :
  find? fs start = none ↔ ∀ n d, ¬ IsNearest fs start n d
  := by
  rw [Option.eq_none_iff_forall_ne_some]
  simp only [ne_eq, find?_eq_some_iff]
  constructor
  · intro h n d hd
    exact h (d.join fileName) ⟨n, d, hd, rfl⟩
  · rintro h file ⟨n, d, hd, -⟩
    exact h n d hd

/-! ### What it depends on -/

theorem find?_eq_of_agrees (h : ∀ n d, IsMet fs start n d → AgreesAt fs fs' d) :
  find? fs start = find? fs' start
  := by
  induction start using Path.induction_parent with
  | step start ih =>
    have hstart := h 0 start (isMet_zero_iff.2 rfl)
    rw [find?_eq, find?_eq, ← hstart.exists_config, ← hstart.exists_git]
    by_cases hconfig : fs.exists (start.join fileName)
    · rw [if_pos hconfig, if_pos hconfig]
    · by_cases hgit : fs.exists (start.join gitName)
      · rw [if_pos hgit, if_pos hgit]
      · rw [if_neg hconfig, if_neg hconfig, if_neg hgit, if_neg hgit]
        apply Option.bind_congr
        intro q hq
        apply ih q hq
        intro n d hmet
        apply h (n + 1) d (isMet_succ_iff.2 ⟨hconfig, hgit, q, hq, hmet⟩)

/-- What is loaded depends only on the directories that are met. -/
theorem load_eq_of_agrees (h : ∀ n d, IsMet fs start n d → AgreesAt fs fs' d) :
  load fs start = load fs' start
  := by
  rw [load, load, ← find?_eq_of_agrees h]
  cases hfind : find? fs start with
  | none => rfl
  | some file =>
    obtain ⟨n, d, hd, rfl⟩ := find?_eq_some_iff.1 hfind
    have hread := (h n d hd.toIsMet).readText hd.exists_config
    dsimp only
    rw [readFile, readFile, hread]

/-! ### A configuration that cannot be used -/

/-- The configuration in a file cannot be used, and this is why. -/
inductive Unusable (fs : FileSystem) (file : Path) : Failure → Prop where
  | unreadable {fault : FileSystem.Fault} (hr : fs.readText file = .error fault) :
    Unusable fs file (.unreadableConfig file fault)
  | malformed {text : String} {fault : Json.Fault} (hr : fs.readText file = .ok text)
      (hc : ofJson text = .error fault) : Unusable fs file (.badConfig file fault)
  | invalid {text : String} {config : Config} {failure : Failure}
      (hr : fs.readText file = .ok text) (hc : ofJson text = .ok config)
      (hv : config.validate = .error failure) : Unusable fs file failure

theorem readFile_eq_error_iff {failure : Failure} :
  readFile fs file = .error failure ↔ Unusable fs file failure
  := by
  simp only [readFile, Outcome.bind_eq_error_iff, Outcome.mapError_eq_error_iff,
    Outcome.mapError_eq_ok_iff]
  constructor
  · rintro (⟨fault, hr, rfl⟩ | ⟨text, hr, ⟨fault, hc, rfl⟩ | ⟨config, hc, hv | ⟨_, -, ⟨⟩⟩⟩⟩)
    · apply Unusable.unreadable hr
    · apply Unusable.malformed hr hc
    · apply Unusable.invalid hr hc hv
  · intro h
    cases h with
    | unreadable hr => apply Or.inl ⟨_, hr, rfl⟩
    | malformed hr hc => apply Or.inr ⟨_, hr, Or.inl ⟨_, hc, rfl⟩⟩
    | invalid hr hc hv => apply Or.inr ⟨_, hr, Or.inr ⟨_, hc, Or.inl hv⟩⟩

/-- Loading fails exactly if the configuration that is found cannot be used. -/
theorem load_eq_error_iff {failure : Failure} :
  load fs start = .error failure
    ↔ ∃ n d, IsNearest fs start n d ∧ Unusable fs (d.join fileName) failure
  := by
  cases hfind : find? fs start with
  | none =>
    rw [load, hfind]
    constructor
    · intro h
      cases h
    · rintro ⟨n, d, hd, -⟩
      exact absurd hd (find?_eq_none_iff.1 hfind n d)
  | some file =>
    have hload : load fs start = .error failure ↔ Unusable fs file failure := by
      rw [load, hfind, ← readFile_eq_error_iff]
      apply Outcome.bind_pure_eq_error_iff
    rw [hload]
    constructor
    · intro h
      obtain ⟨n, d, hd, rfl⟩ := find?_eq_some_iff.1 hfind
      exact ⟨n, d, hd, h⟩
    · rintro ⟨n, d, hd, h⟩
      have hfile := find?_eq_some_iff.2 ⟨n, d, hd, rfl⟩
      obtain rfl := Option.some.inj (hfind.symm.trans hfile)
      apply h

/-- The way up from a directory ends, and the first configuration on it is found, if `.git` does
not come before it.  What is loaded depends on nothing farther, and loading fails exactly if the
configuration that is found cannot be used. -/
theorem find?_nearest (start : Path) :
  start.ancestor? (start.text.length + 1) = none
    ∧ (∀ fs file, find? fs start = some file
      ↔ ∃ n d, IsNearest fs start n d ∧ file = d.join fileName)
    ∧ (∀ fs, find? fs start = none ↔ ∀ n d, ¬ IsNearest fs start n d)
    ∧ (∀ fs fs', (∀ n d, IsMet fs start n d → AgreesAt fs fs' d)
      → load fs start = load fs' start)
    ∧ (∀ fs failure, load fs start = .error failure
      ↔ ∃ n d, IsNearest fs start n d ∧ Unusable fs (d.join fileName) failure)
  := by
  refine ⟨Path.ancestor?_eq_none start, ?_, ?_, ?_, ?_⟩
  · intro fs file
    apply find?_eq_some_iff
  · intro fs
    apply find?_eq_none_iff
  · intro fs fs' h
    apply load_eq_of_agrees h
  · intro fs failure
    apply load_eq_error_iff

/-- A directory with a configuration, and below it a project of its own with a configuration that
cannot be used. -/
def nested : FileSystem where
  entries := .ofList [
    (["home"], .directory),
    (["home", ".localizerc.json"], .file "\x7b\x7d".toUTF8),
    (["home", "app"], .directory),
    (["home", "app", ".git"], .directory),
    (["home", "app", ".localizerc.json"], .file "\x7b\"format\": 1\x7d".toUTF8),
    (["home", "app", "src"], .directory)]
  workingDirectory := []
  ne_root := by decide +kernel
  isName := by decide +kernel
  parent := by decide +kernel

/-- The configuration of the project is found from below it, though `.git` stands beside it, and
it is not passed over for being malformed. -/
theorem find?_nearest_nested :
  find? nested ⟨"/home/app/src"⟩ = some ⟨"/home/app/.localizerc.json"⟩
    ∧ load nested ⟨"/home/app/src"⟩
      = .error (.badConfig ⟨"/home/app/.localizerc.json"⟩ .malformed)
  := by
  obtain ⟨-, hfind, -, -, hload⟩ := find?_nearest ⟨"/home/app/src"⟩
  have hmet : IsMet nested ⟨"/home/app/src"⟩ 1 ⟨"/home/app"⟩ := by
    apply isMet_succ_iff.2
    refine ⟨by decide +kernel, by decide +kernel, ⟨"/home/app"⟩, by decide +kernel, ?_⟩
    apply isMet_zero_iff.2 rfl
  have hnearest : IsNearest nested ⟨"/home/app/src"⟩ 1 ⟨"/home/app"⟩ :=
    ⟨hmet, by decide +kernel⟩
  have htext : nested.readText ⟨"/home/app/.localizerc.json"⟩ = .ok "\x7b\"format\": 1\x7d" := by
    decide +kernel
  constructor
  · apply (hfind nested _).2 ⟨1, _, hnearest, by decide +kernel⟩
  · apply (hload nested _).2 ⟨1, _, hnearest, .malformed htext (by decide +kernel)⟩

end Localization.Config

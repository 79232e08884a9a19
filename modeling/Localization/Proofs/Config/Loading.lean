import Localization.Config.Discovery
import Localization.Proofs.Outcome

/-!
# What a configuration says

`Config.Says fs directory draft` says which fields the configuration for a directory gives: those
in the file that is found for the directory, or none.  Loading the configuration fills in the
defaults for the rest (`exists_says_of_load`, `Says.exists_load`).
-/

namespace Localization.Config

/-- What the configuration for a directory says.  Where none is found, nothing is said. -/
inductive Says (fs : FileSystem) (directory : Path) : Draft → Prop where
  | nothing (hf : find? fs directory = none) : Says fs directory {}
  | file {file : Path} {text : String} {draft : Draft} (hf : find? fs directory = some file)
      (hr : fs.readText file = .ok text) (hd : Draft.ofJson text = .ok draft)
      (hv : draft.complete.validate = .ok ()) : Says fs directory draft

variable {fs : FileSystem} {directory file : Path} {draft draft' : Draft}

theorem readFile_eq_ok_iff {config : Config} :
  readFile fs file = .ok config
    ↔ ∃ text draft, fs.readText file = .ok text ∧ Draft.ofJson text = .ok draft
      ∧ draft.complete.validate = .ok () ∧ config = draft.complete
  := by
  simp only [readFile, ofJson, Outcome.bind_eq_ok_iff, Outcome.mapError_eq_ok_iff,
    Outcome.map_eq_ok_iff]
  constructor
  · rintro ⟨text, hr, _, ⟨draft, hd, rfl⟩, ⟨⟩, hv, h⟩
    exact ⟨text, draft, hr, hd, hv, (Except.ok.inj h).symm⟩
  · rintro ⟨text, draft, hr, hd, hv, rfl⟩
    exact ⟨text, hr, draft.complete, ⟨draft, hd, rfl⟩, (), hv, rfl⟩

/-- A configuration that is loaded is what is said, with the defaults for the rest. -/
theorem exists_says_of_load {loaded : Loaded} (h : load fs directory = .ok loaded) :
  ∃ draft, Says fs directory draft ∧ loaded.config = draft.complete
  := by
  rw [load] at h
  split at h
  · next file hf =>
    obtain ⟨config, hc, h⟩ := Outcome.bind_eq_ok_iff.1 h
    obtain rfl := Except.ok.inj h
    obtain ⟨text, draft, hr, hd, hv, rfl⟩ := readFile_eq_ok_iff.1 hc
    exact ⟨draft, .file hf hr hd hv, rfl⟩
  · next hf =>
    obtain rfl := Except.ok.inj h
    exact ⟨{}, .nothing hf, rfl⟩

theorem Says.exists_load (h : Says fs directory draft) :
  ∃ path, load fs directory = .ok ⟨draft.complete, path⟩
  := by
  cases h with
  | nothing hf =>
    use none
    rw [load, hf]
    rfl
  | @file file text _ hf hr hd hv =>
    use some file
    rw [load, hf]
    apply Outcome.bind_eq_ok_iff.2
    exact ⟨draft.complete, readFile_eq_ok_iff.2 ⟨text, draft, hr, hd, hv, rfl⟩, rfl⟩

/-- Only one thing is said. -/
theorem Says.eq (h : Says fs directory draft) (h' : Says fs directory draft') :
  draft = draft'
  := by
  cases h with
  | nothing hf =>
    cases h' with
    | nothing => rfl
    | file hf' =>
      rw [hf] at hf'
      cases hf'
  | file hf hr hd =>
    cases h' with
    | nothing hf' =>
      rw [hf] at hf'
      cases hf'
    | file hf' hr' hd' =>
      rw [hf] at hf'
      obtain rfl := Option.some.inj hf'
      obtain rfl := Outcome.eq_of_eq_ok hr hr'
      exact Outcome.eq_of_eq_ok hd hd'

end Localization.Config

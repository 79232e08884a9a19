import Localization.Proofs.Outcome
import Localization.Proofs.Path.Names
import Localization.Scan

/-!
# Ignored files

`Ignores.Matches` says what one ignore entry means for the file at some names: with a wildcard
it is a pattern for the names with separators between them, and without one it is a path that
has to be found, part by part, at their front.  Compiled entries cover exactly the files that
one of them matches (`covers_iff`).
-/

namespace Localization.Ignores

/-- The entry matches the file at these names. -/
def Matches (entry : String) (names : Location) : Prop :=
  if Glob.hasWildcard entry then
    ∃ glob, Glob.compile entry = .ok glob ∧ Glob.describes glob.tokens ("/".intercalate names).toList
  else (Path.mk entry).parts <+: names.map .name

/-- Each entry with a wildcard is a pattern. -/
def IsValid (entries : List String) : Prop :=
  ∀ entry ∈ entries, Glob.hasWildcard entry → ∃ glob, Glob.compile entry = .ok glob

variable {entries : List String} {ignores : Ignores} {names : Location}

theorem exists_compile_eq_ok (h : IsValid entries) :
  ∃ ignores, compile entries = .ok ignores
  := by
  have hcompile : ∀ entry ∈ entries.filter Glob.hasWildcard,
      ∃ glob, (Glob.compile entry).mapError (Failure.badIgnore entry) = .ok glob := by
    intro entry he
    obtain ⟨hm, hw⟩ := List.mem_filter.1 he
    obtain ⟨glob, hglob⟩ := h entry hm hw
    exact ⟨glob, Outcome.mapError_eq_ok_iff.2 hglob⟩
  obtain ⟨globs, hglobs⟩ := Outcome.exists_mapM_eq_ok hcompile
  refine ⟨{ paths := (entries.filter (!Glob.hasWildcard ·)).map Path.mk, globs }, ?_⟩
  rw [compile, hglobs]
  rfl

theorem paths_of_compile (h : compile entries = .ok ignores) :
  ignores.paths = (entries.filter (!Glob.hasWildcard ·)).map Path.mk
  := by
  obtain ⟨globs, -, hok⟩ := Outcome.bind_eq_ok_iff.1 h
  obtain rfl := Except.ok.inj hok
  rfl

theorem mem_globs_of_compile (h : compile entries = .ok ignores) (glob : Glob) :
  glob ∈ ignores.globs
    ↔ ∃ entry ∈ entries, Glob.hasWildcard entry ∧ Glob.compile entry = .ok glob
  := by
  obtain ⟨globs, hglobs, hok⟩ := Outcome.bind_eq_ok_iff.1 h
  obtain rfl := Except.ok.inj hok
  simp only [Outcome.mem_iff_of_mapM_eq_ok hglobs, List.mem_filter, Outcome.mapError_eq_ok_iff,
    and_assoc]

/-- What the compiled entries cover is matched by one of them. -/
theorem covers_iff (h : compile entries = .ok ignores) (hn : ∀ name ∈ names, IsName name) :
  ignores.covers (.ofNames names) ↔ ∃ entry ∈ entries, Matches entry names
  := by
  rw [covers, Bool.or_eq_true, List.any_eq_true, List.any_eq_true, paths_of_compile h]
  simp only [mem_globs_of_compile h, Glob.accepts_eq_describes, Path.slashForm_ofNames hn,
    Path.startsWith_ofNames_iff hn, List.mem_map, List.mem_filter, Bool.not_eq_true']
  constructor
  · rintro (⟨q, ⟨entry, ⟨he, hw⟩, rfl⟩, hp⟩ | ⟨glob, ⟨entry, he, hw, hc⟩, hd⟩)
    · use entry, he
      rwa [Matches, if_neg (by simp [hw])]
    · use entry, he
      rw [Matches, if_pos hw]
      exact ⟨glob, hc, hd⟩
  · rintro ⟨entry, he, hm⟩
    rw [Matches] at hm
    split at hm
    · next hw =>
      obtain ⟨glob, hc, hd⟩ := hm
      apply Or.inr ⟨glob, ⟨entry, he, hw, hc⟩, hd⟩
    · next hw => apply Or.inl ⟨⟨entry⟩, ⟨entry, ⟨he, by simpa using hw⟩, rfl⟩, hm⟩

end Localization.Ignores

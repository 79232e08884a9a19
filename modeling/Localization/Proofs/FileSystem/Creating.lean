import Localization.Proofs.FileSystem.Paths
import Localization.Proofs.FileSystem.SameTree
import Localization.Proofs.FileSystem.Writing

/-!
# Creating a file

`FileSystem.Creates` says of a write that there was nothing in its place before.  Then the new
file is all that has come within reach (`Creates.resolve_eq_ok`): every file is read as before
(`Creates.read_eq_ok`), and the same paths lead to directories (`Creates.isDirectory_iff`).  A
write creates a file when its path led to none (`exists_creates_of_write`).
-/

namespace Localization.FileSystem

/-- A file with this content has come to a location where there was nothing, and nothing else has
changed. -/
structure Creates (l : Location) (content : ByteArray) (fs fs' : FileSystem) : Prop
    extends Writes l content fs fs' where
  get?_eq_none : fs.get? l = none

variable {l m : Location} {content bytes : ByteArray} {fs fs' : FileSystem} {p : Path}

/-- A write over a file leaves the tree as it is. -/
theorem Writes.sameTree (h : Writes l content fs fs') {e : Entry} (he : fs.get? l = some e) :
  SameTree fs fs'
  := by
  constructor
  · apply h.workingDirectory_eq.symm
  · intro m
    by_cases hm : m = l
    · subst hm
      obtain ⟨old, rfl⟩ := h.isFile e he
      rw [he, h.get?_eq_file]
      apply Option.Rel.some (.file old content)
    · rw [h.get?_eq m hm]
      cases fs.get? m with
      | none => apply Option.Rel.none
      | some e' => apply Option.Rel.some (Entry.Alike.refl e')

/-- A write creates a file when its path led to no entry. -/
theorem exists_creates_of_write (hp : ¬ fs.exists p) (h : fs.write p content = .ok fs') :
  ∃ l, fs'.resolve p = .ok l ∧ Creates l content fs fs'
  := by
  obtain ⟨l, hl, hw⟩ := exists_writes_of_write h
  refine ⟨l, hl, hw, ?_⟩
  rw [Option.eq_none_iff_forall_ne_some]
  intro e he
  apply hp
  rw [exists_iff, (hw.sameTree he).resolve_eq]
  exact ⟨l, hl⟩

theorem eq_of_location {rest : List (List Char)} (h : (Place.occupied l rest).location = .ok m) :
  m = l
  := by
  cases rest with
  | nil => exact (Except.ok.inj h).symm
  | cons piece rest => cases h

namespace Creates

variable (h : Creates l content fs fs')

include h

/-! ### Paths after a creation -/

/-- Where there was no entry to start from, there is now at most the file. -/
theorem walk_of_lost {pieces : List (List Char)} (hm : fs.walk m pieces = .lost) :
  fs'.walk m pieces = .lost ∨ fs'.walk m pieces = .arrived (.occupied l pieces)
  := by
  rw [walk] at hm ⊢
  by_cases hp : pieces = []
  · rw [if_pos hp] at hm
    cases hm
  · rw [if_neg hp] at hm ⊢
    by_cases hl : m = l
    · rw [hl, h.get?_eq_file]
      apply Or.inr rfl
    · rw [h.get?_eq m hl, h.walkIn_eq]
      cases he : fs.get? m with
      | none => apply Or.inl rfl
      | some e =>
        rw [he] at hm
        cases e with
        | directory =>
          change fs.walkIn m pieces = .lost at hm
          rw [hm]
          apply Or.inl rfl
        | file content => cases hm
        | link target => cases hm

/-- A path leads where it led before, or to the file. -/
theorem exists_follow {purpose : Purpose} {links : Nat} {pieces : List (List Char)} {q : Place}
    (hq : fs'.follow purpose links m pieces = .ok q) :
  (∃ p, fs.follow purpose links m pieces = .ok p ∧ q = p.fill l) ∨ ∃ rest, q = .occupied l rest
  := by
  fun_induction fs.follow purpose links m pieces with
  | case1 links m pieces p hw =>
    left
    rw [follow, h.walk_eq_arrived hw] at hq
    exact ⟨p, rfl, (Except.ok.inj hq).symm⟩
  | case2 links m pieces hw =>
    right
    rw [follow] at hq
    obtain hw' | hw' := h.walk_of_lost hw
    · rw [hw'] at hq
      cases hq
    · rw [hw'] at hq
      exact ⟨pieces, (Except.ok.inj hq).symm⟩
  | case3 links m pieces directory target rest hw hc =>
    rw [follow, h.walk_eq_link hw] at hq
    dsimp only at hq
    rw [if_pos hc] at hq
    cases hq
  | case4 m pieces directory target rest hw hc =>
    rw [follow, h.walk_eq_link hw] at hq
    dsimp only at hq
    rw [if_neg hc] at hq
    cases hq
  | case5 m pieces directory target rest hw hc links ih =>
    rw [follow, h.walk_eq_link hw] at hq
    dsimp only at hq
    rw [if_neg hc] at hq
    exact ih hq

/-- The file is all that has come within reach. -/
theorem resolve_eq_ok (hp : fs'.resolve p = .ok m) :
  fs.resolve p = .ok m ∨ m = l
  := by
  obtain ⟨q, hq, hm⟩ := Outcome.bind_eq_ok_iff.1 hp
  rw [place] at hq
  split at hq
  · cases hq
  · next htext =>
    rw [h.workingDirectory_eq] at hq
    rw [resolve, place, if_neg htext]
    obtain ⟨q', hq', rfl⟩ | ⟨rest, rfl⟩ := h.exists_follow hq
    · rw [hq', Outcome.ok_bind]
      cases q' with
      | occupied m' rest => apply Or.inl hm
      | vacant directory name rest =>
        rw [Place.fill] at hm
        split at hm
        · apply Or.inr (eq_of_location hm)
        · cases hm
    · apply Or.inr (eq_of_location hm)

theorem ne_of_get? {e : Entry} (hm : fs.get? m = some e) : m ≠ l := by
  rintro rfl
  rw [h.get?_eq_none] at hm
  cases hm

/-- Every file is read as before. -/
theorem read_eq_ok (hp : fs.read p = .ok bytes) :
  fs'.read p = .ok bytes
  := by
  obtain ⟨m, hm, hfile⟩ := read_eq_ok_iff.1 hp
  rw [h.read_eq hm (h.ne_of_get? hfile), hp]

/-- The file is read by its absolute path. -/
theorem read_pathOf : fs'.read (pathOf l) = .ok content :=
  read_eq_ok_iff.2 ⟨l, resolve_pathOf h.get?_eq_file nofun, h.get?_eq_file⟩

/-- A path that leads to an entry only now leads to the file. -/
theorem read_eq_content (hp : ¬ fs.exists p) (hp' : fs'.exists p) :
  fs'.read p = .ok content
  := by
  obtain ⟨m, hm⟩ := exists_iff.1 hp'
  obtain hold | rfl := h.resolve_eq_ok hm
  · exact absurd (exists_iff.2 ⟨m, hold⟩) hp
  · exact read_eq_ok_iff.2 ⟨m, hm, h.get?_eq_file⟩

theorem exists_of_exists (hp : fs.exists p) : fs'.exists p := by
  obtain ⟨m, hm⟩ := exists_iff.1 hp
  exact exists_iff.2 ⟨m, h.toWrites.resolve_eq_ok hm⟩

/-- The same locations are directories. -/
theorem get?_eq_directory_iff :
  fs'.get? m = some .directory ↔ fs.get? m = some .directory
  := by
  by_cases hm : m = l
  · simp [hm, h.get?_eq_file, h.get?_eq_none]
  · rw [h.get?_eq m hm]

/-- The same paths lead to directories. -/
theorem isDirectory_iff :
  fs'.isDirectory p ↔ fs.isDirectory p
  := by
  rw [FileSystem.isDirectory_iff, FileSystem.isDirectory_iff]
  simp only [h.get?_eq_directory_iff]
  constructor
  · rintro ⟨m, hm, hd⟩
    obtain hold | rfl := h.resolve_eq_ok hm
    · exact ⟨m, hold, hd⟩
    · rw [h.get?_eq_none] at hd
      cases hd
  · rintro ⟨m, hm, hd⟩
    exact ⟨m, h.toWrites.resolve_eq_ok hm, hd⟩

end Creates
end Localization.FileSystem

import Localization.FileSystem.Access
import Localization.Proofs.Outcome

/-!
# What a write changes

`FileSystem.Writes` says that a file stands at a location, where there was a file or nothing,
and that nothing else has changed.  A path that leads to the location, or to a vacant name there,
leads to the file, and every other path leads where it led (`Writes.follow_eq_ok`).  This is what
`FileSystem.write` does (`exists_writes_of_write`): its path is read as what has been written,
and any path that leads to another entry is read as before.
-/

namespace Localization.FileSystem

/-- A file with this content has come to a location, where there was a file or nothing, and
nothing else has changed. -/
structure Writes (l : Location) (content : ByteArray) (fs fs' : FileSystem) : Prop where
  workingDirectory_eq : fs'.workingDirectory = fs.workingDirectory
  get?_eq_file : fs'.get? l = some (.file content)
  get?_eq : ∀ m, m ≠ l → fs'.get? m = fs.get? m
  isFile : ∀ e, fs.get? l = some e → ∃ old, e = .file old

theorem writes_put {fs : FileSystem} {directory : Location} {name : String} {content : ByteArray}
    (h : fs.Admits directory name)
    (hf : ∀ e, fs.get? (directory ++ [name]) = some e → ∃ old, e = .file old) :
  Writes (directory ++ [name]) content fs (fs.put directory name (.file content) h)
  where
  workingDirectory_eq := rfl
  get?_eq_file := by rw [get?_put, if_pos rfl]
  get?_eq m hm := by rw [get?_put, if_neg hm]
  isFile := hf

/-! ### Paths after a write -/

/-- A vacant name is the place of the file that has come to its location. -/
def Place.fill (l : Location) : Place → Place
  | .occupied m rest => .occupied m rest
  | .vacant directory name rest =>
    if directory ++ [name] = l then .occupied l rest else .vacant directory name rest

/-- What a walk arrives at, when a file has come to a location. -/
def Walk.fill (l : Location) : Walk → Walk
  | .arrived p => .arrived (p.fill l)
  | .link directory target rest => .link directory target rest
  | .lost => .lost

namespace Writes

variable {l : Location} {content : ByteArray} {fs fs' : FileSystem}

theorem walkIn_eq (h : Writes l content fs fs') (directory : Location)
    (pieces : List (List Char)) :
  fs'.walkIn directory pieces = (fs.walkIn directory pieces).fill l
  := by
  induction pieces generalizing directory with
  | nil => rfl
  | cons piece rest ih =>
    rw [walkIn, walkIn, ih directory, ih directory.dropLast]
    dsimp only
    by_cases hl : directory ++ [String.ofList piece] = l
    -- at the location itself the walk ends with the file, as it ended there before
    · rw [hl, h.get?_eq_file]
      cases he : fs.get? l with
      | none => split_ifs <;> simp [Walk.fill, Place.fill, hl]
      | some e =>
        obtain ⟨old, rfl⟩ := h.isFile e he
        split_ifs <;> simp [Walk.fill, Place.fill]
    · rw [h.get?_eq _ hl, ih]
      cases fs.get? (directory ++ [String.ofList piece]) with
      | none => split_ifs <;> simp [Walk.fill, Place.fill, hl]
      | some e =>
        cases e <;> split_ifs <;> rfl

/-- A walk that starts from an entry gets as far as before. -/
theorem walk_eq (h : Writes l content fs fs') {m : Location} {pieces : List (List Char)}
    (hm : fs.walk m pieces ≠ .lost) :
  fs'.walk m pieces = (fs.walk m pieces).fill l
  := by
  rw [walk, h.walkIn_eq]
  rw [walk] at hm ⊢
  by_cases hp : pieces = []
  · rw [if_pos hp, if_pos hp]
    rfl
  · rw [if_neg hp] at hm ⊢
    rw [if_neg hp]
    by_cases hl : m = l
    · subst hl
      rw [h.get?_eq_file]
      cases he : fs.get? m with
      | none =>
        rw [he] at hm
        exact absurd rfl hm
      | some e =>
        obtain ⟨old, rfl⟩ := h.isFile e he
        rfl
    · rw [h.get?_eq _ hl]
      cases he : fs.get? m with
      | none => rfl
      | some e => cases e <;> rfl

theorem walk_eq_arrived (h : Writes l content fs fs') {m : Location} {pieces : List (List Char)}
    {p : Place} (hw : fs.walk m pieces = .arrived p) :
  fs'.walk m pieces = .arrived (p.fill l)
  := by
  rw [h.walk_eq (by simp [hw]), hw]
  rfl

theorem walk_eq_link (h : Writes l content fs fs') {m directory : Location}
    {pieces rest : List (List Char)} {target : Path}
    (hw : fs.walk m pieces = .link directory target rest) :
  fs'.walk m pieces = .link directory target rest
  := by
  rw [h.walk_eq (by simp [hw]), hw]
  rfl

/-- A path leads where it led before, or to the file when it led to a vacant name in its
place. -/
theorem follow_eq_ok (h : Writes l content fs fs') {purpose : Purpose} {links : Nat}
    {m : Location} {pieces : List (List Char)} {p : Place}
    (hp : fs.follow purpose links m pieces = .ok p) :
  fs'.follow purpose links m pieces = .ok (p.fill l)
  := by
  fun_induction fs.follow purpose links m pieces with
  | case1 links m pieces q hw =>
    rw [follow, h.walk_eq_arrived hw, Except.ok.inj hp]
  | case2 => cases hp
  | case3 => cases hp
  | case4 => cases hp
  | case5 m pieces directory target rest hw hc links ih =>
    rw [follow, h.walk_eq_link hw]
    dsimp only
    rw [if_neg hc]
    exact ih hp

theorem place_eq_ok (h : Writes l content fs fs') {purpose : Purpose} {p : Path} {q : Place}
    (hq : fs.place purpose p = .ok q) :
  fs'.place purpose p = .ok (q.fill l)
  := by
  rw [place] at hq ⊢
  split at hq
  · cases hq
  · next hp =>
    rw [if_neg hp, h.workingDirectory_eq]
    exact h.follow_eq_ok hq

/-- A path that led to an entry leads to it still. -/
theorem resolve_eq_ok (h : Writes l content fs fs') {p : Path} {m : Location}
    (hp : fs.resolve p = .ok m) :
  fs'.resolve p = .ok m
  := by
  obtain ⟨q, hq, hm⟩ := Outcome.bind_eq_ok_iff.1 hp
  rw [resolve, h.place_eq_ok hq, Outcome.ok_bind]
  cases q with
  | occupied m rest => exact hm
  | vacant directory name rest => cases hm

/-- A path that led to an entry elsewhere is read as before. -/
theorem read_eq (h : Writes l content fs fs') {p : Path} {m : Location}
    (hp : fs.resolve p = .ok m) (hm : m ≠ l) :
  fs'.read p = fs.read p
  := by
  rw [read, read, h.resolve_eq_ok hp, hp, Outcome.ok_bind, Outcome.ok_bind, h.get?_eq m hm]

end Writes

/-! ### Writing -/

theorem createAt_eq_ok_iff {fs fs' : FileSystem} {directory : Location} {name : String}
    {e : Entry} :
  fs.createAt directory name e = .ok fs'
    ↔ ∃ h : fs.Admits directory name, fs' = fs.put directory name e h
  := by
  rw [createAt, create?]
  by_cases h : fs.Admits directory name
  · simp [h, eq_comm]
  · simp [h]

/-- A path that can be written through leads to the same place when it is looked up. -/
theorem follow_lookup_of_writing {fs : FileSystem} {links : Nat} {l : Location}
    {pieces : List (List Char)} {q : Place} (h : fs.follow .writing links l pieces = .ok q) :
  fs.follow .lookup links l pieces = .ok q
  := by
  fun_induction fs.follow .writing links l pieces with
  | case1 links l pieces q hw =>
    rw [follow, hw, Except.ok.inj h]
  | case2 => cases h
  | case3 => cases h
  | case4 => cases h
  | case5 l pieces directory target rest hw hc links ih =>
    rw [follow, hw]
    simpa using ih h

theorem place_lookup_of_writing {fs : FileSystem} {p : Path} {q : Place}
    (h : fs.place .writing p = .ok q) :
  fs.place .lookup p = .ok q
  := by
  rw [place] at h ⊢
  split at h
  · cases h
  · next hp =>
    rw [if_neg hp]
    exact follow_lookup_of_writing h

theorem get?_eq_none_of_walkIn {fs : FileSystem} {l directory : Location} {name : String}
    {pieces rest : List (List Char)}
    (h : fs.walkIn l pieces = .arrived (.vacant directory name rest)) :
  fs.get? (directory ++ [name]) = none
  := by
  fun_induction fs.walkIn l pieces with
  | case1 => cases h
  | case2 _ _ _ _ ih => exact ih h
  | case3 _ _ _ ih => exact ih h
  | case4 l piece rest _ _ name' hnone =>
    obtain ⟨rfl, rfl, rfl⟩ := Place.vacant.inj (Walk.arrived.inj h)
    exact hnone
  | case5 => cases h
  | case6 _ _ _ _ _ _ _ ih => exact ih h
  | case7 => cases h

theorem get?_eq_none_of_follow {fs : FileSystem} {purpose : Purpose} {links : Nat}
    {l directory : Location} {name : String} {pieces rest : List (List Char)}
    (h : fs.follow purpose links l pieces = .ok (.vacant directory name rest)) :
  fs.get? (directory ++ [name]) = none
  := by
  fun_induction fs.follow purpose links l pieces with
  | case1 links l pieces q hw =>
    obtain rfl := Except.ok.inj h
    rw [walk] at hw
    split at hw
    · cases hw
    · split at hw
      · cases hw
      · exact get?_eq_none_of_walkIn hw
      · cases hw
  | case2 => cases h
  | case3 => cases h
  | case4 => cases h
  | case5 _ _ _ _ _ _ _ _ ih => exact ih h

/-- There is nothing at a vacant name. -/
theorem get?_eq_none_of_place {fs : FileSystem} {purpose : Purpose} {p : Path}
    {directory : Location} {name : String} {rest : List (List Char)}
    (h : fs.place purpose p = .ok (.vacant directory name rest)) :
  fs.get? (directory ++ [name]) = none
  := by
  rw [place] at h
  split at h
  · cases h
  · exact get?_eq_none_of_follow h

/-- A write puts a file where its path leads from then on. -/
theorem exists_writes_of_write {fs fs' : FileSystem} {p : Path} {content : ByteArray}
    (h : fs.write p content = .ok fs') :
  ∃ l, fs'.resolve p = .ok l ∧ Writes l content fs fs'
  := by
  obtain ⟨q, hq, h⟩ := Outcome.bind_eq_ok_iff.1 h
  have hplace := place_lookup_of_writing hq
  split at h
  · next l =>
    split at h
    · next old name hold hname =>
      obtain ⟨directory, rfl⟩ := List.getLast?_eq_some_iff.1 hname
      simp only [List.dropLast_concat] at h
      obtain ⟨ha, rfl⟩ := createAt_eq_ok_iff.1 h
      have hw := @writes_put fs directory name content ha fun e he => by
        rw [hold] at he
        exact ⟨old, (Option.some.inj he).symm⟩
      use directory ++ [name]
      rw [resolve, hw.place_eq_ok hplace]
      exact ⟨rfl, hw⟩
    · cases h
    · cases h
  · cases h
  · next directory name =>
    obtain ⟨ha, rfl⟩ := createAt_eq_ok_iff.1 h
    have hw := @writes_put fs directory name content ha fun e he => by
      rw [get?_eq_none_of_place hq] at he
      cases he
    use directory ++ [name]
    rw [resolve, hw.place_eq_ok hplace, Place.fill, if_pos rfl]
    exact ⟨rfl, hw⟩
  · cases h

/-- What has been written is read. -/
theorem read_of_write {fs fs' : FileSystem} {p : Path} {content : ByteArray}
    (h : fs.write p content = .ok fs') :
  fs'.read p = .ok content
  := by
  obtain ⟨l, hl, hw⟩ := exists_writes_of_write h
  rw [read, hl, Outcome.ok_bind, hw.get?_eq_file]
  rfl

end Localization.FileSystem

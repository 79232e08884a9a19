import Localization.Path
import Localization.Table

/-!
# File systems

A `FileSystem` is a tree of directories with files and symbolic links in it, given as a table
from `Location`s to `Entry`s, together with a working directory.  Every entry has valid names
and lies in a directory.  `put` places an entry in a directory and `removeAll` removes one with all
that is below it; `get?_put` and `get?_removeAll` say what they leave.
-/

namespace Localization

/-- The names on the way from the root to an entry.  The root has none. -/
abbrev Location := List String

/-- What is at a location. -/
inductive Entry where
  | file (content : ByteArray)
  | directory
  | link (target : Path)

/-- Files are compared by their bytes. -/
instance : DecidableEq Entry
  | .file a, .file b => decidable_of_iff (a.data = b.data) (by simp [ByteArray.ext_iff])
  | .link p, .link q => decidable_of_iff (p = q) (by simp)
  | .directory, .directory => isTrue rfl
  | .file _, .directory | .file _, .link _ | .directory, .file _ | .directory, .link _
  | .link _, .file _ | .link _, .directory => isFalse nofun

/-- The text can name an entry of a directory. -/
def IsName (name : String) : Prop :=
  name ≠ "" ∧ name ≠ "." ∧ name ≠ ".." ∧ '/' ∉ name.toList

instance (name : String) : Decidable (IsName name) :=
  inferInstanceAs (Decidable (_ ∧ _))

/-- Entries by location, and the directory from which relative paths start.  The root is a
directory and is not listed. -/
structure FileSystem where
  entries : Table Location Entry
  workingDirectory : Location
  ne_root : ∀ l ∈ entries.keys, l ≠ []
  isName : ∀ l ∈ entries.keys, ∀ name ∈ l, IsName name
  parent : ∀ l ∈ entries.keys, l.dropLast = [] ∨ entries.get? l.dropLast = some .directory

namespace FileSystem

/-- The file system with nothing below its root. -/
def empty : FileSystem where
  entries := .empty
  workingDirectory := []
  ne_root := by simp [Table.empty, Table.keys]
  isName := by simp [Table.empty, Table.keys]
  parent := by simp [Table.empty, Table.keys]

instance : Inhabited FileSystem := ⟨empty⟩

/-- The entry at a location of a given length.  In a deep tree many locations begin alike, and
so their lengths are compared first. -/
def lookup (l : Location) (length : Nat) : List (Location × Entry) → Option Entry
  | [] => none
  | (m, e) :: es => if m.length == length && l == m then some e else lookup l length es

private theorem lookup_eq (l : Location) (es : List (Location × Entry)) :
  lookup l l.length es = @List.lookup Location Entry instBEqOfDecidableEq l es
  := by
  induction es with
  | nil => rfl
  | cons e es ih =>
    rw [Table.lookup_cons_eq, lookup, ih]
    by_cases h : l = e.1
    · simp [h]
    · simp [h]

/-- The entry at a location. -/
def get? (fs : FileSystem) (l : Location) : Option Entry :=
  if l = [] then some .directory else lookup l l.length fs.entries.entries

/-- The same entries with another working directory. -/
def enter (fs : FileSystem) (l : Location) : FileSystem :=
  { fs with workingDirectory := l }

theorem get?_of_ne_nil (fs : FileSystem) {l : Location} (h : l ≠ []) :
  fs.get? l = fs.entries.get? l
  := (if_neg h).trans (lookup_eq l fs.entries.entries)

theorem get?_parent (fs : FileSystem) {l : Location} (h : l ∈ fs.entries.keys) :
  fs.get? l.dropLast = some .directory
  := by
  by_cases hl : l.dropLast = []
  · rw [hl]
    rfl
  · rw [fs.get?_of_ne_nil hl]
    exact (fs.parent l h).resolve_left hl

/-! ### Creating an entry -/

/-- A new entry, or one in the place of a file or a link, may stand at this name of this
directory. -/
structure Admits (fs : FileSystem) (directory : Location) (name : String) : Prop where
  isName : IsName name
  isDirectory : fs.get? directory = some .directory
  notDirectory : fs.get? (directory ++ [name]) ≠ some .directory

instance (fs : FileSystem) (directory : Location) (name : String) :
    Decidable (fs.Admits directory name) :=
  decidable_of_iff
    (IsName name ∧ fs.get? directory = some .directory
      ∧ fs.get? (directory ++ [name]) ≠ some .directory)
    ⟨fun ⟨h₁, h₂, h₃⟩ => ⟨h₁, h₂, h₃⟩, fun ⟨h₁, h₂, h₃⟩ => ⟨h₁, h₂, h₃⟩⟩

private theorem Admits.isName_of_mem {fs : FileSystem} {directory : Location} {name : String}
    (h : fs.Admits directory name) (n : String) (hn : n ∈ directory ++ [name]) :
  IsName n
  := by
  rcases List.mem_append.1 hn with hd | hn
  · have hne : directory ≠ [] := List.ne_nil_of_mem hd
    have hk : directory ∈ fs.entries.keys := by
      rw [← Table.isSome_get?_iff, ← fs.get?_of_ne_nil hne, h.isDirectory]
      rfl
    exact fs.isName directory hk n hd
  · obtain rfl := List.mem_singleton.1 hn
    exact h.isName

/-- The file system with the entry at this name of this directory. -/
def put (fs : FileSystem) (directory : Location) (name : String) (e : Entry)
    (h : fs.Admits directory name) : FileSystem where
  entries := fs.entries.insert (directory ++ [name]) e
  workingDirectory := fs.workingDirectory
  ne_root l hl := by
    rw [Table.mem_keys_insert] at hl
    rcases hl with rfl | hl
    · simp
    · exact fs.ne_root l hl
  isName l hl := by
    rw [Table.mem_keys_insert] at hl
    rcases hl with rfl | hl
    · exact h.isName_of_mem
    · exact fs.isName l hl
  parent l hl := by
    rw [Table.mem_keys_insert] at hl
    have key : l.dropLast = [] ∨ fs.entries.get? l.dropLast = some .directory := by
      rcases hl with rfl | hl
      · rw [List.dropLast_concat]
        by_cases hd : directory = []
        · exact Or.inl hd
        · exact Or.inr (fs.get?_of_ne_nil hd ▸ h.isDirectory)
      · exact fs.parent l hl
    refine key.imp_right fun hp => ?_
    rw [Table.get?_insert, if_neg, hp]
    intro e
    apply h.notDirectory
    rw [fs.get?_of_ne_nil (by simp), ← e, hp]

/-- The file system with the entry at this name of this directory, if it may stand there. -/
def create? (fs : FileSystem) (directory : Location) (name : String) (e : Entry) :
    Option FileSystem :=
  if h : fs.Admits directory name then some (fs.put directory name e h) else none

/-- Creating an entry changes nothing at other locations. -/
theorem get?_put (fs : FileSystem) (directory : Location) (name : String) (e : Entry)
    (h : fs.Admits directory name) (l : Location) :
  (fs.put directory name e h).get? l
    = if l = directory ++ [name] then some e else fs.get? l
  := by
  by_cases hl : l = []
  · simp [FileSystem.get?, hl]
  · rw [get?_of_ne_nil _ hl, get?_of_ne_nil _ hl]
    exact Table.get?_insert _ _ _ _

/-! ### Removing entries -/

/-- The file system without the entry at a location and all entries below it. -/
def removeAll (fs : FileSystem) (l : Location) : FileSystem where
  entries := fs.entries.filterKeys (!l.isPrefixOf ·)
  workingDirectory := fs.workingDirectory
  ne_root m hm := fs.ne_root m ((Table.mem_keys_filterKeys _ _ _).1 hm).1
  isName m hm := fs.isName m ((Table.mem_keys_filterKeys _ _ _).1 hm).1
  parent m hm := by
    obtain ⟨hm, hl⟩ := (Table.mem_keys_filterKeys _ _ _).1 hm
    refine (fs.parent m hm).imp_right fun hp => ?_
    rw [Table.get?_filterKeys, if_pos, hp]
    simp only [Bool.not_eq_true', ← Bool.not_eq_true, List.isPrefixOf_iff_prefix] at hl ⊢
    exact fun hd => hl (hd.trans (List.dropLast_prefix m))

/-- Exactly the entries at the location and below it are removed. -/
theorem get?_removeAll (fs : FileSystem) (l m : Location) (h : l ≠ []) :
  (fs.removeAll l).get? m = if l <+: m then none else fs.get? m
  := by
  by_cases hm : m = []
  · subst hm
    simp [FileSystem.get?, List.prefix_nil, h]
  · rw [get?_of_ne_nil _ hm, get?_of_ne_nil _ hm]
    refine (Table.get?_filterKeys _ _ _).trans ?_
    by_cases hl : l.isPrefixOf m
    · have hp : l <+: m := List.isPrefixOf_iff_prefix.1 hl
      simp [hl, hp]
    · have hp : ¬ l <+: m := fun hp => hl (List.isPrefixOf_iff_prefix.2 hp)
      simp [hl, hp]

end FileSystem
end Localization

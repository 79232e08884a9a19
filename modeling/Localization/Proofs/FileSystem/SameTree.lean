import Localization.FileSystem.Place
import Mathlib.Data.Option.Basic

/-!
# Trees that differ in the content of files

Two file systems have the `SameTree` when the same kinds of entries stand at the same places, a
link leads to the same path, and only files may have other content.  A path then leads to the
same place in both (`SameTree.resolve_eq`).
-/

namespace Localization

/-- The entries differ at most in the content of a file. -/
inductive Entry.Alike : Entry → Entry → Prop where
  | file (content content' : ByteArray) : Alike (.file content) (.file content')
  | directory : Alike .directory .directory
  | link (target : Path) : Alike (.link target) (.link target)

theorem Entry.Alike.refl (e : Entry) : Entry.Alike e e := by
  cases e with
  | file content => apply Alike.file content content
  | directory => apply Alike.directory
  | link target => apply Alike.link target

namespace FileSystem

/-- The file systems differ at most in the content of files. -/
structure SameTree (fs fs' : FileSystem) : Prop where
  workingDirectory_eq : fs.workingDirectory = fs'.workingDirectory
  alike : ∀ l, Option.Rel Entry.Alike (fs.get? l) (fs'.get? l)

namespace SameTree

variable {fs fs' : FileSystem} (h : SameTree fs fs')

include h

theorem get?_eq_directory_iff (l : Location) :
  fs.get? l = some .directory ↔ fs'.get? l = some .directory
  := by
  have hl := h.alike l
  generalize fs.get? l = e, fs'.get? l = e' at hl ⊢
  cases hl with
  | none => simp
  | some hl => cases hl <;> simp

theorem get?_eq_link_iff (l : Location) (target : Path) :
  fs.get? l = some (.link target) ↔ fs'.get? l = some (.link target)
  := by
  have hl := h.alike l
  generalize fs.get? l = e, fs'.get? l = e' at hl ⊢
  cases hl with
  | none => simp
  | some hl => cases hl <;> simp

theorem exists_get?_eq_file_iff (l : Location) :
  (∃ content, fs.get? l = some (.file content)) ↔ ∃ content, fs'.get? l = some (.file content)
  := by
  have hl := h.alike l
  generalize fs.get? l = e, fs'.get? l = e' at hl ⊢
  cases hl with
  | none => simp
  | some hl => cases hl <;> simp

/-! ### Paths -/

theorem walkIn_eq (directory : Location) (pieces : List (List Char)) :
  fs.walkIn directory pieces = fs'.walkIn directory pieces
  := by
  induction pieces generalizing directory with
  | nil => rfl
  | cons piece rest ih =>
    have hl := h.alike (directory ++ [String.ofList piece])
    rw [walkIn, walkIn, ih directory, ih directory.dropLast]
    dsimp only
    generalize fs.get? (directory ++ [String.ofList piece]) = e,
      fs'.get? (directory ++ [String.ofList piece]) = e' at hl
    cases hl with
    | none => rfl
    | some hl =>
      cases hl with
      | file => rfl
      | directory => rw [ih]
      | link => rfl

theorem walk_eq (l : Location) (pieces : List (List Char)) :
  fs.walk l pieces = fs'.walk l pieces
  := by
  have hl := h.alike l
  rw [walk, walk, h.walkIn_eq]
  generalize fs.get? l = e, fs'.get? l = e' at hl
  cases hl with
  | none => rfl
  | some hl => cases hl <;> rfl

theorem follow_eq (purpose : Purpose) (links : Nat) (l : Location) (pieces : List (List Char)) :
  fs.follow purpose links l pieces = fs'.follow purpose links l pieces
  := by
  induction links generalizing l pieces with
  | zero => rw [follow, follow, h.walk_eq]
  | succ links ih =>
    rw [follow, follow, h.walk_eq]
    simp only [ih]

/-- A path leads to the same entry. -/
theorem resolve_eq (p : Path) :
  fs.resolve p = fs'.resolve p
  := by
  rw [resolve, resolve, place, place, h.workingDirectory_eq, h.follow_eq]

theorem isDirectory_eq (p : Path) :
  fs.isDirectory p = fs'.isDirectory p
  := by
  rw [isDirectory, isDirectory, h.resolve_eq, decide_eq_decide, Option.bind_eq_some_iff,
    Option.bind_eq_some_iff]
  simp only [h.get?_eq_directory_iff]

end SameTree
end FileSystem
end Localization

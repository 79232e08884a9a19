import Localization.FileSystem.Place

/-!
# Reading and writing files

`FileSystem.read` gives the content of the file to which a path leads, and `FileSystem.write`
replaces it, or creates a file where the path leads to a vacant name.  `createDirectories`,
`createLink` and `remove` change the tree itself.
-/

namespace Localization.FileSystem

/-- The content of the file to which a path leads. -/
def read (fs : FileSystem) (p : Path) : Except Fault ByteArray := do
  let l ← fs.resolve p
  match fs.get? l with
  | some (.file content) => return content
  | some .directory => throw .isDirectory
  | _ => throw .notFound

/-- The content of the file to which a path leads, as text. -/
def readText (fs : FileSystem) (p : Path) : Except Fault String := do
  match String.fromUTF8? (← fs.read p) with
  | some text => return text
  | none => throw .notText

/-- Puts an entry at a name of a directory. -/
def createAt (fs : FileSystem) (directory : Location) (name : String) (e : Entry) :
    Except Fault FileSystem :=
  match fs.create? directory name e with
  | some fs => .ok fs
  | none => .error .notFound

/-- Makes the path lead to a file with this content.  A path with a separator at its end is
refused like a directory. -/
def write (fs : FileSystem) (p : Path) (content : ByteArray) : Except Fault FileSystem := do
  match ← fs.place .writing p with
  | .occupied l [] =>
    match fs.get? l, l.getLast? with
    | some (.file _), some name => fs.createAt l.dropLast name (.file content)
    | some .directory, _ => throw .isDirectory
    | _, _ => throw .notFound
  | .occupied _ rest => throw (if isClosed rest then .isDirectory else .notDirectory)
  | .vacant directory name [] => fs.createAt directory name (.file content)
  | .vacant _ _ rest => throw (if isClosed rest then .isDirectory else .notFound)

/-! ### Changing the tree -/

/-- Creates the directories that pieces of a path lead to from a location on. -/
def createDirectoriesFrom (fs : FileSystem) (l : Location) :
    List (List Char) → Except Fault FileSystem
  | [] => .ok fs
  | piece :: rest => do
    match ← fs.follow .lookup maxLinks l [piece] with
    | .occupied l _ =>
      if fs.get? l = some .directory then fs.createDirectoriesFrom l rest
      else throw .notDirectory
    | .vacant directory name _ =>
      let fs ← fs.createAt directory name .directory
      fs.createDirectoriesFrom (directory ++ [name]) rest

/-- Creates the directories of a path that do not exist. -/
def createDirectories (fs : FileSystem) (p : Path) : Except Fault FileSystem :=
  if p.text = "" then .ok fs
  else fs.createDirectoriesFrom (start fs.workingDirectory p) p.pieces

/-- The directory and the name in it that a path stands for, whether or not there is such an
entry.  A link at that name is not followed. -/
def nameIn (fs : FileSystem) (p : Path) : Except Fault (Location × String) := do
  let pieces := Path.trimIdle p.pieces
  match pieces.getLast? with
  | none => throw .notFound
  | some name =>
    let place ← fs.follow .lookup maxLinks (start fs.workingDirectory p) pieces.dropLast
    return (← place.location, .ofList name)

/-- Puts a symbolic link at the path. -/
def createLink (fs : FileSystem) (p : Path) (target : Path) : Except Fault FileSystem := do
  let (directory, name) ← fs.nameIn p
  fs.createAt directory name (.link target)

/-- Removes the file, the link or the whole directory at the path. -/
def remove (fs : FileSystem) (p : Path) : Except Fault FileSystem := do
  let (directory, name) ← fs.nameIn p
  match fs.get? (directory ++ [name]) with
  | none => throw .notFound
  | some _ => return fs.removeAll (directory ++ [name])

end Localization.FileSystem

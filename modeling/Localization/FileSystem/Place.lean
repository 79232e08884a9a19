import Localization.FileSystem

/-!
# Finding the place of a path

A path leads from the root or from the working directory to a `Place`, piece by piece: an idle
piece stays, `..` goes up, a name goes down, and a symbolic link is followed from the directory
that holds it.  `FileSystem.place` ends at an entry or at a vacant name of a directory, and
keeps the pieces that lead on from a file or from a vacant name, where there is no way on.
`FileSystem.resolve` is the location of the entry to which the whole path leads.
-/

namespace Localization.FileSystem

/-- Why an operation on files fails. -/
inductive Fault where
  /-- There is no such entry. -/
  | notFound
  /-- A directory is due, and the entry is none. -/
  | notDirectory
  /-- A file is due, and the entry is a directory. -/
  | isDirectory
  /-- More links were met than are followed. -/
  | tooManyLinks
  /-- The content of the file is not text. -/
  | notText
  deriving DecidableEq, Repr

/-- The description of a fault that the operating system gives. -/
def Fault.message : Fault → String
  | notFound => "No such file or directory (os error 2)"
  | notDirectory => "Not a directory (os error 20)"
  | isDirectory => "Is a directory (os error 21)"
  | tooManyLinks => "Too many levels of symbolic links (os error 40)"
  | notText => "stream did not contain valid UTF-8"

/-- Where a path leads. -/
inductive Place where
  /-- To an entry.  Pieces are still to go only from one that is not a directory. -/
  | occupied (l : Location) (rest : List (List Char))
  /-- To a name that its directory does not hold, with pieces still to go. -/
  | vacant (directory : Location) (name : String) (rest : List (List Char))
  deriving DecidableEq, Repr

/-- How far the pieces of a path lead without following a link. -/
inductive Walk where
  /-- To their place. -/
  | arrived (p : Place)
  /-- To a link in a directory, with pieces still to go. -/
  | link (directory : Location) (target : Path) (rest : List (List Char))
  /-- Nowhere: there is no entry where they start. -/
  | lost

/-- Walks from a directory along pieces of a path, up to the first link. -/
def walkIn (fs : FileSystem) (directory : Location) : List (List Char) → Walk
  | [] => .arrived (.occupied directory [])
  | piece :: rest =>
    if Path.isIdle piece then fs.walkIn directory rest
    else if piece = ['.', '.'] then fs.walkIn directory.dropLast rest
    else
      let name := String.ofList piece
      match fs.get? (directory ++ [name]) with
      | none => .arrived (.vacant directory name rest)
      | some (.file _) => .arrived (.occupied (directory ++ [name]) rest)
      | some .directory => fs.walkIn (directory ++ [name]) rest
      | some (.link target) => .link directory target rest

/-- Walks from a location along pieces of a path, up to the first link. -/
def walk (fs : FileSystem) (l : Location) (pieces : List (List Char)) : Walk :=
  if pieces = [] then .arrived (.occupied l [])
  else
    match fs.get? l with
    | none => .lost
    | some .directory => fs.walkIn l pieces
    | some _ => .arrived (.occupied l pieces)

/-- The location where a path starts that is met in a directory. -/
def start (directory : Location) (p : Path) : Location :=
  if p.isAbsolute then [] else directory

/-- What a path is followed for. -/
inductive Purpose where
  /-- To find an entry. -/
  | lookup
  /-- To write a file. -/
  | writing
  deriving DecidableEq, Repr

/-- Nothing but separators is still to go, and at least one. -/
def isClosed (rest : List (List Char)) : Bool :=
  rest ≠ [] ∧ rest.all (· == [])

/-- Walks from a location along pieces of a path and follows as many links as are allowed.  A
link with a separator after it at the end of the path is no place for a file. -/
def follow (fs : FileSystem) (purpose : Purpose) (links : Nat) (l : Location)
    (pieces : List (List Char)) : Except Fault Place :=
  match fs.walk l pieces with
  | .arrived p => .ok p
  | .lost => .error .notFound
  | .link directory target rest =>
    if purpose = .writing ∧ isClosed rest then .error .isDirectory
    else
      match links with
      | 0 => .error .tooManyLinks
      | links + 1 => fs.follow purpose links (start directory target) (target.pieces ++ rest)

/-- The number of links that are followed for one path. -/
def maxLinks : Nat := 40

/-- The place to which a path leads.  The empty path leads nowhere. -/
def place (fs : FileSystem) (purpose : Purpose) (p : Path) : Except Fault Place :=
  if p.text = "" then .error .notFound
  else fs.follow purpose maxLinks (start fs.workingDirectory p) p.pieces

/-- The location of an entry that is the end of its path. -/
def Place.location : Place → Except Fault Location
  | .occupied l [] => .ok l
  | .occupied _ (_ :: _) => .error .notDirectory
  | .vacant _ _ _ => .error .notFound

/-- The location of the entry to which a path leads. -/
def resolve (fs : FileSystem) (p : Path) : Except Fault Location := do
  (← fs.place .lookup p).location

/-- The path leads to an entry. -/
def «exists» (fs : FileSystem) (p : Path) : Bool :=
  (fs.resolve p).toOption.isSome

/-- The path leads to a directory. -/
def isDirectory (fs : FileSystem) (p : Path) : Bool :=
  ((fs.resolve p).toOption.bind fs.get?) = some .directory

/-- The absolute path of a location. -/
def pathOf (l : Location) : Path :=
  .ofAnchor (some .root) (l.map String.toList)

/-- The absolute path, without links, of the entry to which a path leads; the path itself if it
leads to none. -/
def canonical (fs : FileSystem) (p : Path) : Path :=
  match fs.resolve p with
  | .ok l => pathOf l
  | .error _ => p

end Localization.FileSystem

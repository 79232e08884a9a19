/-!
# Paths

A `Path` is a text that names a file.  Its `parts` are what its text says once repeated and
trailing separators and inner `.` pieces are dropped: a leading separator is the root, a
leading `.` is the current directory, `..` goes up, and everything else is a name.  `slashForm`
writes the names and the `..` of a path with single separators between them.
-/

namespace Localization

/-- A path, as it is written. -/
structure Path where
  text : String
  deriving DecidableEq, Inhabited, Repr

namespace Path

/-- A part of a path. -/
inductive Part where
  | root
  | current
  | up
  | name (text : String)
  deriving DecidableEq, Inhabited, Repr

/-- The pieces of the text between separators. -/
def pieces (p : Path) : List (List Char) :=
  p.text.toList.splitOn '/'

/-- The path of these pieces. -/
def ofPieces (pieces : List (List Char)) : Path :=
  ⟨.ofList (['/'].intercalate pieces)⟩

/-- The piece is empty or `.`, and so leads nowhere. -/
def isIdle (piece : List Char) : Bool :=
  piece == [] || piece == ['.']

/-- The part that a piece stands for. -/
def part? (piece : List Char) : Option Part :=
  if isIdle piece then none
  else if piece = ['.', '.'] then some .up
  else some (.name (.ofList piece))

/-- Where a path starts: at the root, or at the current directory if it says so. -/
def anchor? (p : Path) : Option Part :=
  match p.pieces with
  | [] :: _ :: _ => some .root
  | ['.'] :: _ => some .current
  | _ => none

/-- The pieces after the start. -/
def body (p : Path) : List (List Char) :=
  match p.pieces with
  | [] :: piece :: rest => piece :: rest
  | ['.'] :: rest => rest
  | rest => rest

/-- The parts of a path. -/
def parts (p : Path) : List Part :=
  p.anchor?.toList ++ p.body.filterMap part?

/-- The path starts at the root. -/
def isAbsolute (p : Path) : Bool :=
  p.anchor? == some .root

/-- The text of a part in a slash form. -/
def slashText? : Part → Option (List Char)
  | .up => some ['.', '.']
  | .name text => some text.toList
  | .root => none
  | .current => none

/-- The names and the `..` of a path, with single separators between them. -/
def slashForm (p : Path) : String :=
  .ofList (['/'].intercalate (p.parts.filterMap slashText?))

/-- The parts of `q` are the first parts of `p`. -/
def startsWith (p q : Path) : Bool :=
  q.parts.isPrefixOf p.parts

/-- The path `q` seen from `p`: `q` itself when it is absolute. -/
def join (p q : Path) : Path :=
  if q.isAbsolute then q
  else if p.text = "" ∨ p.text.toList.getLast? = some '/' then ⟨p.text ++ q.text⟩
  else ⟨p.text ++ "/" ++ q.text⟩

/-! ### Paths from pieces -/

/-- The path with this start and these pieces after it. -/
def ofAnchor : Option Part → List (List Char) → Path
  | some .root, [] => ⟨"/"⟩
  | some .root, rest => .ofPieces ([] :: rest)
  | some .current, rest => .ofPieces (['.'] :: rest)
  | _, rest => .ofPieces rest

/-- The relative path that leads down these names. -/
def ofNames (names : List String) : Path :=
  .ofPieces (names.map String.toList)

/-! ### The parent of a path -/

/-- The pieces without the idle ones at the end. -/
def trimIdle (pieces : List (List Char)) : List (List Char) :=
  (pieces.reverse.dropWhile isIdle).reverse

/-- The path without its last part; the root and the empty path have no parent.  What is left
does not end with an idle piece. -/
def parent? (p : Path) : Option Path :=
  match trimIdle p.body with
  | [] => if p.anchor? = some .current then some ⟨""⟩ else none
  | rest => some (ofAnchor p.anchor? (trimIdle rest.dropLast))

/-! ### File names -/

/-- What follows the last dot of a file name.  A dot that only leads the name does not count. -/
def extension? (name : String) : Option String :=
  match (name.toList.splitOn '.').reverse with
  | [] | [_] | [_, []] => none
  | suffix :: _ => some (.ofList suffix)

end Path
end Localization

import Localization.Text.Segment

/-!
# Comments that start a line

A comment is dropped from a source only when nothing but spaces and tabs stands before it on
its line.  `Comment.dropLines` empties the lines that are `//` comments and keeps the line
breaks, so that the lines around them stay where they were.  `Comment.dropBlocks` then removes
the `/* ... */` comments, each from the start of its line through its first `*/`.
`Comment.strip` is one after the other.
-/

namespace Localization.Comment

/-- The characters that may stand before a comment on its line. -/
def isIndent (c : Char) : Bool :=
  c == ' ' || c == '\t'

/-- The line is a comment: spaces and tabs, then `//`. -/
def isLineComment (line : List Char) : Bool :=
  ['/', '/'].isPrefixOf (line.dropWhile isIndent)

/-- The source with every `//` comment line emptied. -/
def dropLines (source : List Char) : List Char :=
  ['\n'].intercalate
    ((source.splitOn '\n').map fun line => if isLineComment line then [] else line)

/-- The length of the block comment at the start of a line, its indentation included: it ends
with the first `*/` that does not overlap the opening `/*`.  An unclosed comment is none. -/
def blockLength? : Text.Matcher := fun before text =>
  if before = none ∨ before = some '\n' then
    match text.dropWhile isIndent with
    | '/' :: '*' :: body =>
      (Text.indexOf? ['*', '/'] body).map fun n =>
        (text.takeWhile isIndent).length + 2 + n + 2
    | _ => none
  else none

/-- The source without its block comments that start a line. -/
def dropBlocks (source : List Char) : List Char :=
  (Text.cut blockLength? source).filterMap Text.Segment.plain?

/-- The source without the comments that start a line. -/
def strip (source : List Char) : List Char :=
  dropBlocks (dropLines source)

end Localization.Comment

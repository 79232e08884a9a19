/-!
# Cutting a text at its matches

A `Text.Matcher` says how long the match is that begins at a place of a text, if one begins
there.  `Text.cut` takes the leftmost match again and again, each search starting where the
match before it ended, and gives the text as a list of `Text.Segment`s: the characters outside
every match, and the matches.  `flatMap_chars_cut` says that nothing is lost.
-/

namespace Localization.Text

/-- The first place, counted in characters, at which `pattern` stands in a text. -/
def indexOf? (pattern : List Char) : List Char → Option Nat
  | [] => none
  | c :: cs =>
    if pattern.isPrefixOf (c :: cs) then some 0 else (indexOf? pattern cs).map (· + 1)

/-- A piece of a text that has been cut: a character outside every match, or a match. -/
inductive Segment where
  | plain (c : Char)
  | hit (chars : List Char)
  deriving DecidableEq, Repr

namespace Segment

/-- The characters that a piece stands for. -/
def chars : Segment → List Char
  | plain c => [c]
  | hit cs => cs

/-- The characters of a match, and nothing for a character outside every match. -/
def hit? : Segment → Option (List Char)
  | plain _ => none
  | hit cs => some cs

/-- The character, if it lies outside every match. -/
def plain? : Segment → Option Char
  | plain c => some c
  | hit _ => none

end Segment

/-- The length of the match at a place, given the character before the place and the text from
the place on.  A match of length zero counts as none. -/
abbrev Matcher := Option Char → List Char → Option Nat

/-- The pieces of a text whose first `skip` characters belong to a match that has already been
cut off; `before` is the character in front of the text. -/
def cutFrom (m : Matcher) : (before : Option Char) → (skip : Nat) → List Char → List Segment
  | _, _, [] => []
  | _, skip + 1, c :: cs => cutFrom m (some c) skip cs
  | before, 0, c :: cs =>
    match m before (c :: cs) with
    | some (n + 1) => .hit ((c :: cs).take (n + 1)) :: cutFrom m (some c) n cs
    | _ => .plain c :: cutFrom m (some c) 0 cs

/-- The pieces of a text, cut at its leftmost matches that do not overlap. -/
def cut (m : Matcher) (text : List Char) : List Segment :=
  cutFrom m none 0 text

theorem flatMap_chars_cutFrom (m : Matcher) (before : Option Char) (skip : Nat)
    (text : List Char) :
  (cutFrom m before skip text).flatMap Segment.chars = text.drop skip
  := by
  fun_induction cutFrom m before skip text with
  | case1 => simp
  | case2 _ skip c cs ih => simpa using ih
  | case3 _ c cs n _ ih => simp [Segment.chars, ih]
  | case4 _ c cs _ ih => simp [Segment.chars, ih]

/-- The pieces of a text, read one after the other, are the text. -/
theorem flatMap_chars_cut (m : Matcher) (text : List Char) :
  (cut m text).flatMap Segment.chars = text
  := flatMap_chars_cutFrom m none 0 text

end Localization.Text

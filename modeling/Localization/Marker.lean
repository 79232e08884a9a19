import Localization.Text.Blank
import Localization.Text.Segment

/-!
# Markers

A marker of a component `C` is a self-closing element `<C ... />` in a source text.  It begins
where `<C` stands, followed either directly by `/>` or by a blank character with some `/>`
after it, and it ends with the first such `/>`.  `Marker.findAll` lists the markers of a text
from left to right; they do not overlap.
-/

namespace Localization

/-- The name of a component whose elements are markers.  It is not blank. -/
structure Component where
  name : String
  notBlank : Text.isBlankText name.toList = false
  deriving DecidableEq

namespace Component

/-- The component of this name, unless the name is blank. -/
def ofName? (name : String) : Option Component :=
  if h : Text.isBlankText name.toList = false then some ⟨name, h⟩ else none

/-- The component whose elements are markers unless a project says otherwise. -/
def default : Component where
  name := "LocalizeText"
  notBlank := by decide

instance : Inhabited Component := ⟨default⟩

end Component

namespace Marker

/-- The characters with which every marker ends. -/
def close : List Char := ['/', '>']

/-- The length of what follows the name of the component in a marker, through the first `/>`:
directly `/>`, or a blank character and everything up to the first `/>` after it. -/
def tailLength? : List Char → Option Nat
  | [] => none
  | c :: cs =>
    if Text.isBlank c then (Text.indexOf? close cs).map (1 + · + close.length)
    else if close.isPrefixOf (c :: cs) then some close.length
    else none

/-- The length of the marker of the component at the start of a text. -/
def length? (component : Component) : Text.Matcher := fun _ text =>
  let opening := '<' :: component.name.toList
  (opening.isPrefixOf? text).bind fun rest => (tailLength? rest).map (opening.length + ·)

/-- The markers of the component in a text, from left to right. -/
def findAll (component : Component) (text : List Char) : List (List Char) :=
  (Text.cut (length? component) text).filterMap Text.Segment.hit?

end Marker
end Localization

import Localization.Table
import Localization.Text.Blank
import Localization.Text.Segment

/-!
# Message templates

A placeholder in a template is `{{`, a name and `}}`, where the name is a longest row of
characters other than `}` and is not empty.  `Template.fill` puts a value in the place of each
placeholder, in one pass from left to right: inserted values are not looked at again.
-/

namespace Localization

/-- Replacement values by name. -/
abbrev Values := Table String String

namespace Template

/-- `n` more than the number of characters before the first `}` of a text, if another `}`
follows it directly. -/
def nameLength? (n : Nat) : List Char → Option Nat
  | [] => none
  | '}' :: rest => if rest.head? = some '}' then some n else none
  | _ :: rest => nameLength? (n + 1) rest

/-- The length of the placeholder at the start of a text. -/
def placeholderLength? : Text.Matcher := fun _ text =>
  match text with
  | '{' :: '{' :: rest => ((nameLength? 0 rest).filter (· ≠ 0)).map (2 + · + 2)
  | _ => none

/-- The name in a placeholder, without the blanks around it. -/
def nameOf (placeholder : List Char) : List Char :=
  Text.trim ((placeholder.drop 2).take (placeholder.length - 4))

/-- The value of a name: the first in the given tables that is not empty, and otherwise the
empty text.  An empty name and a name with blanks in it have no value. -/
def valueOf (tables : List Values) (name : List Char) : String :=
  if name = [] ∨ name.any Text.isBlank then ""
  else
    (tables.findSome? fun values =>
      (values.get? (String.ofList name)).filter (· ≠ "")).getD ""

/-- What stands in the result for a piece of a template. -/
def fillSegment (tables : List Values) : Text.Segment → List Char
  | .plain c => [c]
  | .hit placeholder => (valueOf tables (nameOf placeholder)).toList

/-- The template with its placeholders filled from the given tables, an earlier table before a
later one. -/
def fill (tables : List Values) (template : String) : String :=
  .ofList ((Text.cut placeholderLength? template.toList).flatMap (fillSegment tables))

end Template
end Localization

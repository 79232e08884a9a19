import Localization.Text.Blank

/-!
# Attributes of a marker

An attribute is a blank character, a name, `=`, a quote, a value and the same quote.  The value
is a row of units: a character other than the quote, the backslash and the line break, or a
backslash together with a character other than the line break.  `Attribute.value?` reads the
value at the first place of a marker where the whole attribute stands; what fails to be an
attribute does not hide a later one.
-/

namespace Localization

/-- The attributes of a marker that describe a message. -/
structure Attributes where
  id : Option String := none
  description : Option String := none
  defaultMessage : Option String := none
  deriving DecidableEq, Inhabited, Repr

namespace Attribute

/-- The characters that may enclose a value. -/
def isQuote (c : Char) : Bool :=
  c == '\'' || c == '"'

/-- The units before the first closing quote, if nothing but units stands before it. -/
def unitsBefore? (quote : Char) : List Char → Option (List Char)
  | [] => none
  | '\\' :: c :: cs => if c = '\n' then none else (unitsBefore? quote cs).map ('\\' :: c :: ·)
  | c :: cs =>
    if c = quote then some []
    else if c = '\\' ∨ c = '\n' then none
    else (unitsBefore? quote cs).map (c :: ·)

/-- The value of a quoted text at the start of a text. -/
def quoted? : List Char → Option (List Char)
  | [] => none
  | quote :: cs => if isQuote quote then unitsBefore? quote cs else none

/-- The value of the attribute of this name at the start of a text. -/
def valueAt? (name : List Char) : List Char → Option (List Char)
  | [] => none
  | c :: cs => if Text.isBlank c then ((name ++ ['=']).isPrefixOf? cs).bind quoted? else none

/-- The value of the attribute of this name at the first place of a text where it stands. -/
def value? (name : List Char) : List Char → Option (List Char)
  | [] => none
  | c :: cs => (valueAt? name (c :: cs)).or (value? name cs)

end Attribute

/-- The attributes that a marker gives. -/
def Attributes.ofMarker (marker : List Char) : Attributes where
  id := (Attribute.value? "id".toList marker).map String.ofList
  description := (Attribute.value? "description".toList marker).map String.ofList
  defaultMessage := (Attribute.value? "defaultMessage".toList marker).map String.ofList

end Localization

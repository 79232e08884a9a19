import Localization.Config
import Localization.Json.Reader

/-!
# Reading configurations

A configuration is read from a JSON object.  Members with other keys are skipped, missing ones
take their defaults, and a key of a configuration that occurs twice is refused.  An array of the
values in the order of the fields is read as well.
-/

namespace Localization

/-- Reads the name of a format, or an object with that name as its one key and `null` as its
value.  The key is found as in any object: what is not a string there makes the text malformed,
whatever it is, while a value of the wrong form is read in full first (`Json.misfit`). -/
def Format.read : Json.Reader Format := fun text =>
  let named (name : String) : Except Json.Fault Format :=
    match Format.ofName? name with
    | some format => .ok format
    | none => .error .mistyped
  match Json.skipSpace text with
  | [] => .error .truncated
  | '"' :: cs => do
    let (name, rest) ← Json.stringBody cs
    return (← named name, rest)
  | '{' :: cs => do
    match ← Json.nextKey true cs with
    | none => .error .malformed
    | some cs =>
      let (name, rest) ← Json.stringBody cs
      let format ← named name
      let rest ← Json.colon rest
      let ((), rest) ← Json.null rest
      return (format, ← Json.endMembers rest)
  | _ => .error .malformed

namespace Config

/-- The fields of a configuration that have been read so far. -/
structure Draft where
  extensions : Option (List String) := none
  ignores : Option (List String) := none
  component : Option String := none
  format : Option Format := none

/-- The configuration of a draft, with the defaults for what is missing. -/
def Draft.complete (d : Draft) : Config where
  extensions := d.extensions.getD ({} : Config).extensions
  ignores := d.ignores.getD ({} : Config).ignores
  component := d.component.getD ({} : Config).component
  format := d.format.getD ({} : Config).format

/-- Reads a list of strings. -/
def readStrings : Json.Reader (List String) :=
  Json.array Json.string

/-- Reads a member of a configuration. -/
def readMember : Json.MemberReader Draft := fun key d =>
  match key with
  | "extensions" => Json.once d.extensions readStrings fun x => { d with extensions := some x }
  | "ignores" => Json.once d.ignores readStrings fun x => { d with ignores := some x }
  | "component" => Json.once d.component Json.string fun x => { d with component := some x }
  | "format" => Json.once d.format Format.read fun x => { d with format := some x }
  | _ => Json.value fun text => do
    let ((), rest) ← Json.skipValue text
    return (d, rest)

/-- Reads the fields of a configuration in order. -/
def readItems : Json.Reader Draft := fun text => do
  let (extensions, text) ← Json.item? readStrings true text
  let (ignores, text) ← Json.item? readStrings false text
  let (component, text) ← Json.item? Json.string false text
  let (format, text) ← Json.item? Format.read false text
  return ({ extensions, ignores, component, format }, ← Json.endItems text)

/-- Reads the fields of a configuration that are there. -/
def Draft.read : Json.Reader Draft := fun text =>
  match Json.skipSpace text with
  | '{' :: cs => Json.members readMember {} cs
  | '[' :: cs => readItems cs
  | cs => .error (Json.misfit cs)

/-- The fields of a configuration that a text holds. -/
def Draft.ofJson (text : String) : Except Json.Fault Draft :=
  Json.document Draft.read text

/-- The configuration that a text holds. -/
def ofJson (text : String) : Except Json.Fault Config :=
  (Draft.ofJson text).map Draft.complete

end Config
end Localization

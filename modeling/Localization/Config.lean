import Localization.Catalog.Format
import Localization.Failure
import Localization.Marker

/-!
# Configuration

A `Config` says what a project wants extracted and how it wants it written.
`Config.validate` refuses a configuration with which an extraction could not begin.
-/

namespace Localization

/-- The choices of a project. -/
structure Config where
  extensions : List String := ["jsx"]
  ignores : List String := []
  component : String := Component.default.name
  format : Format := .json
  deriving DecidableEq, Repr

namespace Config

instance : Inhabited Config := ⟨{}⟩

/-- The name of the file that holds a configuration. -/
def fileName : Path := ⟨".localizerc.json"⟩

/-- The fault of an ignore entry that is meant as a pattern and is none. -/
def ignoreFault? (entry : String) : Option Glob.Fault :=
  match Glob.compile entry with
  | .error fault => if Glob.hasWildcard entry then some fault else none
  | .ok _ => none

/-- The ignore entries are patterns where they hold wildcards, there is an extension, and the
component is not blank.  The first that does not hold is the failure. -/
def validate (config : Config) : Except Failure Unit :=
  match config.ignores.findSome? fun entry => (ignoreFault? entry).map (entry, ·) with
  | some (entry, fault) => .error (.badConfigIgnore entry fault)
  | none =>
    if config.extensions = [] then .error .noExtensions
    else if Text.isBlankText config.component.toList then .error .blankComponent
    else .ok ()

/-- The configuration as a JSON object. -/
def toJson (config : Config) : String :=
  (Json.Value.object [
    ("extensions", .ofStrings config.extensions),
    ("ignores", .ofStrings config.ignores),
    ("component", .string config.component),
    ("format", .string config.format.name)]).pretty

end Config
end Localization

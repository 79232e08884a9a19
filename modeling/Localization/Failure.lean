import Localization.FileSystem.Place
import Localization.Glob
import Localization.Json.Number
import Localization.Text.Quoted

/-!
# Failures

A `Failure` is a reason for which the library gives no answer.  Its `message` is in the words of
the library; the pattern, the JSON text or the file system that is at the root of it, if there
is one, is its `cause`.
-/

namespace Localization

/-- Why there is no answer. -/
inductive Failure where
  /-- The name of the marker component is blank. -/
  | blankMarker
  /-- An ignore entry is not a pattern. -/
  | badIgnore (pattern : String) (fault : Glob.Fault)
  /-- The root of a scan is not a directory. -/
  | notDirectory (root : Path)
  /-- A selected source file cannot be read. -/
  | unreadableSource (file : Path) (fault : FileSystem.Fault)
  /-- The configuration cannot be read. -/
  | unreadableConfig (file : Path) (fault : FileSystem.Fault)
  /-- The configuration is not of the form of a configuration. -/
  | badConfig (file : Path) (fault : Json.Fault)
  /-- An ignore entry of the configuration is not a pattern. -/
  | badConfigIgnore (pattern : String) (fault : Glob.Fault)
  /-- The configuration lists no extension. -/
  | noExtensions
  /-- The configuration names a blank component. -/
  | blankComponent
  /-- The text is not a message table. -/
  | badTable (fault : Json.Fault)
  /-- The message file cannot be read. -/
  | unreadableTable (file : Path) (fault : FileSystem.Fault)
  /-- The message file does not hold a message table. -/
  | badTableFile (file : Path) (fault : Json.Fault)
  /-- The directory of an extraction cannot be reached. -/
  | unreachable (directory : Path) (fault : FileSystem.Fault)
  /-- There is a configuration already. -/
  | configExists
  /-- The file cannot be written. -/
  | unwritable (file : Path) (fault : FileSystem.Fault)
  deriving DecidableEq, Repr

namespace Failure

/-- What is at the root of a failure. -/
inductive Cause where
  | own
  | glob (fault : Glob.Fault)
  | json (fault : Json.Fault)
  | system (fault : FileSystem.Fault)
  deriving DecidableEq, Repr

/-- What is at the root of the failure. -/
def cause : Failure → Cause
  | blankMarker | notDirectory _ | noExtensions | blankComponent | configExists => .own
  | badIgnore _ f | badConfigIgnore _ f => .glob f
  | badConfig _ f | badTable f | badTableFile _ f => .json f
  | unreadableSource _ f | unreadableConfig _ f | unreadableTable _ f | unreachable _ f
  | unwritable _ f => .system f

/-- The message of a text that is not a message table. -/
def badTableMessage : String :=
  "Message table must be a JSON object of strings"

/-- The message of the failure, up to its cause.  The fault of a pattern is part of it. -/
def message : Failure → String
  | blankMarker => "Marker component name must not be empty"
  | badIgnore pattern f => "Invalid ignore pattern: \"" ++ pattern ++ "\": " ++ f.message
  | notDirectory root => "Not a directory: " ++ root.text
  | unreadableSource file _ => "Failed to read file: " ++ file.text
  | unreadableConfig file _ => "Failed to read config file: " ++ Text.quoted file.text
  | badConfig file _ => "Failed to parse config file: " ++ Text.quoted file.text
  | badConfigIgnore pattern f =>
    "Invalid glob pattern in 'ignores': \"" ++ pattern ++ "\": " ++ f.message
  | noExtensions => "'extensions' must list at least one file extension"
  | blankComponent => "'component' must not be empty"
  | badTable _ => badTableMessage
  | unreadableTable file _ => "Failed to read message table: " ++ file.text
  | badTableFile file _ =>
    "Failed to parse message table: " ++ file.text ++ ": " ++ badTableMessage
  | unreachable directory _ => "Cannot access directory: " ++ directory.text
  | configExists => ".localizerc.json already exists"
  | unwritable file _ => "Failed to write " ++ file.text

/-- The message of the failure together with what is at the root of it. -/
def fullMessage (f : Failure) : String :=
  match f.cause with
  | .own | .glob _ => f.message
  | .json fault => f.message ++ ": " ++ fault.message
  | .system fault => f.message ++ ": " ++ fault.message

end Failure
end Localization

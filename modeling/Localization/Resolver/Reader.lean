import Localization.Failure
import Localization.FileSystem.Access
import Localization.Json.Reader
import Localization.Resolver

/-!
# Reading message tables

A message table is read from a JSON object of strings.  Of several values for one key the last
counts, and a key whose last value is `null` has no message.
-/

namespace Localization.Resolver

/-- Reads a member of a message table. -/
def readMember : Json.MemberReader (Table String (Option String)) := fun key table text => do
  let (message, rest) ← Json.value Json.string? text
  return (table.insert key message, rest)

/-- Reads the entries of a message table. -/
def readTable : Json.Reader (Table String (Option String)) := fun text =>
  match Json.skipSpace text with
  | '{' :: cs => Json.members readMember .empty cs
  | cs => .error (Json.misfit cs)

/-- The message table that a text holds. -/
def messagesOfJson (text : String) : Except Json.Fault (Table String String) :=
  (Json.document readTable text).map (·.filterMapValues id)

/-- The resolver of a message table in a text. -/
def ofJson (text : String) : Except Failure Resolver :=
  match messagesOfJson text with
  | .ok messages => .ok { messages }
  | .error fault => .error (.badTable fault)

/-- The resolver of a message table in a file. -/
def ofFile (fs : FileSystem) (file : Path) : Except Failure Resolver := do
  let text ← (fs.readText file).mapError (.unreadableTable file)
  match messagesOfJson text with
  | .ok messages => return { messages }
  | .error fault => throw (.badTableFile file fault)

end Localization.Resolver

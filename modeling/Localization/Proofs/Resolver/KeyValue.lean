import Localization.Proofs.Catalog.KeyValue
import Localization.Resolver.Reader

/-!
# Catalogs resolved at run time

The table that a resolver reads from the key-value form of a catalog is the table of the
catalog's messages, the missing ones left out (`messagesOfJson_toKeyValue`).  A message is
therefore resolved by the last record under its id (`Catalog.last?`), and by the given default
message when that record does not exist or has no message (`ofJson_toKeyValue`).
-/

namespace Localization

namespace Resolver

/-- Reading a written member inserts it. -/
theorem readMember_afterKey (key : String) (table : Table String (Option String)) (depth : Nat)
    (message : Option String) (rest : List Char) :
  readMember key table (Json.afterKey depth (Json.Value.ofString? message) rest)
    = .ok (table.insert key message, rest)
  := by
  rw [readMember, Json.value_string?_afterKey]
  rfl

/-- The entries of a written table are read back one by one. -/
theorem document_readTable_pretty (entries : List (String × Option String)) :
  Json.document readTable
      (Json.Value.object (entries.map fun e => (e.1, Json.Value.ofString? e.2))).pretty
    = .ok (.ofList entries)
  := by
  apply Json.document_object_pretty (fun e : String × Option String =>
    (e.1, Json.Value.ofString? e.2))
  intro e table rest
  apply readMember_afterKey

/-- The messages of the catalog are read back from its key-value form, at their keys. -/
theorem messagesOfJson_toKeyValue (catalog : Catalog) :
  messagesOfJson catalog.toKeyValue
    = .ok ((Table.ofList catalog.messages.entries).filterMapValues id)
  := by
  rw [messagesOfJson, Catalog.toKeyValue, document_readTable_pretty]
  rfl

/-- The message at a key is that of the last record under it. -/
theorem get?_filterMapValues_messages (catalog : Catalog) (key : String) :
  ((Table.ofList catalog.messages.entries).filterMapValues id).get? key
    = (catalog.last? key).bind (·.defaultMessage)
  := by
  rw [Table.get?_filterMapValues, Table.get?_ofList_entries, Catalog.get?_messages]
  cases catalog.last? key <;> rfl

/-- A catalog in key-value form makes a resolver, which takes each message from the last record
under its id. -/
theorem ofJson_toKeyValue (catalog : Catalog) :
  ∃ resolver, ofJson catalog.toKeyValue = .ok resolver
    ∧ ∀ (id : String) (values defaults : Values) (defaultMessage : Option String),
      ({ resolver with defaults } : Resolver).localize id values defaultMessage
        = match (catalog.last? id).bind (·.defaultMessage), defaultMessage with
          | some message, _ => Template.fill [values, defaults] message
          | none, some message => Template.fill [values, defaults] message
          | none, none => ""
  := by
  refine ⟨{ messages := (Table.ofList catalog.messages.entries).filterMapValues id }, ?_, ?_⟩
  · rw [ofJson, messagesOfJson_toKeyValue]
  · intro key values defaults defaultMessage
    rw [localize, get?_filterMapValues_messages]
    cases (catalog.last? key).bind (·.defaultMessage) with
    | some message => rfl
    | none => cases defaultMessage with
      | some message => rfl
      | none => rfl

end Resolver
end Localization

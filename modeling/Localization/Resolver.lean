import Localization.Template

/-!
# Message resolution

A `Resolver` holds a table of message templates by id, and replacement values that serve when
the caller gives none.
-/

namespace Localization

/-- Message templates by id, with default replacement values. -/
structure Resolver where
  messages : Table String String := .empty
  defaults : Values := .empty

/-- The text of a message: its template in the table, or else the given default template,
filled from the values and then from the resolver's own defaults.  Without a template it is
empty. -/
def Resolver.localize (r : Resolver) (id : String) (values : Values)
    (defaultMessage : Option String) : String :=
  match (r.messages.get? id).or defaultMessage with
  | some template => Template.fill [values, r.defaults] template
  | none => ""

end Localization

import Localization.Config.Reader
import Localization.Proofs.Json.Arrays

/-!
# Configurations are read back from JSON

A written configuration is read back field by field, each field being met once
(`Config.reads_members`), and so reading its JSON gives the configuration
(`Config.ofJson_toJson_eq`).
-/

namespace Localization

open Json

/-- A format is read by its name. -/
theorem Format.read_prettyAt (depth : Nat) (format : Format) (rest : List Char) :
  Format.read ([' '] ++ (Value.prettyAt depth (.string format.name) ++ rest)) = .ok (format, rest)
  := by
  have hspace : ∀ c ∈ [' '], isSpace c := by simp [isSpace]
  have hname : Format.ofName? format.name = some format := by
    cases format <;> rfl
  rw [Value.prettyAt, quote_append, read, skipSpace_append hspace, skipSpace_cons (by decide)]
  apply Outcome.bind_eq_ok_iff.2
  refine ⟨(format.name, rest), stringBody_flatMap_escape format.name rest, ?_⟩
  dsimp only
  rw [hname]
  rfl

namespace Config

/-- The draft with all fields of a configuration. -/
def Draft.ofConfig (config : Config) : Draft where
  extensions := some config.extensions
  ignores := some config.ignores
  component := some config.component
  format := some config.format

theorem Draft.complete_ofConfig (config : Config) : (ofConfig config).complete = config := rfl

theorem readStrings_prettyAt (depth : Nat) (texts : List String) (rest : List Char) :
  readStrings ([' '] ++ (Value.prettyAt depth (.ofStrings texts) ++ rest)) = .ok (texts, rest)
  := by
  have hspace : ∀ c ∈ [' '], isSpace c := by simp [isSpace]
  rw [readStrings, array, skipSpace_append hspace]
  apply array_prettyAt
  apply string_prettyAt [] (List.forall_mem_nil _) (depth + 1)

/-- The members of a written configuration are its fields, each of them once. -/
theorem reads_members (depth : Nat) (config : Config) :
  Reads readMember depth [
      ("extensions", .ofStrings config.extensions),
      ("ignores", .ofStrings config.ignores),
      ("component", .string config.component),
      ("format", .string config.format.name)]
    {} (.ofConfig config)
  := by
  have hspace : ∀ c ∈ [' '], isSpace c := by simp [isSpace]
  have hstrings := readStrings_prettyAt depth
  have hstring := string_prettyAt [' '] hspace depth
  have hformat := Format.read_prettyAt depth
  let d₀ : Draft := {}
  let d₁ : Draft := { d₀ with extensions := some config.extensions }
  let d₂ : Draft := { d₁ with ignores := some config.ignores }
  let d₃ : Draft := { d₂ with component := some config.component }
  apply Reads.cons fun rest => once_none (hstrings config.extensions rest) fun x =>
    { d₀ with extensions := some x }
  apply Reads.cons fun rest => once_none (hstrings config.ignores rest) fun x =>
    { d₁ with ignores := some x }
  apply Reads.cons fun rest => once_none (hstring config.component rest) fun x =>
    { d₂ with component := some x }
  apply Reads.cons fun rest => once_none (hformat config.format rest) fun x =>
    { d₃ with format := some x }
  apply Reads.nil

/-- All fields of a written configuration are read. -/
theorem read_toJson (config : Config) (rest : List Char) :
  Draft.read (config.toJson.toList ++ rest) = .ok (.ofConfig config, rest)
  := by
  obtain ⟨text, htext, hmembers⟩ := members_prettyAt_of_reads (reads_members 1 config) rest
  rw [toJson, Value.pretty, String.toList_ofList, htext, Draft.read, skipSpace_cons (by decide)]
  apply hmembers

theorem draft_ofJson_toJson (config : Config) :
  Draft.ofJson config.toJson = .ok (.ofConfig config)
  := by
  have hread := read_toJson config []
  rw [List.append_nil] at hread
  rw [Draft.ofJson, document, hread]
  rfl

/-- A configuration is read back from its JSON. -/
theorem ofJson_toJson_eq (config : Config) :
  ofJson config.toJson = .ok config
  := by
  rw [ofJson, draft_ofJson_toJson]
  apply congrArg Except.ok (Draft.complete_ofConfig config)

end Config
end Localization

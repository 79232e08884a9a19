import Localization.Proofs.Config.Creating
import Localization.Proofs.Extraction.Creating
import Localization.Proofs.Program.Extracting

/-!
# Writing the default configuration

`Config.init` creates a file with the default configuration (`exists_creates_of_init`), or fails
and changes nothing.  With this file every extraction to the terminal from a directory for which
no configuration was found still shows the same catalog (`ExtractCommand.renders_of_creates`), and
so the default configuration is neutral (`Config.init_neutral`).
-/

namespace Localization

open FileSystem (Creates pathOf)

namespace Config

variable {directory file : Path} {fs fs' : FileSystem} {failure : Failure}

theorem runIn_init (directory : Path) (fs : FileSystem) :
  (init directory).runIn fs
    = if fs.exists (directory.join fileName) then (.error .configExists, fs)
      else match fs.write (directory.join fileName) ({} : Config).toJson.toUTF8 with
        | .ok fs' => (.ok (directory.join fileName), fs')
        | .error fault => (.error (.unwritable (directory.join fileName) fault), fs)
  := by
  rw [init, Action.runIn_bind_of_ok Action.runIn_get]
  split
  · rfl
  · cases hw : fs.write (directory.join fileName) ({} : Config).toJson.toUTF8 with
    | ok fs' => apply Action.runIn_bind_of_ok (Action.runIn_write_of_ok hw)
    | error fault => apply Action.runIn_bind_of_error (Action.runIn_write_of_error hw)

theorem runIn_init_of_exists (h : fs.exists (directory.join fileName)) :
  (init directory).runIn fs = (.error .configExists, fs)
  := by
  rw [runIn_init, if_pos h]

theorem eq_of_runIn_init_error (h : (init directory).runIn fs = (.error failure, fs')) :
  fs' = fs
  := by
  rw [runIn_init] at h
  split at h
  · exact (Prod.mk.inj h).2.symm
  · split at h
    · cases h
    · exact (Prod.mk.inj h).2.symm

theorem runIn_init_eq_ok_iff :
  (init directory).runIn fs = (.ok file, fs')
    ↔ ¬ fs.exists (directory.join fileName)
      ∧ fs.write (directory.join fileName) ({} : Config).toJson.toUTF8 = .ok fs'
      ∧ file = directory.join fileName
  := by
  rw [runIn_init]
  split
  · next hexists => simp [hexists]
  · next hnone =>
    cases fs.write (directory.join fileName) ({} : Config).toJson.toUTF8 with
    | error fault => simp
    | ok fs'' =>
      simp only [Prod.mk.injEq, Except.ok.injEq]
      constructor
      · rintro ⟨rfl, rfl⟩
        exact ⟨hnone, rfl, rfl⟩
      · rintro ⟨-, rfl, rfl⟩
        exact ⟨rfl, rfl⟩

/-- When the default configuration has been written, it is in a new file. -/
theorem exists_creates_of_init (h : (init directory).runIn fs = (.ok file, fs')) :
  ∃ l, fs'.resolve (directory.join fileName) = .ok l
    ∧ Creates l ({} : Config).toJson.toUTF8 fs fs'
  := by
  obtain ⟨hnone, hwrite, -⟩ := runIn_init_eq_ok_iff.1 h
  apply FileSystem.exists_creates_of_write hnone hwrite

end Config

namespace ExtractCommand

variable {l : Location} {c : ExtractCommand} {fs fs' : FileSystem} {text : String}

/-- The command shows this catalog and changes nothing. -/
def Shows (c : ExtractCommand) (fs : FileSystem) (text : String) : Prop :=
  ∃ summary, c.run.runIn fs = (.ok summary, fs) ∧ summary.delivery = .shown text

/-- A command without an output file shows the catalog that it asks for. -/
theorem shows_iff (ho : c.output = none) :
  c.Shows fs text ↔ c.Renders fs text
  := by
  obtain ⟨failure, hf, hrun⟩ | ⟨text', summary, hr, hd, hrun⟩ := runIn_run c fs
  · constructor
    · rintro ⟨summary, hrun', -⟩
      rw [hrun] at hrun'
      cases hrun'
    · intro hr
      exact absurd hf hr.not_fails
  · rw [run_deliver_none ho] at hd hrun
    constructor
    · rintro ⟨summary', hrun', hd'⟩
      rw [hrun] at hrun'
      obtain rfl := Except.ok.inj (Prod.mk.inj hrun').1
      obtain rfl := Delivery.shown.inj (hd.symm.trans hd')
      exact hr
    · intro hr'
      obtain rfl := hr.eq hr'
      exact ⟨summary, hrun, hd⟩

/-- The same catalog is asked for when the default configuration has come to a place where no
configuration was found. -/
theorem renders_of_creates (h : Creates l ({} : Config).toJson.toUTF8 fs fs') {base : Location}
    (hbase : fs.resolve c.directory = .ok base) (hnone : Config.find? fs (pathOf base) = none)
    (hr : c.Renders fs text) :
  c.Renders fs' text
  := by
  obtain ⟨base', draft, extraction, hbase', hs, he, rfl⟩ := hr
  obtain rfl := Outcome.eq_of_eq_ok hbase hbase'
  obtain rfl := hs.eq (.nothing hnone)
  obtain ⟨path, hload⟩ := Config.exists_load_of_creates h hnone
  obtain ⟨draft', hs', hd'⟩ := Config.exists_says_of_load hload
  have hoptions : c.optionsFrom draft' = c.optionsFrom {} := by
    rw [← options_complete, ← options_complete, ← hd']
    rfl
  have hformat : c.formatFrom draft' = c.formatFrom {} := by
    rw [← getD_format_complete, ← getD_format_complete, ← hd']
    rfl
  obtain ⟨extraction', he', hcatalog⟩ := Extraction.exists_run_of_creates h
    Record.ofSource_toJson_eq_nil (FileSystem.resolve_pathOf_of_resolve hbase) he
  refine ⟨base, draft', extraction', h.toWrites.resolve_eq_ok hbase, hs', ?_, ?_⟩
  · rw [hoptions, he']
  · rw [hformat, hcatalog]

end ExtractCommand

/-- The default configuration is written where there is none and a file can be written, and a
failure changes nothing.  When it has been written, every file is read as before, it is loaded
from the new file, and it is not written again; and an extraction that showed a catalog, from a
directory for which no configuration was found, shows the same. -/
theorem Config.init_neutral (fs : FileSystem) (directory : Path) :
  (fs.exists (directory.join fileName) → (init directory).runIn fs = (.error .configExists, fs))
    ∧ (∀ failure fs', (init directory).runIn fs = (.error failure, fs') → fs' = fs)
    ∧ (∀ file fs', (init directory).runIn fs = (.ok file, fs')
      ↔ ¬ fs.exists (directory.join fileName)
        ∧ fs.write (directory.join fileName) ({} : Config).toJson.toUTF8 = .ok fs'
        ∧ file = directory.join fileName)
    ∧ ∀ file fs', (init directory).runIn fs = (.ok file, fs') →
      (∀ p bytes, fs.read p = .ok bytes → fs'.read p = .ok bytes)
      ∧ load fs' directory = .ok ⟨{}, some (directory.join fileName)⟩
      ∧ (init directory).runIn fs' = (.error .configExists, fs')
      ∧ ∀ (c : ExtractCommand) base text, c.output = none → fs.resolve c.directory = .ok base →
        find? fs (pathOf base) = none → c.Shows fs text → c.Shows fs' text
  := by
  refine ⟨runIn_init_of_exists, fun failure fs' => eq_of_runIn_init_error,
    fun file fs' => runIn_init_eq_ok_iff, ?_⟩
  intro file fs' hinit
  obtain ⟨l, hl, hcreates⟩ := exists_creates_of_init hinit
  have hexists : fs'.exists (directory.join fileName) := FileSystem.exists_iff.2 ⟨l, hl⟩
  refine ⟨fun p bytes => hcreates.read_eq_ok, ?_, runIn_init_of_exists hexists, ?_⟩
  · have hread : fs'.read (directory.join fileName) = .ok ({} : Config).toJson.toUTF8 :=
      FileSystem.read_eq_ok_iff.2 ⟨l, hl, hcreates.get?_eq_file⟩
    rw [load, find?_eq, if_pos hexists]
    dsimp only
    rw [readFile_of_read hread rfl]
    rfl
  · intro c base text ho hbase hnone hshows
    apply (ExtractCommand.shows_iff ho).2
    apply ExtractCommand.renders_of_creates hcreates hbase hnone
    apply (ExtractCommand.shows_iff ho).1 hshows

/-- A project above which a link with the name of a configuration leads to nothing yet. -/
def Config.linked : FileSystem where
  entries := .ofList [
    (["home"], .directory),
    (["home", ".localizerc.json"], .link ⟨"app/Config.jsx"⟩),
    (["home", "app"], .directory),
    (["home", "app", "App.jsx"], .file "<LocalizeText id='a'/>".toUTF8)]
  workingDirectory := ["home"]
  ne_root := by decide +kernel
  isName := by decide +kernel
  parent := by decide +kernel

/-- The configuration is written where the link leads and becomes one of the sources of the
project, which has the same catalog all the same. -/
theorem Config.init_neutral_linked :
  ∃ fs', (init ⟨"."⟩).runIn linked = (.ok ⟨"./.localizerc.json"⟩, fs')
    ∧ (Scan.run fs' ⟨"/home/app"⟩ ["jsx"] []).map (·.files.map (·.relative))
      = .ok ["App.jsx", "Config.jsx"]
    ∧ ({ directory := ⟨"app"⟩, format := some .csv } : ExtractCommand).Shows fs'
      "\"a\",\"\",\"\",\"App.jsx\""
  := by
  have hinit : (init ⟨"."⟩).runIn linked
      = (.ok ⟨"./.localizerc.json"⟩, ((init ⟨"."⟩).runIn linked).2) := by
    apply Prod.ext
    · decide +kernel
    · rfl
  have hrenders : ({ directory := ⟨"app"⟩, format := some .csv } : ExtractCommand).Renders linked
      "\"a\",\"\",\"\",\"App.jsx\"" := by
    refine ⟨["home", "app"], {}, ⟨⟨[{ id := some "a", file := "App.jsx" }]⟩, 1, 0⟩, ?_,
      .nothing ?_, ?_, ?_⟩
    · decide +kernel
    · decide +kernel
    · decide +kernel
    · decide +kernel
  obtain ⟨-, -, -, hneutral⟩ := init_neutral linked ⟨"."⟩
  obtain ⟨-, -, -, hshows⟩ := hneutral _ _ hinit
  refine ⟨_, hinit, by decide +kernel, ?_⟩
  apply hshows _ ["home", "app"] _ rfl (by decide +kernel) (by decide +kernel)
  apply (ExtractCommand.shows_iff rfl).2 hrenders

end Localization

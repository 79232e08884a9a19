import Localization.Proofs.Config.Discovery
import Localization.Proofs.Config.Json
import Localization.Proofs.FileSystem.Creating
import Localization.Proofs.Marker.Surroundings
import Localization.Text.Utf8

/-!
# The default configuration in a new file

A new file with the default configuration can come within sight of any directory below it, and
of others over links.  Where no configuration was found before, the default one was loaded, and
it is loaded still (`exists_load_of_creates`).  The file has no records, if it is taken for a
source (`Record.ofSource_toJson_eq_nil`).
-/

namespace Localization

open FileSystem (Creates)

/-- The default configuration has no records. -/
theorem Record.ofSource_toJson_eq_nil (component : Component) (file : String) :
  ofSource component file (Text.Utf8.decode ({} : Config).toJson.toUTF8) = []
  := by
  rw [ofSource, Marker.findAll_eq_nil_of_notMem, List.map_nil]
  decide +kernel

namespace Config

variable {l : Location} {content : ByteArray} {fs fs' : FileSystem} {start directory file : Path}
  {config : Config} {n : Nat}

/-- A file that holds the JSON of a valid configuration is read as it. -/
theorem readFile_of_read (hr : fs.read file = .ok config.toJson.toUTF8)
    (hv : config.validate = .ok ()) :
  readFile fs file = .ok config
  := by
  apply readFile_eq_ok_iff.2
  refine ⟨config.toJson, .ofConfig config, FileSystem.readText_of_read hr, ?_, ?_, ?_⟩
  · apply draft_ofJson_toJson
  · rw [Draft.complete_ofConfig, hv]
  · apply (Draft.complete_ofConfig config).symm

/-- What is met on the way up was met before. -/
theorem isMet_of_creates (h : Creates l content fs fs') (hmet : IsMet fs' start n directory) :
  IsMet fs start n directory
  := by
  constructor
  · apply hmet.ancestor
  · intro k hk d hd hold
    apply hmet.no_config k hk d hd (h.exists_of_exists hold)
  · intro k hk d hd hold
    apply hmet.no_git k hk d hd (h.exists_of_exists hold)

/-- A configuration that is found only now is in the new file. -/
theorem read_of_find? (h : Creates l content fs fs') (hnone : find? fs start = none)
    (hsome : find? fs' start = some file) :
  fs'.read file = .ok content
  := by
  obtain ⟨n, d, hd, rfl⟩ := find?_eq_some_iff.1 hsome
  apply h.read_eq_content _ hd.exists_config
  intro hold
  exact find?_eq_none_iff.1 hnone n d ⟨isMet_of_creates h hd.toIsMet, hold⟩

/-- Where no configuration was found, the default one is loaded. -/
theorem exists_load_of_creates (h : Creates l ({} : Config).toJson.toUTF8 fs fs')
    (hnone : find? fs start = none) :
  ∃ path, load fs' start = .ok ⟨{}, path⟩
  := by
  rw [load]
  cases hsome : find? fs' start with
  | none => exact ⟨none, rfl⟩
  | some file =>
    use some file
    dsimp only
    rw [readFile_of_read (read_of_find? h hnone hsome) rfl]
    rfl

end Config
end Localization

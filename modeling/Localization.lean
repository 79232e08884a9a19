import Localization.Catalog.Reader
import Localization.Main
import Localization.Proofs.Comment.Absence
import Localization.Proofs.Attribute.Spelling
import Localization.Proofs.Marker.Spelling
import Localization.Proofs.Catalog.Recovery
import Localization.Proofs.Json.Strings
import Localization.Proofs.Json.Objects
import Localization.Proofs.Resolver.KeyValue
import Localization.Proofs.FileSystem.Entries
import Localization.Proofs.Path.Names
import Localization.Proofs.Scan.Considered
import Localization.Proofs.Scan.Ignored
import Localization.Proofs.Scan.Selection
import Localization.Proofs.Schedule
import Localization.Proofs.FileSystem.SameTree
import Localization.Proofs.Scan.SameTree
import Localization.Proofs.Extraction.Schedules
import Localization.Proofs.Marker.Surroundings
import Localization.Proofs.Marker.Reading
import Localization.Proofs.Comment.Blocks
import Localization.Proofs.FileSystem.Writing
import Localization.Proofs.Program.Actions
import Localization.Proofs.Program.Extracting
import Localization.Proofs.Comment.SameCode
import Localization.Proofs.Comment.Scan
import Localization.Proofs.Csv.Reading
import Localization.Proofs.Json.Arrays
import Localization.Proofs.Catalog.Json
import Localization.Proofs.Config.Validation
import Localization.Proofs.Template.Filling
import Localization.Proofs.Config.Discovery
import Localization.Proofs.FileSystem.Paths
import Localization.Proofs.FileSystem.Creating
import Localization.Proofs.Config.Json
import Localization.Proofs.Extraction.Creating
import Localization.Proofs.Config.Creating
import Localization.Proofs.Program.Initializing
import Localization.Proofs.Template.Surroundings
import Localization.Proofs.Marker.Occurrences
import Localization.Proofs.Attribute.First
import Localization.Proofs.Glob.Directories
import Localization.Proofs.Path.SlashForm
import Localization.Proofs.Scan.Exclusion
import Localization.Proofs.Scan.Directories
import Localization.Proofs.Arguments.Reading
import Localization.Proofs.Program.Resolving
import Localization.Proofs.Catalog.Lines
import Localization.Proofs.Command.Spelling
import Localization.Proofs.Json.Numbers
import Localization.Proofs.Json.Spelling
import Localization.Proofs.Json.Trees
import Localization.Proofs.Json.Skipping
import Localization.Proofs.Json.Decoding
import Localization.Proofs.Resolver.Loading
import Localization.Proofs.Config.Decoding
import Localization.Proofs.Path.NormalForm

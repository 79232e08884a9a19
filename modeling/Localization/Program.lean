import Localization.Command
import Localization.Config.Discovery
import Localization.Extraction
import Localization.Report
import Localization.Resolver.Reader

/-!
# The program

An `Action` is done in a file system: it gives a result or fails, and in both cases it leaves a
file system.  `Command.run` carries out a command and gives a summary, and `Command.perform`
reports on it.  `Program.conclude` reads the command from arguments and is what the user sees of
all this, failures included.
-/

namespace Localization

/-- What is done in a file system and may fail. -/
abbrev Action (α : Type) := ExceptT Failure (StateM FileSystem) α

namespace Action

/-- The result of an action, and the file system that it leaves. -/
def runIn {α : Type} (action : Action α) (fs : FileSystem) : Except Failure α × FileSystem :=
  (action.run.run fs).run

/-- Asks a question about the file system. -/
def ask {α : Type} (question : FileSystem → Except Failure α) : Action α :=
  ExceptT.mk (question <$> get)

/-- Makes a path lead to a file with this content. -/
def write (file : Path) (content : String) : Action Unit := do
  match (← get).write file content.toUTF8 with
  | .ok fs => set fs
  | .error fault => throw (.unwritable file fault)

end Action

namespace ExtractCommand

/-- The options of an extraction: what the command says, and otherwise what the configuration
says. -/
def options (c : ExtractCommand) (config : Config) : ExtractionOptions where
  extensions := if c.extensions = [] then config.extensions else c.extensions
  ignores := config.ignores
  component := c.component.getD config.component

/-- Delivers a written catalog. -/
def deliver (c : ExtractCommand) (content : String) : StateM FileSystem Delivery := do
  match c.output with
  | none => return .shown content
  | some file =>
    match ← (Action.write file content).run with
    | .ok () => return .written ((← get).canonical file)
    | .error failure => return .refused failure.fullMessage

/-- Extracts the catalog of a directory and delivers it. -/
def run (c : ExtractCommand) : Action ExtractSummary := do
  let l ← Action.ask fun fs => (fs.resolve c.directory).mapError (.unreachable c.directory)
  let root := FileSystem.pathOf l
  let loaded ← Action.ask (Config.load · root)
  let extraction ← Action.ask (Extraction.run · root (c.options loaded.config))
  let format := c.format.getD loaded.config.format
  let delivery ← c.deliver (extraction.catalog.render format)
  return {
    format
    scanned := extraction.scanned
    ignored := extraction.ignored
    messages := extraction.catalog.size
    missingIds := extraction.catalog.missingIds
    config := loaded.path
    delivery }

end ExtractCommand

/-- Resolves a message. -/
def ResolveCommand.run (c : ResolveCommand) (fs : FileSystem) : Except Failure String := do
  let resolver ←
    match c.messages with
    | some file => Resolver.ofFile fs file
    | none => pure {}
  let resolver := { resolver with defaults := .ofList c.defaultValues }
  return resolver.localize c.id (.ofList c.values) c.defaultMessage

/-- Writes the default configuration into a directory, unless there is a configuration. -/
def Config.init (directory : Path) : Action Path := do
  let file := directory.join fileName
  if (← get).exists file then throw .configExists
  Action.write file ({} : Config).toJson
  return file

/-- Carries out a command. -/
def Command.run : Command → Action Summary
  | .extract c => do return .extracted (← c.run)
  | .resolve c => do return .resolved (← Action.ask c.run)
  | .init => do return .initialized (← Config.init ⟨"."⟩)

/-- The command asks for notes. -/
def Command.isVerbose : Command → Bool
  | .extract c => c.verbose
  | .resolve _ => false
  | .init => false

/-- Carries out a command and reports on it. -/
def Command.perform (colors : Bool) (c : Command) : Action Report := do
  return (← c.run).report c.isVerbose colors

/-- The report on a failure. -/
def Failure.report (f : Failure) : Report where
  stderr := Report.lines ["Error: " ++ f.fullMessage]
  status := .error

/-- What the user sees of a command. -/
def Command.conclude (colors : Bool) (c : Command) : StateM FileSystem Report := do
  match ← (c.perform colors).run with
  | .ok report => return report
  | .error failure => return failure.report

namespace Program

/-- Why the program gives no report. -/
inductive Refusal where
  | usage (fault : Arguments.Fault)
  | failure (failure : Failure)
  deriving DecidableEq, Repr

/-- The name of the program and its version. -/
def version : String :=
  "localize-text 0.1.0"

/-- What the program shows without a command. -/
def help : String :=
  "Extract <LocalizeText> message declarations from JSX sources into a translation catalog

Usage: localize-text [COMMAND]

Commands:
  extract  Extract <LocalizeText> messages from source files
  resolve  Resolve a message id, filling in \x7b\x7b placeholders \x7d\x7d
  init     Initialize a new .localizerc.json configuration file
  help     Print this message or the help of the given subcommand(s)

Options:
  -h, --help     Print help
  -V, --version  Print version
"

/-- The report on arguments that are no command. -/
def usageReport : Arguments.Fault → Report
  | .helpRequested => { stdout := help }
  | .versionRequested => { stdout := Report.lines [version] }
  | fault => { stderr := Report.lines ["error: " ++ fault.description], status := .error }

/-- What the user sees of the program when it is run with arguments. -/
def conclude (colors : Bool) (arguments : List String) : StateM FileSystem Report :=
  match Command.ofArguments arguments with
  | .error fault => return usageReport fault
  | .ok none => return { stdout := help }
  | .ok (some c) => c.conclude colors

/-- Runs the program with arguments, for a caller to whom it matters why there is no report. -/
def run (fs : FileSystem) (colors : Bool) (arguments : List String) :
    Except Refusal (FileSystem × Report) := do
  match ← (Command.ofArguments arguments).mapError .usage with
  | none => return (fs, { stdout := help })
  | some c =>
    let (outcome, fs) := (c.perform colors).runIn fs
    return (fs, ← outcome.mapError .failure)

end Program
end Localization

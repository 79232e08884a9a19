import Localization.Catalog.Format
import Localization.Path
import Localization.Text.Count
import Localization.Text.Segment

/-!
# Reports

A `Summary` says what a command has done.  `Summary.report` tells it to the user: catalogs and
messages on the standard output, notes, warnings and errors on the standard error.  Only a
catalog that could not be written makes the exit status a failure.
-/

namespace Localization

/-! ### Colours -/

/-- How a text stands out. -/
inductive Style where
  | bold
  | green
  | magenta
  | cyan
  | boldRed
  | boldYellow
  deriving DecidableEq, Repr

namespace Style

/-- The control sequence that begins a style. -/
def opening (s : Style) : List Char :=
  ['\x1b', '['] ++ (match s with
    | bold => ['1']
    | green => ['3', '2']
    | magenta => ['3', '5']
    | cyan => ['3', '6']
    | boldRed => ['1', ';', '3', '1']
    | boldYellow => ['1', ';', '3', '3']) ++ ['m']

/-- The control sequence that ends every style. -/
def closing : List Char :=
  ['\x1b', '[', '0', 'm']

/-- A text in a style, where there are colours.  Where the text itself ends a style, this style
begins again. -/
def paint (s : Style) (colors : Bool) (text : String) : String :=
  if colors then
    let isClosing : Text.Matcher := fun _ cs =>
      if closing.isPrefixOf cs then some closing.length else none
    let reopened := (Text.cut isClosing text.toList).flatMap fun
      | .plain c => [c]
      | .hit cs => cs ++ s.opening
    .ofList (s.opening ++ reopened ++ closing)
  else text

end Style

/-! ### Summaries -/

/-- Where a catalog went. -/
inductive Delivery where
  /-- To the standard output. -/
  | shown (content : String)
  /-- To a file. -/
  | written (file : Path)
  /-- Nowhere: the file could not be written. -/
  | refused (reason : String)
  deriving DecidableEq, Repr

/-- What an extraction has done. -/
structure ExtractSummary where
  format : Format
  scanned : Nat
  ignored : Nat
  messages : Nat
  missingIds : Nat
  config : Option Path
  delivery : Delivery
  deriving DecidableEq, Repr

/-- What a command has done. -/
inductive Summary where
  | extracted (s : ExtractSummary)
  | resolved (text : String)
  | initialized (file : Path)
  deriving DecidableEq, Repr

/-- How a program ends. -/
inductive ExitStatus where
  /-- The output was delivered. -/
  | success
  /-- The output could not be delivered. -/
  | failure
  /-- There was nothing to deliver. -/
  | error
  deriving DecidableEq, Repr

/-- The number of an exit status. -/
def ExitStatus.code : ExitStatus → Nat
  | success => 0
  | failure => 1
  | error => 2

/-- What the user sees. -/
structure Report where
  stdout : String := ""
  stderr : String := ""
  status : ExitStatus := .success
  deriving DecidableEq, Repr

/-! ### Telling -/

/-- Lines, each with its line break. -/
def Report.lines (texts : List String) : String :=
  String.join (texts.map (· ++ "\n"))

/-- The line that tells of a file. -/
def Report.fileLine (colors : Bool) (text : String) (file : Path) : String :=
  Style.green.paint colors "✓" ++ " " ++ Style.green.paint colors text ++ " "
    ++ Style.magenta.paint colors file.text

namespace ExtractSummary

/-- The note on the configuration. -/
def configNote (s : ExtractSummary) : String :=
  match s.config with
  | some file => "Using config " ++ file.text
  | none => "No .localizerc.json found, using default configuration"

/-- The note on what was found. -/
def countsNote (s : ExtractSummary) (colors : Bool) : String :=
  "Scanned " ++ Text.counted s.scanned "file" "files" ++ " (" ++ s.ignored.repr
    ++ " ignored), found " ++ Text.counted s.messages "message" "messages"
    ++ ", rendering as " ++ Style.cyan.paint colors s.format.name

/-- The messages of a key-value catalog without an id share one key, and so at most one of them
is kept. -/
def sharesKey (s : ExtractSummary) : Bool :=
  s.format = .keyValue ∧ 0 < s.missingIds

/-- The lines of a verbose report. -/
def notes (s : ExtractSummary) (colors : Bool) : List String :=
  let note := Style.bold.paint colors "note:"
  [note ++ " " ++ s.configNote, note ++ " " ++ s.countsNote colors]
    ++ if s.sharesKey then
        [Style.boldYellow.paint colors "warning:" ++ " "
          ++ Text.counted s.missingIds "message" "messages"
          ++ " without an id stored under the \"" ++ Catalog.missingIdKey ++ "\" key"]
      else []

/-- The report on an extraction. -/
def report (s : ExtractSummary) (verbose colors : Bool) : Report :=
  let notes := if verbose then s.notes colors else []
  match s.delivery with
  | .shown content => { stdout := Report.lines [content], stderr := Report.lines notes }
  | .written file => {
      stdout := Report.lines [Report.fileLine colors "Messages written to" file]
      stderr := Report.lines notes }
  | .refused reason => {
      stderr := Report.lines (notes ++ [Style.boldRed.paint colors "error:" ++ " " ++ reason])
      status := .failure }

end ExtractSummary

/-- The report on a command. -/
def Summary.report (verbose colors : Bool) : Summary → Report
  | .extracted s => s.report verbose colors
  | .resolved text => { stdout := Report.lines [text] }
  | .initialized file => { stdout := Report.lines [Report.fileLine colors "Created" file] }

end Localization

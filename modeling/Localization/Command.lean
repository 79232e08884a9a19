import Localization.Arguments
import Localization.Catalog.Format
import Localization.Path
import Localization.Text.Blank

/-!
# Commands

`Command.ofArguments` reads a `Command` from the arguments of the program: `extract`, `resolve`
or `init` with the arguments of that command, or no command at all.
-/

namespace Localization

/-- What to extract and where to write it. -/
structure ExtractCommand where
  directory : Path
  format : Option Format := none
  output : Option Path := none
  extensions : List String := []
  component : Option String := none
  verbose : Bool := false
  deriving DecidableEq, Repr

/-- Which message to resolve, and from what. -/
structure ResolveCommand where
  id : String
  messages : Option Path := none
  values : List (String × String) := []
  defaultValues : List (String × String) := []
  defaultMessage : Option String := none
  deriving DecidableEq, Repr

/-- What the program is asked to do. -/
inductive Command where
  | extract (c : ExtractCommand)
  | resolve (c : ResolveCommand)
  | init
  deriving DecidableEq, Repr

namespace Command

open Arguments (Fault Grammar)

/-! ### Values -/

/-- Refuses a value for a field that has one. -/
def once {α : Type} (old : Option α) : Except Fault Unit :=
  if old.isSome then .error .repeated else .ok ()

/-- The value is the name of a format. -/
def formatValue (value : String) : Except Fault Format :=
  match Format.ofName? value with
  | some format => .ok format
  | none => .error .badValue

/-- The value is a path, and so not empty. -/
def pathValue (value : String) : Except Fault Path :=
  if value = "" then .error .badValue else .ok ⟨value⟩

/-- The name and the replacement in a text `NAME=VALUE`.  The name is what stands before the
first `=`, without the blanks around it, and may not be empty. -/
def replacementValue (value : String) : Except Fault (String × String) :=
  let name := Text.trim (value.toList.takeWhile (· != '='))
  match value.toList.dropWhile (· != '='), name with
  | _ :: replacement, c :: cs => .ok (.ofList (c :: cs), .ofList replacement)
  | _, _ => .error (.badReplacement value)

/-! ### Extraction -/

/-- The switches and operands of `extract`. -/
inductive ExtractSwitch where
  | help
  | verbose
  | format
  | output
  | extension
  | component
  | directory
  deriving DecidableEq, Repr

/-- An `extract` command that may lack its directory. -/
structure ExtractDraft where
  directory : Option Path := none
  format : Option Format := none
  output : Option Path := none
  extensions : List String := []
  component : Option String := none
  verbose : Bool := false

/-- The arguments of `extract`. -/
def extractGrammar : Grammar ExtractSwitch ExtractDraft where
  long?
    | "help" => some .help
    | "verbose" => some .verbose
    | "format" => some .format
    | "output" => some .output
    | "extension" => some .extension
    | "component" => some .component
    | _ => none
  short?
    | 'h' => some .help
    | 'v' => some .verbose
    | 'f' => some .format
    | 'o' => some .output
    | 'e' => some .extension
    | _ => none
  takesValue i := i ≠ .help ∧ i ≠ .verbose
  operand?
    | 0 => some .directory
    | _ => none
  accept
    | .help, _, _ => .error .helpRequested
    | .verbose, _, d => if d.verbose then .error .repeated else .ok { d with verbose := true }
    | .format, value, d => do
      once d.format
      return { d with format := some (← formatValue value) }
    | .output, value, d => do
      once d.output
      return { d with output := some (← pathValue value) }
    | .extension, value, d => .ok { d with extensions := d.extensions ++ [value] }
    | .component, value, d => do
      once d.component
      return { d with component := some value }
    | .directory, value, d => do return { d with directory := some (← pathValue value) }

/-- Reads an `extract` command. -/
def readExtract (arguments : List String) : Except Fault ExtractCommand := do
  let d ← extractGrammar.read {} arguments
  match d.directory with
  | none => throw .missingOperand
  | some directory => return { d with directory }

/-! ### Resolution -/

/-- The switches and operands of `resolve`. -/
inductive ResolveSwitch where
  | help
  | messages
  | value
  | defaultValue
  | defaultMessage
  | id
  deriving DecidableEq, Repr

/-- A `resolve` command that may lack its id. -/
structure ResolveDraft where
  id : Option String := none
  messages : Option Path := none
  values : List (String × String) := []
  defaultValues : List (String × String) := []
  defaultMessage : Option String := none

/-- The arguments of `resolve`. -/
def resolveGrammar : Grammar ResolveSwitch ResolveDraft where
  long?
    | "help" => some .help
    | "messages" => some .messages
    | "value" => some .value
    | "default-value" => some .defaultValue
    | "default" => some .defaultMessage
    | _ => none
  short?
    | 'h' => some .help
    | 'm' => some .messages
    | 'd' => some .defaultMessage
    | _ => none
  takesValue i := i ≠ .help
  operand?
    | 0 => some .id
    | _ => none
  accept
    | .help, _, _ => .error .helpRequested
    | .messages, value, d => do
      once d.messages
      return { d with messages := some (← pathValue value) }
    | .value, value, d => do return { d with values := d.values ++ [← replacementValue value] }
    | .defaultValue, value, d => do
      return { d with defaultValues := d.defaultValues ++ [← replacementValue value] }
    | .defaultMessage, value, d => do
      once d.defaultMessage
      return { d with defaultMessage := some value }
    | .id, value, d => .ok { d with id := some value }

/-- Reads a `resolve` command. -/
def readResolve (arguments : List String) : Except Fault ResolveCommand := do
  let d ← resolveGrammar.read {} arguments
  match d.id with
  | none => throw .missingOperand
  | some id => return { d with id }

/-! ### The program -/

/-- The arguments of `init`: there are none. -/
def initGrammar : Grammar Unit Unit where
  long? name := if name = "help" then some () else none
  short? c := if c = 'h' then some () else none
  takesValue _ := false
  operand? _ := none
  accept _ _ _ := .error .helpRequested

/-- The switches of the program itself. -/
inductive ProgramSwitch where
  | help
  | version
  deriving DecidableEq, Repr

/-- The switches before a command. -/
def programGrammar : Grammar ProgramSwitch Unit where
  long?
    | "help" => some .help
    | "version" => some .version
    | _ => none
  short?
    | 'h' => some .help
    | 'V' => some .version
    | _ => none
  takesValue _ := false
  operand? _ := none
  accept
    | .help, _, _ => .error .helpRequested
    | .version, _, _ => .error .versionRequested

/-- The names of the commands, that of `help` included. -/
def subcommands : List String :=
  ["extract", "resolve", "init", "help"]

/-- What `help` answers: it knows the commands of the program, and they have none of their
own. -/
def helpFault : List String → Fault
  | [] => .helpRequested
  | [name] => if name ∈ subcommands then .helpRequested else .unknownSubcommand
  | _ => .unknownSubcommand

/-- The argument looks like a switch: it is longer than its leading `-`. -/
def isSwitch (argument : String) : Bool :=
  argument.toList.head? == some '-' && argument != "-"

/-- Reads the command of the program.  After `--` there can be no command. -/
def ofArguments : List String → Except Fault (Option Command)
  | [] => .ok none
  | "extract" :: arguments => do return some (.extract (← readExtract arguments))
  | "resolve" :: arguments => do return some (.resolve (← readResolve arguments))
  | "init" :: arguments => do
    initGrammar.read () arguments
    return some .init
  | "help" :: arguments => .error (helpFault arguments)
  | ["--"] => .ok none
  | "--" :: name :: _ =>
    .error (if name ∈ subcommands then .unknownArgument else .unknownSubcommand)
  | argument :: arguments =>
    if isSwitch argument then do
      let _ ← programGrammar.step { draft := () } argument
      ofArguments arguments
    else .error .unknownSubcommand

end Command
end Localization

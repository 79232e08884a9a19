/-!
# Reading command-line arguments

A `Grammar` describes the switches and the operands of a command.  `Grammar.read` goes through
the arguments from left to right.  A switch is written `--name` or `-n`; its value is attached
(`--name=value`, `-nvalue`, `-n=value`) or is the next argument, which then may not itself look
like a switch.  Short switches without a value may be clustered.  After `--` all arguments are
operands.

A value counts only when the reader goes on to the next switch or operand, or comes to the end:
until then it is pending, and `settle` makes it count.
-/

namespace Localization.Arguments

/-- Why the arguments are not a command. -/
inductive Fault where
  | helpRequested
  | versionRequested
  | unknownSubcommand
  | missingOperand
  /-- An unknown switch, or one operand too many. -/
  | unknownArgument
  /-- A switch without its value, or a value that is not one of the possible values. -/
  | badValue
  /-- A switch is given twice that may be given once. -/
  | repeated
  /-- A value is attached to a switch that takes none. -/
  | unwantedValue
  /-- A replacement is not of the form `NAME=VALUE`. -/
  | badReplacement (raw : String)
  deriving DecidableEq, Repr

/-- The message of a fault, where the fault has one of its own. -/
def Fault.message : Fault → String
  | badReplacement raw => "expected NAME=VALUE, got \"" ++ raw ++ "\""
  | _ => ""

/-- What is wrong with the arguments. -/
def Fault.description : Fault → String
  | helpRequested => "help was asked for"
  | versionRequested => "the version was asked for"
  | unknownSubcommand => "there is no such command"
  | missingOperand => "an argument that is required is missing"
  | unknownArgument => "unexpected argument"
  | badValue => "a value is missing or not possible"
  | repeated => "an option was given more than once"
  | unwantedValue => "an option was given a value that it does not take"
  | f => f.message

/-- The switches `ι` of a command and the command `δ` that is read. -/
structure Grammar (ι δ : Type) where
  long? : String → Option ι
  short? : Char → Option ι
  takesValue : ι → Bool
  /-- The operand at a position. -/
  operand? : Nat → Option ι
  /-- What becomes of the command when a switch or an operand is given with a value.  A switch
  that takes none is given with the empty text. -/
  accept : ι → String → δ → Except Fault δ

/-- How far the arguments have been read. -/
structure State (ι δ : Type) where
  draft : δ
  /-- The switch or operand that does not count yet, with its value if it has one. -/
  pending : Option (ι × Option String) := none
  /-- The number of operands so far. -/
  operands : Nat := 0
  /-- The argument `--` has been read. -/
  ended : Bool := false

namespace Grammar

variable {ι δ : Type}

/-- Makes what is pending count. -/
def settle (g : Grammar ι δ) (s : State ι δ) : Except Fault (State ι δ) :=
  match s.pending with
  | none => .ok s
  | some (_, none) => .error .badValue
  | some (i, some value) => do
    return { s with draft := ← g.accept i value s.draft, pending := none }

/-- Reads a switch with the value attached to it, if one is. -/
def readSwitch (g : Grammar ι δ) (i : ι) (attached : Option String) (s : State ι δ) :
    Except Fault (State ι δ) :=
  if g.takesValue i then do
    let s ← g.settle s
    match attached with
    | some value => return { s with draft := ← g.accept i value s.draft }
    | none => return { s with pending := some (i, none) }
  else
    match attached with
    | some _ => .error .unwantedValue
    | none => do
      let s ← g.settle s
      return { s with draft := ← g.accept i "" s.draft }

/-- The value that the characters after a short switch attach to it. -/
def attachedValue? : List Char → Option String
  | [] => none
  | '=' :: cs => some (.ofList cs)
  | cs => some (.ofList cs)

/-- Reads a cluster of short switches.  One that takes a value ends the cluster. -/
def readCluster (g : Grammar ι δ) : List Char → State ι δ → Except Fault (State ι δ)
  | [], s => .ok s
  | c :: cs, s =>
    match g.short? c with
    | none => .error .unknownArgument
    | some i =>
      if g.takesValue i then g.readSwitch i (attachedValue? cs) s
      else do
        let s ← g.readSwitch i none s
        g.readCluster cs s

/-- Reads a long switch, whose text after `--` is given. -/
def readLong (g : Grammar ι δ) (text : List Char) (s : State ι δ) : Except Fault (State ι δ) :=
  match g.long? (.ofList (text.takeWhile (· != '='))) with
  | none => .error .unknownArgument
  | some i =>
    match text.dropWhile (· != '=') with
    | [] => g.readSwitch i none s
    | _ :: value => g.readSwitch i (some (.ofList value)) s

/-- Reads an operand. -/
def readOperand (g : Grammar ι δ) (value : String) (s : State ι δ) : Except Fault (State ι δ) :=
  match g.operand? s.operands with
  | none => .error .unknownArgument
  | some i => do
    let s ← g.settle s
    return { s with pending := some (i, some value), operands := s.operands + 1 }

/-- Reads an argument that does not look like a switch: the value of a pending switch, or an
operand. -/
def readPlain (g : Grammar ι δ) (value : String) (s : State ι δ) : Except Fault (State ι δ) :=
  match s.pending with
  | some (i, none) => .ok { s with pending := some (i, some value) }
  | _ => g.readOperand value s

/-- Reads one argument. -/
def step (g : Grammar ι δ) (s : State ι δ) (argument : String) : Except Fault (State ι δ) :=
  if s.ended then g.readOperand argument s
  else
    match argument.toList with
    | ['-', '-'] => .ok { s with ended := true }
    | '-' :: '-' :: cs => g.readLong cs s
    | '-' :: c :: cs => g.readCluster (c :: cs) s
    | _ => g.readPlain argument s

/-- Reads all arguments into a command that starts as `start`. -/
def read (g : Grammar ι δ) (start : δ) (arguments : List String) : Except Fault δ := do
  let s ← arguments.foldlM g.step { draft := start }
  let s ← g.settle s
  return s.draft

end Grammar
end Localization.Arguments

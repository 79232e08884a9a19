/-!
# Glob patterns

A `Glob` is a compiled pattern.  `*` stands for any text, `?` for any character, `[...]` for one
of some characters, and `**` between separators for any number of whole directories.
`Glob.compile` refuses a misplaced wildcard and an unclosed bracket, with the place of the fault
in the pattern.  `Glob.accepts` holds of the texts that the whole pattern describes, and
`accepts_eq_describes` says what that means token by token.
-/

namespace Localization

namespace Glob

/-- A member of a bracket: a character, or all characters from one to another. -/
inductive Member where
  | single (c : Char)
  | range (first last : Char)
  deriving DecidableEq, Repr

/-- The character belongs to the member. -/
def Member.contains : Member → Char → Bool
  | single d, c => c == d
  | range first last, c => first ≤ c && c ≤ last

/-- A step of a pattern. -/
inductive Token where
  /-- This character. -/
  | char (c : Char)
  /-- Any one character. -/
  | any
  /-- Any text. -/
  | sequence
  /-- Any number of whole directories. -/
  | directories
  /-- One character of the bracket. -/
  | oneOf (members : List Member)
  /-- One character outside the bracket. -/
  | noneOf (members : List Member)
  deriving DecidableEq, Repr

/-- What is wrong at a place of a pattern. -/
inductive Misuse where
  /-- Three wildcards `*` or more in a row. -/
  | wildcards
  /-- A `**` that is not a whole component. -/
  | recursion
  /-- A bracket that is not closed. -/
  | bracket
  deriving DecidableEq, Repr

/-- The place of a misuse, counted in characters, and what it is. -/
structure Fault where
  position : Nat
  misuse : Misuse
  deriving DecidableEq, Repr

/-- The text of a misuse. -/
def Misuse.message : Misuse → String
  | wildcards => "wildcards are either regular `*` or recursive `**`"
  | recursion => "recursive wildcards must form a single path component"
  | bracket => "invalid range pattern"

/-- The text of a fault. -/
def Fault.message (f : Fault) : String :=
  "Pattern syntax error near position " ++ f.position.repr ++ ": " ++ f.misuse.message

/-! ### Compilation -/

/-- The members of a bracket: wherever three characters with `-` in the middle stand, a range,
and otherwise single characters. -/
def members : List Char → List Member
  | first :: '-' :: last :: cs => .range first last :: members cs
  | c :: cs => .single c :: members cs
  | [] => []

/-- The characters of a bracket up to its closing `]`.  A `]` at the very start does not close
it. -/
def bracketBody? : List Char → Option (List Char)
  | [] => none
  | c :: cs => if ']' ∈ cs then some (c :: cs.takeWhile (· != ']')) else none

/-- The token that begins with `c`, and how many of the characters `cs` after it belong to it.
The place of `c` and the character before it are given. -/
def tokenAt (position : Nat) (before : Option Char) (c : Char) (cs : List Char) :
    Except Fault (Token × Nat) :=
  match c with
  | '?' => .ok (.any, 0)
  | '*' =>
    match (cs.takeWhile (· == '*')).length with
    | 0 => .ok (.sequence, 0)
    | 1 =>
      if before = none ∨ before = some '/' then
        match cs.drop 1 with
        | [] => .ok (.directories, 1)
        | '/' :: _ => .ok (.directories, 2)
        | _ => .error ⟨position + 2, .recursion⟩
      else .error ⟨position - 1, .recursion⟩
    | _ => .error ⟨position + 2, .wildcards⟩
  | '[' =>
    match cs with
    | '!' :: rest =>
      match bracketBody? rest with
      | some body => .ok (.noneOf (members body), body.length + 2)
      | none => .error ⟨position, .bracket⟩
    | rest =>
      match bracketBody? rest with
      | some body => .ok (.oneOf (members body), body.length + 1)
      | none => .error ⟨position, .bracket⟩
  | c => .ok (.char c, 0)

/-- The tokens of the rest of a pattern, whose first `skip` characters belong to a token that has
already been read. -/
def tokensFrom : (position : Nat) → (before : Option Char) → (skip : Nat) → List Char →
    Except Fault (List Token)
  | _, _, _, [] => .ok []
  | position, _, skip + 1, c :: cs => tokensFrom (position + 1) (some c) skip cs
  | position, before, 0, c :: cs => do
    let (token, more) ← tokenAt position before c cs
    let tokens ← tokensFrom (position + 1) (some c) more cs
    return token :: tokens

end Glob

/-- A compiled pattern. -/
structure Glob where
  tokens : List Glob.Token
  deriving DecidableEq, Repr

namespace Glob

/-- The pattern of a text. -/
def compile (pattern : String) : Except Fault Glob :=
  (tokensFrom 0 none 0 pattern.toList).map Glob.mk

/-- The text holds a wildcard, and so is meant as a pattern. -/
def hasWildcard (pattern : String) : Bool :=
  pattern.toList.any fun c => c == '*' || c == '?'

/-! ### Matching -/

/-- The first character satisfies `p` and the rest satisfies `q`. -/
def headAnd (p : Char → Bool) (q : List Char → Bool) : List Char → Bool
  | [] => false
  | c :: cs => p c && q cs

/-- The text or something that is left when characters are taken from its front satisfies `p`. -/
def anyTail (p : List Char → Bool) : List Char → Bool
  | [] => p []
  | c :: cs => p (c :: cs) || anyTail p cs

/-- The tokens describe the whole text.  What follows a `**` describes the text itself, or what
follows one of its separators, or the empty text. -/
def describes : List Token → List Char → Bool
  | [] => List.isEmpty
  | .char c :: ts => headAnd (· == c) (describes ts)
  | .any :: ts => headAnd (fun _ => true) (describes ts)
  | .oneOf ms :: ts => headAnd (fun c => ms.any (·.contains c)) (describes ts)
  | .noneOf ms :: ts => headAnd (fun c => !ms.any (·.contains c)) (describes ts)
  | .sequence :: ts => anyTail (describes ts)
  | .directories :: ts => fun text =>
    describes ts text || anyTail (headAnd (· == '/') (describes ts)) text || describes ts []

/-! ### Matching in rows

To try every split of a text at every wildcard would take too long.  A row is the values of a
predicate at the text and at each of its tails, and the row of a token is found from the row of
what follows it in one pass. -/

/-- The values of `p` at a text and at each of its tails, down to the empty one. -/
def row (p : List Char → Bool) : List Char → List Bool
  | [] => [p []]
  | c :: cs => p (c :: cs) :: row p cs

/-- The row of `headAnd p q` from the row of `q`. -/
def headRow (p : Char → Bool) : List Char → List Bool → List Bool
  | c :: cs, _ :: later => (p c && later.headD false) :: headRow p cs later
  | _, _ => [false]

/-- The row of `anyTail p` from the row of `p`. -/
def anyRow : List Bool → List Bool
  | [] => []
  | b :: later =>
    let rest := anyRow later
    (b || rest.headD false) :: rest

/-- The row of a token and of what follows it, from the row of what follows it. -/
def tokenRow (text : List Char) (token : Token) (next : List Bool) : List Bool :=
  match token with
  | .char c => headRow (· == c) text next
  | .any => headRow (fun _ => true) text next
  | .oneOf ms => headRow (fun c => ms.any (·.contains c)) text next
  | .noneOf ms => headRow (fun c => !ms.any (·.contains c)) text next
  | .sequence => anyRow next
  | .directories =>
    let last := next.getLastD false
    List.zipWith (fun here later => here || later || last) next
      (anyRow (headRow (· == '/') text next))

/-- The row of tokens. -/
def tokensRow (tokens : List Token) (text : List Char) : List Bool :=
  tokens.foldr (tokenRow text) (row List.isEmpty text)

/-- The pattern describes the whole text. -/
def accepts (glob : Glob) (text : String) : Bool :=
  (tokensRow glob.tokens text.toList).headD false

private theorem row_headD (p : List Char → Bool) (text : List Char) (b : Bool) :
  (row p text).headD b = p text
  := by
  cases text <;> rfl

private theorem row_getLastD (p : List Char → Bool) (text : List Char) (b : Bool) :
  (row p text).getLastD b = p []
  := by
  induction text generalizing b with
  | nil => rfl
  | cons c cs ih => rw [row, List.getLastD_cons, ih]

private theorem headRow_row (p : Char → Bool) (q : List Char → Bool) (text : List Char) :
  headRow p text (row q text) = row (headAnd p q) text
  := by
  induction text with
  | nil => rfl
  | cons c cs ih => rw [row, headRow, ih, row_headD, row, headAnd]

private theorem anyRow_row (p : List Char → Bool) (text : List Char) :
  anyRow (row p text) = row (anyTail p) text
  := by
  induction text with
  | nil => simp [row, anyRow, anyTail]
  | cons c cs ih => simp only [row, anyRow, ih, row_headD, anyTail]

private theorem zipWith_row (f : Bool → Bool → Bool) (p q : List Char → Bool)
    (text : List Char) :
  List.zipWith f (row p text) (row q text) = row (fun t => f (p t) (q t)) text
  := by
  induction text with
  | nil => rfl
  | cons c cs ih => rw [row, row, List.zipWith_cons_cons, ih, row]

/-- The row of tokens is the values of `describes` at the text and at each of its tails. -/
theorem tokensRow_eq (tokens : List Token) (text : List Char) :
  tokensRow tokens text = row (describes tokens) text
  := by
  induction tokens with
  | nil => rfl
  | cons token ts ih =>
    rw [tokensRow, List.foldr_cons, ← tokensRow, ih]
    cases token <;>
      simp only [tokenRow, describes, headRow_row, anyRow_row, zipWith_row, row_getLastD]

/-- A pattern accepts the texts that its tokens describe. -/
theorem accepts_eq_describes (glob : Glob) (text : String) :
  glob.accepts text = describes glob.tokens text.toList
  := by
  rw [accepts, tokensRow_eq, row_headD]

end Glob
end Localization

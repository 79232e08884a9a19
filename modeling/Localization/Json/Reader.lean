import Localization.Json.Number

/-!
# Reading JSON

A `Json.Reader` reads a value of a given form at the start of a text and returns the rest of the
text.  It stops at the first fault it meets, and the fault says whether the text ended, was not
JSON, or was not of the form that is due.  `string`, `string?`, `array` and `object` read values
that are kept; `skipValue` reads any value at all and keeps nothing; `document` reads a whole
text.
-/

namespace Localization.Json

/-- Reads a value at the start of a text. -/
abbrev Reader (α : Type) := List Char → Except Fault (α × List Char)

/-- The characters that may stand between tokens. -/
def isSpace (c : Char) : Bool :=
  c == ' ' || c == '\t' || c == '\n' || c == '\r'

/-- The text from its first token on. -/
def skipSpace (text : List Char) : List Char :=
  text.dropWhile isSpace

/-- The rest of a text after a word that has to stand at its start. -/
def word : (letters : List Char) → List Char → Except Fault (List Char)
  | [], text => .ok text
  | _ :: _, [] => .error .truncated
  | l :: ls, c :: cs => if c = l then word ls cs else .error .malformed

/-! ### Strings -/

/-- The value of a hexadecimal digit. -/
def hexValue? (c : Char) : Option Nat :=
  if c.isDigit then some (c.toNat - '0'.toNat)
  else if 'a' ≤ c ∧ c ≤ 'f' then some (c.toNat - 'a'.toNat + 10)
  else if 'A' ≤ c ∧ c ≤ 'F' then some (c.toNat - 'A'.toNat + 10)
  else none

/-- The number that four hexadecimal digits stand for.  A text of fewer than four bytes has
ended too early. -/
def hexNumber (text : List Char) : Except Fault Nat :=
  if (String.ofList (text.take 4)).utf8ByteSize < 4 then .error .truncated
  else
    match (text.take 4).mapM hexValue? with
    | some ds => .ok (ds.foldl (fun n d => n * 16 + d) 0)
    | none => .error .malformed

/-- The number is a leading surrogate. -/
def isLeading (n : Nat) : Bool :=
  0xd800 ≤ n && n ≤ 0xdbff

/-- The number is a trailing surrogate. -/
def isTrailing (n : Nat) : Bool :=
  0xdc00 ≤ n && n ≤ 0xdfff

/-- The character that a letter stands for after a backslash. -/
def shortEscape? : Char → Option Char
  | '"' => some '"'
  | '\\' => some '\\'
  | '/' => some '/'
  | 'b' => some '\x08'
  | 'f' => some '\x0c'
  | 'n' => some '\n'
  | 'r' => some '\r'
  | 't' => some '\t'
  | _ => none

/-- The trailing surrogate that has to follow a leading one. -/
def trailing (text : List Char) : Except Fault Nat :=
  match text with
  | [] => .error .truncated
  | '\\' :: [] => .error .truncated
  | '\\' :: 'u' :: rest => do
    let n ← hexNumber rest
    if isTrailing n then return n else .error .malformed
  | _ => .error .malformed

/-- The character of the escape whose text after the backslash is given, and the length of that
text. -/
def escaped (text : List Char) : Except Fault (Char × Nat) :=
  match text with
  | [] => .error .truncated
  | 'u' :: rest => do
    let n ← hexNumber rest
    if isTrailing n then .error .malformed
    else if isLeading n then
      let m ← trailing (rest.drop 4)
      return (Char.ofNat (0x10000 + (n - 0xd800) * 0x400 + (m - 0xdc00)), 11)
    else return (Char.ofNat n, 5)
  | c :: _ =>
    match shortEscape? c with
    | some d => .ok (d, 1)
    | none => .error .malformed

/-- The characters of a string up to its closing quote, and the rest of the text.  The first
`skip` characters belong to an escape that has already been read. -/
def stringFrom : (skip : Nat) → Reader (List Char)
  | _, [] => .error .truncated
  | skip + 1, _ :: cs => stringFrom skip cs
  | 0, c :: cs =>
    if c = '"' then .ok ([], cs)
    else if c.toNat < 0x20 then .error .malformed
    else if c = '\\' then do
      let (d, n) ← escaped cs
      let (ds, rest) ← stringFrom n cs
      return (d :: ds, rest)
    else do
      let (ds, rest) ← stringFrom 0 cs
      return (c :: ds, rest)

/-- The rest of the text after the opening quote of a string: the string is read. -/
def stringBody : Reader String := fun text => do
  let (cs, rest) ← stringFrom 0 text
  return (.ofList cs, rest)

/-- The length of the escape whose text after the backslash is given, whatever character it
stands for. -/
def escapeLength (text : List Char) : Except Fault Nat :=
  match text with
  | [] => .error .truncated
  | 'u' :: rest => do
    let _ ← hexNumber rest
    return 5
  | c :: _ => if (shortEscape? c).isSome then .ok 1 else .error .malformed

/-- The rest of the text after the closing quote of a string. -/
def skipStringFrom : (skip : Nat) → List Char → Except Fault (List Char)
  | _, [] => .error .truncated
  | skip + 1, _ :: cs => skipStringFrom skip cs
  | 0, c :: cs =>
    if c = '"' then .ok cs
    else if c.toNat < 0x20 then .error .malformed
    else if c = '\\' then do
      let n ← escapeLength cs
      skipStringFrom n cs
    else skipStringFrom 0 cs

/-! ### Values of the wrong form -/

/-- The fault of a value, at the start of the text, that is not of the form that is due.  A
scalar is read in full first, and a fault inside it counts before its form. -/
def misfit (text : List Char) : Fault :=
  let after {α : Type} : Except Fault α → Fault
    | .ok _ => .mistyped
    | .error fault => fault
  match text with
  | [] => .truncated
  | 'n' :: cs => after (word ['u', 'l', 'l'] cs)
  | 't' :: cs => after (word ['r', 'u', 'e'] cs)
  | 'f' :: cs => after (word ['a', 'l', 's', 'e'] cs)
  | '"' :: cs => after (stringBody cs)
  | '[' :: _ | '{' :: _ => .mistyped
  | c :: cs =>
    if c = '-' ∨ c.isDigit then
      match Number.scan (c :: cs) with
      | .ok (m, _) => if m.overflows then .malformed else .mistyped
      | .error fault => fault
    else .malformed

/-- Reads a string. -/
def string : Reader String := fun text =>
  match skipSpace text with
  | '"' :: cs => stringBody cs
  | cs => .error (misfit cs)

/-- Reads a string or `null`. -/
def string? : Reader (Option String) := fun text =>
  match skipSpace text with
  | 'n' :: cs => do
    let rest ← word ['u', 'l', 'l'] cs
    return (none, rest)
  | cs => do
    let (s, rest) ← string cs
    return (some s, rest)

/-- Reads `null`. -/
def null : Reader Unit := fun text =>
  match skipSpace text with
  | 'n' :: cs => do
    return ((), ← word ['u', 'l', 'l'] cs)
  | cs => .error (misfit cs)

/-! ### Arrays -/

/-- The text of the next item of an array, or none when the array ends there; `first` holds of
the first item, which no comma separates from the bracket. -/
def nextItem (first : Bool) (text : List Char) : Except Fault (Option (List Char)) :=
  match skipSpace text with
  | [] => .error .truncated
  | ']' :: _ => .ok none
  | c :: cs =>
    if first then .ok (some (c :: cs))
    else if c = ',' then
      match skipSpace cs with
      | [] => .error .truncated
      | ']' :: _ => .error .malformed
      | rest => .ok (some rest)
    else .error .malformed

/-- The rest of the text after the bracket that closes an array. -/
def endItems (text : List Char) : Except Fault (List Char) :=
  match skipSpace text with
  | [] => .error .truncated
  | ']' :: rest => .ok rest
  | _ => .error .malformed

/-- Reads the next item of an array, if there is one. -/
def item? {α : Type} (read : Reader α) (first : Bool) : Reader (Option α) := fun text => do
  match ← nextItem first text with
  | none => return (none, text)
  | some rest =>
    let (a, rest) ← read rest
    return (some a, rest)

/-- Reads the items of an array, and its closing bracket.  Each item takes one unit of fuel. -/
def itemsFrom {α : Type} (read : Reader α) : (fuel : Nat) → (first : Bool) → Reader (List α)
  | 0, _, _ => .error .truncated
  | fuel + 1, first, text => do
    match ← item? read first text with
    | (none, rest) => return ([], ← endItems rest)
    | (some a, rest) =>
      let (as, rest) ← itemsFrom read fuel false rest
      return (a :: as, rest)

/-- Reads an array of items. -/
def array {α : Type} (read : Reader α) : Reader (List α) := fun text =>
  match skipSpace text with
  | '[' :: cs => itemsFrom read (cs.length + 1) true cs
  | cs => .error (misfit cs)

/-! ### Objects -/

/-- The rest of the text after the colon of a member. -/
def colon (text : List Char) : Except Fault (List Char) :=
  match skipSpace text with
  | [] => .error .truncated
  | ':' :: rest => .ok rest
  | _ => .error .malformed

/-- The text after the opening quote of the next key of an object, or none when the object ends
there; `first` holds of the first member, which no comma separates from the bracket. -/
def nextKey (first : Bool) (text : List Char) : Except Fault (Option (List Char)) :=
  match skipSpace text with
  | [] => .error .truncated
  | '}' :: _ => .ok none
  | '"' :: cs => if first then .ok (some cs) else .error .malformed
  | ',' :: cs =>
    if first then .error .malformed
    else
      match skipSpace cs with
      | [] => .error .truncated
      | '"' :: rest => .ok (some rest)
      | _ => .error .malformed
  | _ => .error .malformed

/-- The rest of the text after the bracket that closes an object. -/
def endMembers (text : List Char) : Except Fault (List Char) :=
  match skipSpace text with
  | [] => .error .truncated
  | '}' :: rest => .ok rest
  | _ => .error .malformed

/-- Reads what follows a key, its colon included, and updates what has been read so far. -/
abbrev MemberReader (σ : Type) := (key : String) → σ → Reader σ

/-- Reads the members of an object, and its closing bracket.  Each member takes one unit of
fuel. -/
def membersFrom {σ : Type} (read : MemberReader σ) : (fuel : Nat) → (first : Bool) → σ → Reader σ
  | 0, _, _, _ => .error .truncated
  | fuel + 1, first, s, text => do
    match ← nextKey first text with
    | none => return (s, ← endMembers text)
    | some cs =>
      let (key, rest) ← stringBody cs
      let (s, rest) ← read key s rest
      membersFrom read fuel false s rest

/-- Reads the members of an object whose opening bracket has been read. -/
def members {σ : Type} (read : MemberReader σ) (start : σ) : Reader σ := fun text =>
  membersFrom read (text.length + 1) true start text

/-- Reads the colon of a member and its value. -/
def value {α : Type} (read : Reader α) : Reader α := fun text => do
  read (← colon text)

/-- Reads a member whose key must not have been met before: `old` is its value so far. -/
def once {α σ : Type} (old : Option α) (read : Reader α) (set : α → σ) : Reader σ := fun text =>
  if old.isSome then .error .mistyped
  else do
    let (a, rest) ← value read text
    return (set a, rest)

/-! ### Values that are not kept -/

/-- The rest of the text after a number. -/
def skipNumber (text : List Char) : Except Fault (List Char) :=
  match Number.scan text with
  | .ok (_, rest) => .ok rest
  | .error _ => .error .malformed

mutual

/-- The rest of the text after a value. -/
def skipValueFrom : (fuel : Nat) → List Char → Except Fault (List Char)
  | 0, _ => .error .truncated
  | fuel + 1, text =>
    match skipSpace text with
    | [] => .error .truncated
    | 'n' :: cs => word ['u', 'l', 'l'] cs
    | 't' :: cs => word ['r', 'u', 'e'] cs
    | 'f' :: cs => word ['a', 'l', 's', 'e'] cs
    | '"' :: cs => skipStringFrom 0 cs
    | '[' :: cs =>
      match skipSpace cs with
      | ']' :: rest => .ok rest
      | rest => skipItemsFrom fuel rest
    | '{' :: cs =>
      match skipSpace cs with
      | '}' :: rest => .ok rest
      | rest => skipMembersFrom fuel rest
    | c :: cs => if c = '-' ∨ c.isDigit then skipNumber (c :: cs) else .error .malformed

/-- The rest of the text after the items of an array and its closing bracket. -/
def skipItemsFrom : (fuel : Nat) → List Char → Except Fault (List Char)
  | 0, _ => .error .truncated
  | fuel + 1, text => do
    let rest ← skipValueFrom fuel text
    match skipSpace rest with
    | [] => .error .truncated
    | ']' :: rest => .ok rest
    | ',' :: rest => skipItemsFrom fuel rest
    | _ => .error .malformed

/-- The rest of the text after the members of an object and its closing bracket. -/
def skipMembersFrom : (fuel : Nat) → List Char → Except Fault (List Char)
  | 0, _ => .error .truncated
  | fuel + 1, text =>
    match skipSpace text with
    | [] => .error .truncated
    | '"' :: cs => do
      let rest ← skipStringFrom 0 cs
      let rest ← colon rest
      let rest ← skipValueFrom fuel rest
      match skipSpace rest with
      | [] => .error .truncated
      | '}' :: rest => .ok rest
      | ',' :: rest => skipMembersFrom fuel rest
      | _ => .error .malformed
    | _ => .error .malformed

end

/-- Reads any value, of any depth, and keeps nothing of it. -/
def skipValue : Reader Unit := fun text => do
  return ((), ← skipValueFrom (2 * text.length + 2) text)

/-! ### Whole texts -/

/-- Reads a text that holds one value and nothing after it. -/
def document {α : Type} (read : Reader α) (text : String) : Except Fault α := do
  let (a, rest) ← read text.toList
  if skipSpace rest = [] then return a else .error .malformed

end Localization.Json

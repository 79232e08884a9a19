/-!
# Written JSON

`Json.Value` holds the documents that this library writes: `null`, strings, arrays and objects
with their members in order.  `Json.Value.pretty` writes a document over several lines, two
spaces deeper for each bracket, and `Json.quote` writes a string: quotes, backslashes and the
characters below U+0020 are escaped, everything else stands for itself.
-/

namespace Localization.Json

/-- A document. -/
inductive Value where
  | null
  | string (text : String)
  | array (items : List Value)
  | object (members : List (String × Value))
  deriving Inhabited

/-- The hexadecimal digit of a number below sixteen, in lower case. -/
def hexDigit (n : Nat) : Char :=
  if n < 10 then Char.ofNat ('0'.toNat + n) else Char.ofNat ('a'.toNat + (n - 10))

/-- A character as it is written inside quotes. -/
def escape (c : Char) : List Char :=
  match c with
  | '"' => ['\\', '"']
  | '\\' => ['\\', '\\']
  | '\x08' => ['\\', 'b']
  | '\x0c' => ['\\', 'f']
  | '\n' => ['\\', 'n']
  | '\r' => ['\\', 'r']
  | '\t' => ['\\', 't']
  | c =>
    if c.toNat < 0x20 then
      ['\\', 'u', '0', '0', hexDigit (c.toNat / 16), hexDigit (c.toNat % 16)]
    else [c]

/-- A string in quotes. -/
def quote (text : String) : List Char :=
  '"' :: text.toList.flatMap escape ++ ['"']

/-- A line break and the indentation of a depth. -/
def newline (depth : Nat) : List Char :=
  '\n' :: List.replicate (2 * depth) ' '

namespace Value

mutual

/-- A document written over several lines, its first line at the given depth. -/
def prettyAt (depth : Nat) : Value → List Char
  | null => ['n', 'u', 'l', 'l']
  | string text => quote text
  | array [] => ['[', ']']
  | array (v :: vs) =>
    '[' :: newline (depth + 1) ++ prettyAt (depth + 1) v ++ prettyItems (depth + 1) vs
      ++ newline depth ++ [']']
  | object [] => ['{', '}']
  | object ((key, v) :: ms) =>
    '{' :: newline (depth + 1) ++ quote key ++ [':', ' '] ++ prettyAt (depth + 1) v
      ++ prettyMembers (depth + 1) ms ++ newline depth ++ ['}']

/-- The items of an array after its first. -/
def prettyItems (depth : Nat) : List Value → List Char
  | [] => []
  | v :: vs => ',' :: newline depth ++ prettyAt depth v ++ prettyItems depth vs

/-- The members of an object after its first. -/
def prettyMembers (depth : Nat) : List (String × Value) → List Char
  | [] => []
  | (key, v) :: ms =>
    ',' :: newline depth ++ quote key ++ [':', ' '] ++ prettyAt depth v ++ prettyMembers depth ms

end

/-- A document written over several lines. -/
def pretty (v : Value) : String :=
  .ofList (prettyAt 0 v)

/-- A list of strings as a document. -/
def ofStrings (texts : List String) : Value :=
  array (texts.map string)

/-- An optional string as a document, a missing one being `null`. -/
def ofString? : Option String → Value
  | none => null
  | some text => string text

end Value
end Localization.Json

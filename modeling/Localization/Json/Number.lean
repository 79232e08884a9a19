/-!
# JSON numbers

`Json.Number.scan` reads a number at the start of a text by the grammar of JSON numbers.  It
keeps the `Magnitude` of the number: as many leading digits as fit into 64 bits, and a power of
ten.  `Magnitude.overflows` says that the number is too large for double precision when its
digits and its power of ten are rounded to it one after the other and then multiplied.
-/

namespace Localization.Json

/-- Why a text could not be read. -/
inductive Fault where
  /-- The text ends too early. -/
  | truncated
  /-- The text is not JSON where it stands. -/
  | malformed
  /-- The text is JSON so far, but not of the form that is due. -/
  | mistyped
  deriving DecidableEq, Repr

/-- A description of a fault. -/
def Fault.message : Fault → String
  | truncated => "unexpected end of input"
  | malformed => "not valid JSON"
  | mistyped => "unexpected kind of value"

namespace Number

/-- The value `significand * 10 ^ exponent`. -/
structure Magnitude where
  significand : Nat
  exponent : Int
  deriving DecidableEq, Repr

namespace Magnitude

/-- The first significand that is out of bounds. -/
def bound : Nat := Nat.pow 2 64

/-- The digits before the point, pushed one after the other.  From the first digit that does not
fit on, each digit counts as a power of ten. -/
def pushInteger (m : Magnitude) : List Nat → Magnitude
  | [] => m
  | d :: ds =>
    if m.significand * 10 + d < bound then
      pushInteger { m with significand := m.significand * 10 + d } ds
    else { m with exponent := m.exponent + (d :: ds).length }

/-- The digits after the point, pushed one after the other.  From the first digit that does not
fit on, they are left out. -/
def pushFraction (m : Magnitude) : List Nat → Magnitude
  | [] => m
  | d :: ds =>
    if m.significand * 10 + d < bound then
      pushFraction ⟨m.significand * 10 + d, m.exponent - 1⟩ ds
    else m

/-- The nearest number with 53 significant bits, a tie going to the even one. -/
def roundBits (n : Nat) : Nat :=
  let excess := n.log2 + 1 - 53
  let unit := Nat.pow 2 excess
  let (q, r) := (n / unit, n % unit)
  if 2 * r > unit ∨ (2 * r = unit ∧ q % 2 = 1) then (q + 1) * unit else q * unit

/-- The number is too large for double precision. -/
def overflows (m : Magnitude) : Bool :=
  m.significand != 0 && decide (0 ≤ m.exponent) &&
    (decide (308 < m.exponent) ||
      decide (Nat.pow 2 1024 - Nat.pow 2 970
        ≤ roundBits m.significand * roundBits (Nat.pow 10 m.exponent.toNat)))

end Magnitude

/-- The value of a decimal digit. -/
def digit (c : Char) : Nat :=
  c.toNat - '0'.toNat

/-- The digits at the start of a text, and the rest. -/
def digits (text : List Char) : List Nat × List Char :=
  ((text.takeWhile Char.isDigit).map digit, text.dropWhile Char.isDigit)

/-- One digit or more. -/
def digits₁ (text : List Char) : Except Fault (List Nat × List Char) :=
  match text with
  | [] => .error .truncated
  | c :: _ => if c.isDigit then .ok (digits text) else .error .malformed

/-- The digits before the point: a zero alone, or a row that does not begin with zero. -/
def integer (text : List Char) : Except Fault (List Nat × List Char) := do
  let (ds, rest) ← digits₁ text
  if ds.head? = some 0 ∧ 1 < ds.length then .error .malformed
  else return (ds, rest)

/-- The point and the digits after it, if there is a point. -/
def fraction (text : List Char) : Except Fault (List Nat × List Char) :=
  match text with
  | '.' :: rest => digits₁ rest
  | rest => .ok ([], rest)

/-- The number that digits stand for in base ten. -/
def decimal (ds : List Nat) : Nat :=
  ds.foldl (fun n d => n * 10 + d) 0

/-- A number with an optional sign. -/
def signed (text : List Char) : Except Fault (Int × List Char) :=
  match text with
  | '-' :: rest => do
    let (ds, rest) ← digits₁ rest
    return (-(decimal ds : Int), rest)
  | '+' :: rest => do
    let (ds, rest) ← digits₁ rest
    return ((decimal ds : Int), rest)
  | rest => do
    let (ds, rest) ← digits₁ rest
    return ((decimal ds : Int), rest)

/-- The exponent, if there is one. -/
def exponent (text : List Char) : Except Fault (Int × List Char) :=
  match text with
  | [] => .ok (0, [])
  | c :: rest => if c = 'e' ∨ c = 'E' then signed rest else .ok (0, c :: rest)

/-- The number at the start of a text, and the rest. -/
def scan (text : List Char) : Except Fault (Magnitude × List Char) := do
  let (whole, rest) ← integer (match text with | '-' :: rest => rest | rest => rest)
  let (part, rest) ← fraction rest
  let (power, rest) ← exponent rest
  let m := (Magnitude.pushInteger ⟨0, 0⟩ whole).pushFraction part
  return ({ m with exponent := m.exponent + power }, rest)

end Number
end Localization.Json

/-!
# Decoding UTF-8

`Utf8.decode` reads bytes as UTF-8.  What is not UTF-8 does not stop it: each longest beginning
of a sequence that breaks off, and each byte that can begin no sequence, is read as one
replacement character U+FFFD.
-/

namespace Localization.Text.Utf8

/-- What stands for bytes that cannot be decoded. -/
def replacement : Char := '\ufffd'

/-- A sequence that has begun: the bits read so far, the number of bytes still due, and the
bounds of the next of them. -/
structure Pending where
  bits : Nat
  due : Nat
  least : UInt8 := 0x80
  most : UInt8 := 0xbf
  deriving DecidableEq, Repr

/-- What a byte at the start of a sequence means: a character, or a sequence that it begins, or
nothing. -/
inductive Lead where
  | whole (c : Char)
  | begins (p : Pending)
  | stray

/-- The meaning of a byte at the start of a sequence. -/
def lead (b : UInt8) : Lead :=
  if b < 0x80 then .whole (Char.ofNat b.toNat)
  else if b < 0xc2 then .stray
  else if b < 0xe0 then .begins { bits := b.toNat - 0xc0, due := 1 }
  else if b = 0xe0 then .begins { bits := 0, due := 2, least := 0xa0 }
  else if b = 0xed then .begins { bits := 0xd, due := 2, most := 0x9f }
  else if b < 0xf0 then .begins { bits := b.toNat - 0xe0, due := 2 }
  else if b = 0xf0 then .begins { bits := 0, due := 3, least := 0x90 }
  else if b < 0xf4 then .begins { bits := b.toNat - 0xf0, due := 3 }
  else if b = 0xf4 then .begins { bits := 4, due := 3, most := 0x8f }
  else .stray

/-- The characters that a byte completes at the start of a sequence, and the sequence it
begins. -/
def stepStart (b : UInt8) : List Char × Option Pending :=
  match lead b with
  | .whole c => ([c], none)
  | .begins p => ([], some p)
  | .stray => ([replacement], none)

/-- The characters that a byte completes, and the sequence that is then pending. -/
def step (pending : Option Pending) (b : UInt8) : List Char × Option Pending :=
  match pending with
  | none => stepStart b
  | some p =>
    if p.least ≤ b ∧ b ≤ p.most then
      let bits := p.bits * 0x40 + (b.toNat - 0x80)
      if p.due ≤ 1 then ([Char.ofNat bits], none)
      else ([], some { bits, due := p.due - 1 })
    else (replacement :: (stepStart b).1, (stepStart b).2)

/-- The characters of bytes after a pending sequence. -/
def decodeFrom : Option Pending → List UInt8 → List Char
  | none, [] => []
  | some _, [] => [replacement]
  | pending, b :: bs => (step pending b).1 ++ decodeFrom (step pending b).2 bs

/-- The text that bytes stand for. -/
def decode (bytes : ByteArray) : String :=
  .ofList (decodeFrom none bytes.data.toList)

end Localization.Text.Utf8

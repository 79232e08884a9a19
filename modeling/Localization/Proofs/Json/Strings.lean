import Localization.Json.Reader
import Localization.Json.Value
import Localization.Proofs.Outcome
import Mathlib.Tactic.IntervalCases

/-!
# Written strings are read back

`Json.stringFrom` undoes `Json.escape` character by character (`stringFrom_escape`), and so a
written string is read back whole, whatever follows it (`stringBody_flatMap_escape`).  The same
holds of a string that may be missing (`string?_prettyAt`).
-/

namespace Localization.Json

/-! ### Escapes -/

theorem hexNumber_take (text : List Char) :
  hexNumber text = hexNumber (text.take 4)
  := by
  rw [hexNumber, hexNumber, List.take_take, Nat.min_self]

/-- The four digits that are written for a control character stand for it. -/
theorem hexNumber_hexDigit :
  ∀ n < 0x20, hexNumber ['0', '0', hexDigit (n / 16), hexDigit (n % 16)] = .ok n
  := by
  intro n hn
  interval_cases n <;> rfl

theorem escaped_control {c : Char} (hc : c.toNat < 0x20) (rest : List Char) :
  escaped ('u' :: '0' :: '0' :: hexDigit (c.toNat / 16) :: hexDigit (c.toNat % 16) :: rest)
    = .ok (c, 5)
  := by
  have hn : hexNumber ('0' :: '0' :: hexDigit (c.toNat / 16) :: hexDigit (c.toNat % 16) :: rest)
      = .ok c.toNat := by
    rw [hexNumber_take]
    apply hexNumber_hexDigit c.toNat hc
  have hl : isLeading c.toNat = false := by
    simp [isLeading]
    omega
  have ht : isTrailing c.toNat = false := by
    simp [isTrailing]
    omega
  rw [escaped, hn, Outcome.ok_bind, if_neg (by simp [ht]), if_neg (by simp [hl]),
    Char.ofNat_toNat]
  rfl

/-- The escape whose text after the backslash is `text` is read as one character. -/
theorem stringFrom_backslash (text : List Char) {d : Char} {rest : List Char}
    (h : escaped (text ++ rest) = .ok (d, text.length)) :
  stringFrom 0 ('\\' :: (text ++ rest)) = (stringFrom 0 rest).map fun p => (d :: p.1, p.2)
  := by
  have hskip : ∀ text : List Char,
      stringFrom text.length (text ++ rest) = stringFrom 0 rest := by
    intro text
    induction text with
    | nil => rfl
    | cons c cs ih => rw [List.length_cons, List.cons_append, stringFrom, ih]
  rw [stringFrom, if_neg (by decide), if_neg (by decide), if_pos rfl, h, Outcome.ok_bind]
  dsimp only
  rw [hskip]
  cases stringFrom 0 rest <;> rfl

theorem stringFrom_plain {c : Char} (hq : c ≠ '"') (hs : c ≠ '\\') (hc : ¬ c.toNat < 0x20)
    (rest : List Char) :
  stringFrom 0 (c :: rest) = (stringFrom 0 rest).map fun p => (c :: p.1, p.2)
  := by
  rw [stringFrom, if_neg hq, if_neg hc, if_neg hs]
  cases stringFrom 0 rest <;> rfl

/-- Reading undoes the escape of a character. -/
theorem stringFrom_escape (c : Char) (rest : List Char) :
  stringFrom 0 (escape c ++ rest) = (stringFrom 0 rest).map fun p => (c :: p.1, p.2)
  := by
  unfold escape
  split
  case h_1 => exact stringFrom_backslash ['"'] rfl
  case h_2 => exact stringFrom_backslash ['\\'] rfl
  case h_3 => exact stringFrom_backslash ['b'] rfl
  case h_4 => exact stringFrom_backslash ['f'] rfl
  case h_5 => exact stringFrom_backslash ['n'] rfl
  case h_6 => exact stringFrom_backslash ['r'] rfl
  case h_7 => exact stringFrom_backslash ['t'] rfl
  case h_8 hq hs _ _ _ _ _ =>
    split
    · next hc =>
      exact stringFrom_backslash
        ['u', '0', '0', hexDigit (c.toNat / 16), hexDigit (c.toNat % 16)]
        (escaped_control hc rest)
    · next hc => apply stringFrom_plain hq hs hc rest

/-! ### Strings -/

theorem stringFrom_flatMap_escape (text rest : List Char) :
  stringFrom 0 (text.flatMap escape ++ '"' :: rest) = .ok (text, rest)
  := by
  induction text with
  | nil => rfl
  | cons c cs ih =>
    rw [List.flatMap_cons, List.append_assoc, stringFrom_escape, ih]
    rfl

/-- What stands after the opening quote of a written string is read as the string. -/
theorem stringBody_flatMap_escape (text : String) (rest : List Char) :
  stringBody (text.toList.flatMap escape ++ '"' :: rest) = .ok (text, rest)
  := by
  rw [stringBody, stringFrom_flatMap_escape, Outcome.ok_bind]
  dsimp only
  rw [String.ofList_toList]
  rfl

theorem quote_append (text : String) (rest : List Char) :
  quote text ++ rest = '"' :: (text.toList.flatMap escape ++ '"' :: rest)
  := by
  simp [quote]

theorem skipSpace_append {spaces : List Char} (hs : ∀ c ∈ spaces, isSpace c) (text : List Char) :
  skipSpace (spaces ++ text) = skipSpace text
  := List.dropWhile_append_of_pos hs

theorem skipSpace_cons {c : Char} (hc : isSpace c = false) (text : List Char) :
  skipSpace (c :: text) = c :: text
  := List.dropWhile_cons_of_neg (by simp [hc])

theorem string_quote (text : String) (rest : List Char) :
  string (quote text ++ rest) = .ok (text, rest)
  := by
  rw [string, quote_append, skipSpace_cons (by decide)]
  apply stringBody_flatMap_escape text rest

theorem string_append {spaces : List Char} (hs : ∀ c ∈ spaces, isSpace c) (text : List Char) :
  string (spaces ++ text) = string text
  := by
  rw [string, string, skipSpace_append hs]

/-- A written string is read back. -/
theorem string_prettyAt (spaces : List Char) (hs : ∀ c ∈ spaces, isSpace c) (depth : Nat)
    (text : String) (rest : List Char) :
  string (spaces ++ (Value.prettyAt depth (.string text) ++ rest)) = .ok (text, rest)
  := by
  rw [string_append hs, Value.prettyAt, string_quote]

/-- A written string is read back, and so is a written `null`. -/
theorem string?_prettyAt (spaces : List Char) (hs : ∀ c ∈ spaces, isSpace c) (depth : Nat)
    (text : Option String) (rest : List Char) :
  string? (spaces ++ (Value.prettyAt depth (Value.ofString? text) ++ rest)) = .ok (text, rest)
  := by
  cases text with
  | none =>
    rw [Value.ofString?, Value.prettyAt, string?, skipSpace_append hs]
    rfl
  | some text =>
    have hq := string_quote text rest
    rw [quote_append] at hq
    rw [Value.ofString?, Value.prettyAt, quote_append, string?, skipSpace_append hs,
      skipSpace_cons (by decide)]
    change (string ('"' :: (text.toList.flatMap escape ++ '"' :: rest)) >>= fun p =>
      pure (some p.1, p.2)) = _
    rw [hq]
    rfl

end Localization.Json

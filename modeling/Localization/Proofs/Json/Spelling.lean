import Localization.Proofs.Json.Strings

/-!
# Strings as they are spelled

A character can be written inside quotes in several ways, `SpellsChar`, and what stands between the
quotes is a row of units, `IsBody`.  A body that `Spells` a text is read as that text
(`stringBody_spells`).  One that spells none, because half of a surrogate pair stands alone in it,
is not read (`toOption_stringBody_eq_none`), but it is skipped as any other body is
(`skipStringFrom_body`).
-/

namespace Localization.Json

/-! ### Hexadecimal numbers -/

/-- The character is the hexadecimal digit of this value, in lower or in upper case. -/
def IsHexDigit (n : Nat) (c : Char) : Prop :=
  "0123456789abcdef".toList[n]? = some c ∨ "0123456789ABCDEF".toList[n]? = some c

/-- The characters are four hexadecimal digits of this number. -/
def IsHex (n : Nat) (digits : List Char) : Prop :=
  ∃ a b c d, List.Forall₂ IsHexDigit [a, b, c, d] digits ∧ n = ((a * 16 + b) * 16 + c) * 16 + d

theorem lt_of_isHexDigit {n : Nat} {c : Char} (h : IsHexDigit n c) :
  n < 16
  := by
  obtain h | h := h
  · exact (List.getElem?_eq_some_iff.1 h).1
  · exact (List.getElem?_eq_some_iff.1 h).1

theorem hexValue?_of_isHexDigit {n : Nat} {c : Char} (h : IsHexDigit n c) :
  hexValue? c = some n
  := by
  have hn := lt_of_isHexDigit h
  obtain h | h := h
  · interval_cases n <;> obtain rfl := Option.some.inj h <;> rfl
  · interval_cases n <;> obtain rfl := Option.some.inj h <;> rfl

theorem hexNumber_append {n : Nat} {digits : List Char} (h : IsHex n digits) (rest : List Char) :
  hexNumber (digits ++ rest) = .ok n
  := by
  obtain ⟨a, b, c, d, hd, rfl⟩ := h
  obtain _ | @⟨_, u, _, _, ha, hd⟩ := hd
  obtain _ | @⟨_, v, _, _, hb, hd⟩ := hd
  obtain _ | @⟨_, w, _, _, hc, hd⟩ := hd
  obtain _ | @⟨_, x, _, _, hd, hn⟩ := hd
  cases hn
  have hsize : ¬ (String.ofList [u, v, w, x]).utf8ByteSize < 4 := by
    have hu := u.utf8Size_pos
    have hv := v.utf8Size_pos
    have hw := w.utf8Size_pos
    have hx := x.utf8Size_pos
    simp only [String.ofList_cons, String.utf8ByteSize_append, String.utf8ByteSize_singleton]
    omega
  have hvalues : [u, v, w, x].mapM hexValue? = some [a, b, c, d] := by
    simp [hexValue?_of_isHexDigit ha, hexValue?_of_isHexDigit hb, hexValue?_of_isHexDigit hc,
      hexValue?_of_isHexDigit hd]
  rw [hexNumber_take]
  change hexNumber [u, v, w, x] = _
  rw [hexNumber, List.take_of_length_le (by simp), if_neg hsize, hvalues]
  simp

theorem length_of_isHex {n : Nat} {digits : List Char} (h : IsHex n digits) :
  digits.length = 4
  := by
  obtain ⟨a, b, c, d, hd, -⟩ := h
  exact hd.length_eq.symm

theorem lt_of_isHex {n : Nat} {digits : List Char} (h : IsHex n digits) :
  n < 0x10000
  := by
  obtain ⟨a, b, c, d, hd, rfl⟩ := h
  obtain _ | ⟨ha, hd⟩ := hd
  obtain _ | ⟨hb, hd⟩ := hd
  obtain _ | ⟨hc, hd⟩ := hd
  obtain _ | ⟨hd, _⟩ := hd
  have ha := lt_of_isHexDigit ha
  have hb := lt_of_isHexDigit hb
  have hc := lt_of_isHexDigit hc
  have hd := lt_of_isHexDigit hd
  omega

/-! ### Bodies -/

/-- The letters that stand for a character after a backslash, each with its character. -/
def shortEscapes : List (Char × Char) :=
  [('"', '"'), ('\\', '\\'), ('/', '/'), ('b', '\x08'), ('f', '\x0c'), ('n', '\n'), ('r', '\r'),
    ('t', '\t')]

/-- The characters are a unit inside quotes: a character that needs no escape, or an escape. -/
inductive IsUnit : List Char → Prop where
  | plain {c : Char} (hq : c ≠ '"') (hb : c ≠ '\\') (hc : ¬ c.toNat < 0x20) : IsUnit [c]
  | short {letter c : Char} (h : (letter, c) ∈ shortEscapes) : IsUnit ['\\', letter]
  | number {n : Nat} {digits : List Char} (h : IsHex n digits) : IsUnit ('\\' :: 'u' :: digits)

/-- The characters are a row of units. -/
inductive IsBody : List Char → Prop where
  | nil : IsBody []
  | cons {unit body : List Char} (hu : IsUnit unit) (hb : IsBody body) : IsBody (unit ++ body)

/-- The characters are a way to write a character inside quotes.  One that has no number of four
hexadecimal digits is written as a pair of surrogates. -/
inductive SpellsChar (c : Char) : List Char → Prop where
  | plain (hq : c ≠ '"') (hb : c ≠ '\\') (hc : ¬ c.toNat < 0x20) : SpellsChar c [c]
  | short {letter : Char} (h : (letter, c) ∈ shortEscapes) : SpellsChar c ['\\', letter]
  | number {digits : List Char} (h : IsHex c.toNat digits) : SpellsChar c ('\\' :: 'u' :: digits)
  | pair {leading trailing : List Char} (hc : 0x10000 ≤ c.toNat)
      (hl : IsHex (0xd800 + (c.toNat - 0x10000) / 0x400) leading)
      (ht : IsHex (0xdc00 + (c.toNat - 0x10000) % 0x400) trailing) :
      SpellsChar c ('\\' :: 'u' :: (leading ++ '\\' :: 'u' :: trailing))

/-- The body is a way to write the text inside quotes. -/
inductive Spells : (text body : List Char) → Prop where
  | nil : Spells [] []
  | cons {c : Char} {cs piece body : List Char} (hc : SpellsChar c piece) (h : Spells cs body) :
      Spells (c :: cs) (piece ++ body)

/-! ### Reading a body -/

theorem ne_u_of_mem_shortEscapes {letter c : Char} (h : (letter, c) ∈ shortEscapes) :
  letter ≠ 'u'
  := by
  rintro rfl
  simp [shortEscapes] at h

theorem shortEscape?_of_mem {letter c : Char} (h : (letter, c) ∈ shortEscapes) :
  shortEscape? letter = some c
  := by
  simp only [shortEscapes, List.mem_cons, Prod.mk.injEq, List.not_mem_nil, or_false] at h
  obtain ⟨rfl, rfl⟩ | ⟨rfl, rfl⟩ | ⟨rfl, rfl⟩ | ⟨rfl, rfl⟩ | ⟨rfl, rfl⟩ | ⟨rfl, rfl⟩ | ⟨rfl, rfl⟩
    | ⟨rfl, rfl⟩ := h
  all_goals rfl

theorem escaped_short {letter c : Char} (h : (letter, c) ∈ shortEscapes) (rest : List Char) :
  escaped (letter :: rest) = .ok (c, 1)
  := by
  rw [escaped.eq_def]
  split
  · next heq => cases heq
  · next heq => exact absurd (List.cons.inj heq).1 (ne_u_of_mem_shortEscapes h)
  · next heq =>
    obtain ⟨rfl, rfl⟩ := List.cons.inj heq
    rw [shortEscape?_of_mem h]

/-- No character is half of a surrogate pair. -/
theorem not_isLeading_toNat (c : Char) :
  isLeading c.toNat = false ∧ isTrailing c.toNat = false
  := by
  have hc : c.toNat < 0xd800 ∨ 0xdfff < c.toNat ∧ c.toNat < 0x110000 := c.valid
  simp [isLeading, isTrailing]
  omega

theorem escaped_number {c : Char} {digits : List Char} (h : IsHex c.toNat digits)
    (rest : List Char) :
  escaped ('u' :: (digits ++ rest)) = .ok (c, 5)
  := by
  obtain ⟨hl, ht⟩ := not_isLeading_toNat c
  rw [escaped, hexNumber_append h, Outcome.ok_bind, if_neg (by simp [ht]), if_neg (by simp [hl]),
    Char.ofNat_toNat]
  rfl

theorem escaped_pair {c : Char} {leading trailing : List Char} (hc : 0x10000 ≤ c.toNat)
    (hl : IsHex (0xd800 + (c.toNat - 0x10000) / 0x400) leading)
    (ht : IsHex (0xdc00 + (c.toNat - 0x10000) % 0x400) trailing) (rest : List Char) :
  escaped ('u' :: (leading ++ '\\' :: 'u' :: (trailing ++ rest))) = .ok (c, 11)
  := by
  have hvalid : c.toNat < 0xd800 ∨ 0xdfff < c.toNat ∧ c.toNat < 0x110000 := c.valid
  have hleading : isLeading (0xd800 + (c.toNat - 0x10000) / 0x400) = true := by
    simp [isLeading]
    omega
  have hnot : isTrailing (0xd800 + (c.toNat - 0x10000) / 0x400) = false := by
    simp [isTrailing]
    omega
  have htrailing : isTrailing (0xdc00 + (c.toNat - 0x10000) % 0x400) = true := by
    simp [isTrailing]
    omega
  have hdrop : (leading ++ '\\' :: 'u' :: (trailing ++ rest)).drop 4
      = '\\' :: 'u' :: (trailing ++ rest) := by
    rw [← length_of_isHex hl, List.drop_left]
  have hread : Json.trailing ('\\' :: 'u' :: (trailing ++ rest))
      = .ok (0xdc00 + (c.toNat - 0x10000) % 0x400) := by
    rw [Json.trailing, hexNumber_append ht, Outcome.ok_bind, if_pos htrailing]
    rfl
  have hchar : 0x10000 + (0xd800 + (c.toNat - 0x10000) / 0x400 - 0xd800) * 0x400
      + (0xdc00 + (c.toNat - 0x10000) % 0x400 - 0xdc00) = c.toNat := by
    omega
  rw [escaped, hexNumber_append hl, Outcome.ok_bind, if_neg (by simp [hnot]), if_pos hleading,
    hdrop, hread, Outcome.ok_bind, hchar, Char.ofNat_toNat]
  rfl

/-- A character is read in whichever way it is written. -/
theorem stringFrom_spellsChar {c : Char} {piece : List Char} (h : SpellsChar c piece)
    (rest : List Char) :
  stringFrom 0 (piece ++ rest) = (stringFrom 0 rest).map fun p => (c :: p.1, p.2)
  := by
  cases h with
  | plain hq hb hc => apply stringFrom_plain hq hb hc
  | short h => apply stringFrom_backslash [_] (escaped_short h rest)
  | @number digits h =>
    apply stringFrom_backslash ('u' :: digits)
    rw [List.length_cons, length_of_isHex h]
    apply escaped_number h
  | @pair leading trailing hc hl ht =>
    have htext : '\\' :: 'u' :: (leading ++ '\\' :: 'u' :: trailing) ++ rest
        = '\\' :: (('u' :: (leading ++ '\\' :: 'u' :: trailing)) ++ rest) := rfl
    rw [htext, stringFrom_backslash]
    simp [length_of_isHex hl, length_of_isHex ht, escaped_pair hc hl ht rest]

/-- A body is read as the text that it spells. -/
theorem stringFrom_spells {cs body : List Char} (h : Spells cs body) (rest : List Char) :
  stringFrom 0 (body ++ '"' :: rest) = .ok (cs, rest)
  := by
  induction h with
  | nil => rfl
  | cons hc _ ih =>
    rw [List.append_assoc, stringFrom_spellsChar hc, ih]
    rfl

/-! ### Bodies that spell nothing -/

/-- A trailing surrogate that is read in a body is the first unit of the body. -/
theorem exists_of_trailing {body rest : List Char} {n : Nat} (hb : IsBody body)
    (h : trailing (body ++ '"' :: rest) = .ok n) :
  isTrailing n ∧ ∃ digits body', IsHex n digits ∧ IsBody body'
    ∧ body = '\\' :: 'u' :: (digits ++ body')
  := by
  cases hb with
  | nil => cases h
  | @cons unit body hu hb => cases hu with
    | @plain c hq hs hc =>
      rw [List.append_assoc, List.singleton_append, trailing.eq_def] at h
      split at h
      · next h' => cases h'
      · next h' => exact absurd (List.cons.inj h').1 hs
      · next h' => exact absurd (List.cons.inj h').1 hs
      · cases h
    | short hl =>
      rw [List.append_assoc, trailing.eq_def] at h
      split at h
      · next h' => cases h'
      · next h' => cases h'
      · next h' =>
        simp only [List.cons_append, List.cons.injEq] at h'
        exact absurd h'.2.1 (ne_u_of_mem_shortEscapes hl)
      · cases h
    | @number m digits hd =>
      have htext : '\\' :: 'u' :: digits ++ body ++ '"' :: rest
          = '\\' :: 'u' :: (digits ++ (body ++ '"' :: rest)) := by simp
      rw [htext, trailing, hexNumber_append hd, Outcome.ok_bind] at h
      split at h
      · next ht =>
        obtain rfl := Except.ok.inj h
        exact ⟨ht, digits, body, hd, hb, rfl⟩
      · cases h

theorem toNat_ofNat {n : Nat} (hn : n < 0xd800 ∨ 0xdfff < n ∧ n < 0x110000) :
  (Char.ofNat n).toNat = n
  := by
  have hv : n.isValidChar := hn
  rw [Char.ofNat, dif_pos hv]
  rfl

/-- Two surrogates, a leading and a trailing one, are a way to write their character. -/
theorem pair_ofNat {n m : Nat} {digits digits' : List Char} (hl : isLeading n = true)
    (ht : isTrailing m = true) (hd : IsHex n digits) (hd' : IsHex m digits') :
  SpellsChar (Char.ofNat (0x10000 + (n - 0xd800) * 0x400 + (m - 0xdc00)))
    ('\\' :: 'u' :: (digits ++ '\\' :: 'u' :: digits'))
  := by
  simp [isLeading, isTrailing] at hl ht
  have hc : (Char.ofNat (0x10000 + (n - 0xd800) * 0x400 + (m - 0xdc00))).toNat
      = 0x10000 + (n - 0xd800) * 0x400 + (m - 0xdc00) := by
    apply toNat_ofNat
    omega
  have hleading : 0xd800 + (0x10000 + (n - 0xd800) * 0x400 + (m - 0xdc00) - 0x10000) / 0x400
      = n := by
    omega
  have htrailing : 0xdc00 + (0x10000 + (n - 0xd800) * 0x400 + (m - 0xdc00) - 0x10000) % 0x400
      = m := by
    omega
  apply SpellsChar.pair
  · rw [hc]
    omega
  · rw [hc, hleading]
    exact hd
  · rw [hc, htrailing]
    exact hd'

/-- What is read of a number after `u` is a character that is spelled there. -/
theorem exists_of_escaped {digits body rest : List Char} {n : Nat} {c : Char} {k : Nat}
    (hd : IsHex n digits) (hb : IsBody body)
    (h : escaped ('u' :: (digits ++ (body ++ '"' :: rest))) = .ok (c, k)) :
  ∃ piece body', SpellsChar c piece ∧ IsBody body'
    ∧ '\\' :: 'u' :: (digits ++ body) = piece ++ body'
  := by
  have hn := lt_of_isHex hd
  rw [escaped, hexNumber_append hd, Outcome.ok_bind] at h
  split at h
  · cases h
  · next ht =>
    split at h
    · next hl =>
      rw [← length_of_isHex hd, List.drop_left] at h
      obtain ⟨m, hm, hck⟩ := Outcome.bind_eq_ok_iff.1 h
      obtain ⟨htm, digits', body', hd', hb', rfl⟩ := exists_of_trailing hb hm
      obtain rfl := (Prod.mk.inj (Except.ok.inj hck)).1
      refine ⟨_, body', pair_ofNat hl htm hd hd', hb', ?_⟩
      simp
    · next hl =>
      obtain rfl := (Prod.mk.inj (Except.ok.inj h)).1
      have hc : (Char.ofNat n).toNat = n := by
        apply toNat_ofNat
        simp [isLeading, isTrailing] at hl ht
        omega
      refine ⟨_, body, .number (hc.symm ▸ hd), hb, rfl⟩

theorem ne_nil_of_spellsChar {c : Char} {piece : List Char} (h : SpellsChar c piece) :
  piece ≠ []
  := by
  cases h <;> exact List.cons_ne_nil _ _

/-- What is read of a body is what it spells. -/
theorem spells_of_stringFrom {cs body rest rest' : List Char} (hb : IsBody body)
    (h : stringFrom 0 (body ++ '"' :: rest) = .ok (cs, rest')) :
  Spells cs body
  := by
  -- a surrogate pair is two units, so the induction is on the length of the body
  induction hn : body.length using Nat.strong_induction_on generalizing body cs with
  | _ n ih =>
  have hstep : ∀ {c : Char} {piece body' : List Char}, SpellsChar c piece → IsBody body'
      → body = piece ++ body' → Spells cs body := by
    rintro c piece body' hc hb' rfl
    rw [List.append_assoc, stringFrom_spellsChar hc] at h
    obtain ⟨p, hp, he⟩ := Outcome.map_eq_ok_iff.1 h
    obtain ⟨rfl, rfl⟩ := Prod.mk.inj he
    have hlength := List.length_pos_iff.2 (ne_nil_of_spellsChar hc)
    refine .cons hc (ih body'.length ?_ hb' hp rfl)
    rw [← hn, List.length_append]
    omega
  cases hb with
  | nil =>
    obtain rfl := (Prod.mk.inj (Except.ok.inj h)).1
    exact .nil
  | @cons unit body hu hb => cases hu with
    | plain hq hs hc => exact hstep (.plain hq hs hc) hb rfl
    | short hl => exact hstep (.short hl) hb rfl
    | @number n digits hd =>
      have hescape : ∃ c k, escaped ('u' :: (digits ++ (body ++ '"' :: rest))) = .ok (c, k) := by
        rw [List.append_assoc, List.cons_append, List.cons_append, stringFrom,
          if_neg (by decide), if_neg (by decide), if_pos rfl] at h
        obtain ⟨⟨c, k⟩, hck, -⟩ := Outcome.bind_eq_ok_iff.1 h
        exact ⟨c, k, hck⟩
      obtain ⟨c, k, hck⟩ := hescape
      obtain ⟨piece, body', hc, hb', he⟩ := exists_of_escaped hd hb hck
      exact hstep hc hb' he

/-! ### Strings -/

/-- The characters are a string in quotes, and the text is what its body spells, if it spells
one. -/
inductive IsString : (text : Option String) → (chars : List Char) → Prop where
  | text {s : String} {body : List Char} (h : Spells s.toList body) :
      IsString (some s) ('"' :: (body ++ ['"']))
  | broken {body : List Char} (hb : IsBody body) (h : ∀ cs, ¬ Spells cs body) :
      IsString none ('"' :: (body ++ ['"']))

/-- The character needs no escape. -/
def isPlain (c : Char) : Bool :=
  c != '"' && c != '\\' && 0x20 ≤ c.toNat

/-- A text of characters that need no escape is spelled as it is. -/
theorem spells_self {cs : List Char} (h : cs.all isPlain) :
  Spells cs cs
  := by
  induction cs with
  | nil => exact .nil
  | cons c cs ih =>
    obtain ⟨hc, hcs⟩ := Bool.and_eq_true_iff.1 h
    simp only [isPlain, Bool.and_eq_true, bne_iff_ne, decide_eq_true_eq] at hc
    exact .cons (.plain hc.1.1 hc.1.2 (Nat.not_lt.2 hc.2)) (ih hcs)

theorem isString_self (s : String) (h : s.toList.all isPlain) :
  IsString (some s) ('"' :: (s.toList ++ ['"']))
  := .text (spells_self h)

theorem isBody_spellsChar_append {c : Char} {piece body : List Char} (hc : SpellsChar c piece)
    (hb : IsBody body) :
  IsBody (piece ++ body)
  := by
  cases hc with
  | plain hq hs hc => exact .cons (.plain hq hs hc) hb
  | short h => exact .cons (.short h) hb
  | number h => exact .cons (.number h) hb
  | @pair leading trailing _ hl ht =>
    have htext : '\\' :: 'u' :: (leading ++ '\\' :: 'u' :: trailing) ++ body
        = ('\\' :: 'u' :: leading) ++ (('\\' :: 'u' :: trailing) ++ body) := by simp
    rw [htext]
    exact .cons (.number hl) (.cons (.number ht) hb)

theorem isBody_of_spells {cs body : List Char} (h : Spells cs body) :
  IsBody body
  := by
  induction h with
  | nil => exact .nil
  | cons hc _ ih => exact isBody_spellsChar_append hc ih

/-- The text that a body spells is read. -/
theorem stringBody_spells {s : String} {body : List Char} (h : Spells s.toList body)
    (rest : List Char) :
  stringBody (body ++ '"' :: rest) = .ok (s, rest)
  := by
  rw [stringBody, stringFrom_spells h, Outcome.ok_bind]
  dsimp only
  rw [String.ofList_toList]
  rfl

/-- A body that spells nothing is not read. -/
theorem toOption_stringBody_eq_none {body : List Char} (hb : IsBody body)
    (h : ∀ cs, ¬ Spells cs body) (rest : List Char) :
  (stringBody (body ++ '"' :: rest)).toOption = none
  := by
  cases hr : stringFrom 0 (body ++ '"' :: rest) with
  | ok p => exact absurd (spells_of_stringFrom hb hr) (h p.1)
  | error fault =>
    rw [stringBody, hr]
    rfl

/-- A string is a body in quotes, from which the text is read that the string has. -/
theorem exists_of_isString {text : Option String} {chars : List Char} (h : IsString text chars) :
  ∃ body, chars = '"' :: (body ++ ['"']) ∧ IsBody body
    ∧ ∀ rest, (stringBody (body ++ '"' :: rest)).toOption = text.map (·, rest)
  := by
  cases h with
  | text h =>
    refine ⟨_, rfl, isBody_of_spells h, fun rest => ?_⟩
    rw [stringBody_spells h]
    rfl
  | broken hb h => exact ⟨_, rfl, hb, toOption_stringBody_eq_none hb h⟩

/-! ### Skipping a body -/

/-- The escape whose text after the backslash is `text` is skipped. -/
theorem skipStringFrom_backslash (text : List Char) {rest : List Char}
    (h : escapeLength (text ++ rest) = .ok text.length) :
  skipStringFrom 0 ('\\' :: (text ++ rest)) = skipStringFrom 0 rest
  := by
  have hskip : ∀ text : List Char,
      skipStringFrom text.length (text ++ rest) = skipStringFrom 0 rest := by
    intro text
    induction text with
    | nil => rfl
    | cons c cs ih => rw [List.length_cons, List.cons_append, skipStringFrom, ih]
  rw [skipStringFrom, if_neg (by decide), if_neg (by decide), if_pos rfl, h, Outcome.ok_bind,
    hskip]

theorem skipStringFrom_unit {unit : List Char} (h : IsUnit unit) (rest : List Char) :
  skipStringFrom 0 (unit ++ rest) = skipStringFrom 0 rest
  := by
  cases h with
  | plain hq hs hc =>
    rw [List.singleton_append, skipStringFrom, if_neg hq, if_neg hc, if_neg hs]
  | @short letter c h =>
    apply skipStringFrom_backslash [letter]
    rw [List.singleton_append, escapeLength.eq_def]
    split
    · next heq => cases heq
    · next heq => exact absurd (List.cons.inj heq).1 (ne_u_of_mem_shortEscapes h)
    · next heq =>
      obtain ⟨rfl, rfl⟩ := List.cons.inj heq
      rw [shortEscape?_of_mem h]
      rfl
  | @number n digits h =>
    apply skipStringFrom_backslash ('u' :: digits)
    rw [List.cons_append, escapeLength, hexNumber_append h, List.length_cons, length_of_isHex h]
    rfl

/-- A body is skipped up to its closing quote. -/
theorem skipStringFrom_body {body : List Char} (h : IsBody body) (rest : List Char) :
  skipStringFrom 0 (body ++ '"' :: rest) = .ok rest
  := by
  induction h with
  | nil => rfl
  | cons hu _ ih => rw [List.append_assoc, skipStringFrom_unit hu, ih]

end Localization.Json

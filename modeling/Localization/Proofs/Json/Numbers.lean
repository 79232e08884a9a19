import Localization.Json.Number
import Localization.Proofs.Outcome

/-!
# Numbers as they are spelled

A number is a row of digits with an optional sign, an optional fraction and an optional exponent,
`IsNumber`.  The text does not say where a number ends: it ends before the first character that
could not be a part of it.  `Ends` holds of a text that begins with no such part, and in front of
it a number is scanned to its last character (`scan_append`), however large it is.
-/

namespace Localization.Json

/-- The text is empty, or it begins with a space, a comma or a closing bracket. -/
def Ends (text : List Char) : Prop :=
  ∀ c ∈ text.head?, c ∈ [' ', '\t', '\n', '\r', ',', ']', '}']

namespace Number

/-- The characters are digits, one or more. -/
def IsDigits (ds : List Char) : Prop :=
  ds ≠ [] ∧ ∀ c ∈ ds, c.isDigit

/-- The characters are the digits before the point: a zero alone, or a row that does not begin
with zero. -/
def IsWhole (ds : List Char) : Prop :=
  IsDigits ds ∧ (ds.head? = some '0' → ds = ['0'])

/-- The characters are a fraction, which may be missing. -/
inductive IsFraction : List Char → Prop where
  | missing : IsFraction []
  | point {ds : List Char} (h : IsDigits ds) : IsFraction ('.' :: ds)

/-- The characters are an exponent, which may be missing. -/
inductive IsExponent : List Char → Prop where
  | missing : IsExponent []
  | power {e : Char} {sign ds : List Char} (he : e = 'e' ∨ e = 'E')
      (hs : sign = [] ∨ sign = ['+'] ∨ sign = ['-']) (h : IsDigits ds) :
      IsExponent (e :: (sign ++ ds))

end Number

/-- The characters are a number. -/
inductive IsNumber : List Char → Prop where
  | mk {sign whole part power : List Char} (hs : sign = [] ∨ sign = ['-'])
      (hw : Number.IsWhole whole) (hp : Number.IsFraction part) (he : Number.IsExponent power) :
      IsNumber (sign ++ (whole ++ (part ++ power)))

namespace Number

/-- The text does not go on with a digit. -/
def Stops (text : List Char) : Prop :=
  ∀ c ∈ text.head?, c.isDigit = false

theorem stops_of_ends {rest : List Char} (h : Ends rest) :
  Stops rest
  := by
  intro c hc
  have hmem := h c hc
  simp only [List.mem_cons, List.not_mem_nil, or_false] at hmem
  obtain rfl | rfl | rfl | rfl | rfl | rfl | rfl := hmem
  all_goals rfl

theorem stops_exponent {power rest : List Char} (h : IsExponent power) (hr : Ends rest) :
  Stops (power ++ rest)
  := by
  cases h with
  | missing => exact stops_of_ends hr
  | power he =>
    intro c hc
    obtain rfl := Option.some.inj hc
    obtain rfl | rfl := he
    all_goals rfl

theorem stops_fraction {part text : List Char} (h : IsFraction part) (ht : Stops text) :
  Stops (part ++ text)
  := by
  cases h with
  | missing => exact ht
  | point =>
    intro c hc
    obtain rfl := Option.some.inj hc
    rfl

/-! ### Scanning -/

theorem digits_append {ds rest : List Char} (h : ∀ c ∈ ds, c.isDigit) (hr : Stops rest) :
  digits (ds ++ rest) = (ds.map digit, rest)
  := by
  rw [digits, List.takeWhile_append_of_pos h, List.dropWhile_append_of_pos h]
  cases rest with
  | nil => simp
  | cons c cs =>
    have hc : c.isDigit = false := hr c rfl
    rw [List.takeWhile_cons_of_neg (by simp [hc]), List.dropWhile_cons_of_neg (by simp [hc]),
      List.append_nil]

theorem digits₁_append {ds rest : List Char} (h : IsDigits ds) (hr : Stops rest) :
  digits₁ (ds ++ rest) = .ok (ds.map digit, rest)
  := by
  obtain ⟨hne, hds⟩ := h
  obtain ⟨c, cs, rfl⟩ := List.exists_cons_of_ne_nil hne
  rw [← digits_append hds hr, List.cons_append, digits₁, if_pos (hds c List.mem_cons_self)]

theorem eq_zero_of_digit_eq_zero {c : Char} (hc : c.isDigit) (h : digit c = 0) :
  c = '0'
  := by
  simp only [Char.isDigit, Bool.and_eq_true, decide_eq_true_eq] at hc
  have hle : c.toNat ≤ '0'.toNat := Nat.sub_eq_zero_iff_le.1 h
  have hge : '0'.toNat ≤ c.toNat := hc.1
  apply Char.toNat_inj.1 (Nat.le_antisymm hle hge)

theorem integer_append {whole rest : List Char} (h : IsWhole whole) (hr : Stops rest) :
  integer (whole ++ rest) = .ok (whole.map digit, rest)
  := by
  obtain ⟨hds, hzero⟩ := h
  have hnot : ¬ ((whole.map digit).head? = some 0 ∧ 1 < (whole.map digit).length) := by
    rintro ⟨hhead, hlength⟩
    obtain ⟨c, cs, rfl⟩ := List.exists_cons_of_ne_nil hds.1
    have hc : c = '0' :=
      eq_zero_of_digit_eq_zero (hds.2 c List.mem_cons_self) (Option.some.inj hhead)
    rw [hzero (congrArg some hc)] at hlength
    exact absurd hlength (by simp)
  rw [integer, digits₁_append hds hr, Outcome.ok_bind]
  dsimp only
  rw [if_neg hnot]
  rfl

theorem exists_fraction_append {part text : List Char} (h : IsFraction part) (ht : Stops text)
    (hpoint : text.head? ≠ some '.') :
  ∃ ds, fraction (part ++ text) = .ok (ds, text)
  := by
  cases h with
  | missing =>
    use []
    rw [List.nil_append, fraction.eq_def]
    split
    · exact absurd rfl hpoint
    · rfl
  | point h => exact ⟨_, digits₁_append h ht⟩

theorem exists_exponent_append {power rest : List Char} (h : IsExponent power) (hr : Ends rest) :
  ∃ n, exponent (power ++ rest) = .ok (n, rest)
  := by
  cases h with
  | missing =>
    cases rest with
    | nil => exact ⟨0, rfl⟩
    | cons c cs =>
      have hc : ¬ (c = 'e' ∨ c = 'E') := by
        rintro (rfl | rfl)
        all_goals exact absurd (hr _ rfl) (by decide)
      exact ⟨0, by rw [List.nil_append, exponent, if_neg hc]⟩
  | @power e sign ds he hs h =>
    have hread := digits₁_append h (stops_of_ends hr)
    rw [List.cons_append, exponent, if_pos he, List.append_assoc]
    obtain rfl | rfl | rfl := hs
    · obtain ⟨c, cs, rfl⟩ := List.exists_cons_of_ne_nil h.1
      have hc : c.isDigit := h.2 c List.mem_cons_self
      rw [List.nil_append, signed.eq_def]
      split
      · next heq =>
        obtain rfl := (List.cons.inj heq).1
        exact absurd hc (by decide)
      · next heq =>
        obtain rfl := (List.cons.inj heq).1
        exact absurd hc (by decide)
      · exact ⟨_, by rw [hread]; rfl⟩
    · exact ⟨_, by rw [List.singleton_append, signed, hread]; rfl⟩
    · exact ⟨_, by rw [List.singleton_append, signed, hread]; rfl⟩

theorem head?_exponent_ne {power rest : List Char} (h : IsExponent power) (hr : Ends rest) :
  (power ++ rest).head? ≠ some '.'
  := by
  intro hhead
  cases h with
  | missing => exact absurd (hr '.' hhead) (by decide)
  | power he =>
    obtain rfl := Option.some.inj hhead
    exact absurd he (by decide)

/-- A sign does not change where a number ends. -/
theorem scan_minus {text : List Char} (h : text.head? ≠ some '-') :
  scan ('-' :: text) = scan text
  := by
  have hne : ∀ rest, text = '-' :: rest → False := by
    rintro rest rfl
    exact h rfl
  rw [scan, scan.eq_2 text hne]

/-- A number is scanned to its last character. -/
theorem scan_append {chars rest : List Char} (h : IsNumber chars) (hr : Ends rest) :
  ∃ m, scan (chars ++ rest) = .ok (m, rest)
  := by
  obtain @⟨sign, whole, part, power, hs, hw, hp, he⟩ := h
  have hpower := stops_exponent he hr
  have hpart := stops_fraction hp hpower
  obtain ⟨ds, hds⟩ := exists_fraction_append hp hpower (head?_exponent_ne he hr)
  obtain ⟨n, hn⟩ := exists_exponent_append he hr
  have hhead : (whole ++ (part ++ (power ++ rest))).head? ≠ some '-' := by
    obtain ⟨c, cs, rfl⟩ := List.exists_cons_of_ne_nil hw.1.1
    rintro hc
    obtain rfl := Option.some.inj hc
    exact absurd (hw.1.2 _ List.mem_cons_self) (by decide)
  have htext : scan (sign ++ (whole ++ (part ++ power)) ++ rest)
      = scan (whole ++ (part ++ (power ++ rest))) := by
    simp only [List.append_assoc]
    obtain rfl | rfl := hs
    · rfl
    · exact scan_minus hhead
  rw [htext, scan, integer_append hw hpart, Outcome.ok_bind]
  · dsimp only
    rw [hds, Outcome.ok_bind]
    dsimp only
    rw [hn]
    exact ⟨_, rfl⟩
  · intro text heq
    exact hhead (by rw [heq]; rfl)

end Number
end Localization.Json

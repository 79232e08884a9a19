import Localization.Proofs.Attribute.Entries

/-!
# The first attribute of a name

`Attribute.StandsFirst` says which value an attribute has at the first place of a text where an
attribute of its name stands.  This is the value that is found, and where no attribute of the
name stands, none is found (`value?_eq_some_iff`, `value?_eq_none_iff`).  In a value every quote
of the kind that encloses it is escaped, and the quote that closes it is not
(`Units.escapes`).
-/

namespace Localization

namespace Attribute

/-! ### Escapes -/

/-- The text ends with an odd number of backslashes, and so it escapes the character after it. -/
def Escapes (text : List Char) : Prop :=
  (text.reverse.takeWhile (· = '\\')).length % 2 = 1

instance (text : List Char) : Decidable (Escapes text) :=
  inferInstanceAs (Decidable (_ = 1))

/-- What stands before the backslashes at the end of a text does not matter, if it escapes
nothing itself. -/
theorem escapes_append_iff {s : List Char} (hs : ¬ Escapes s) (text : List Char) :
  Escapes (s ++ text) ↔ Escapes text
  := by
  rw [Escapes, Escapes, List.reverse_append, List.takeWhile_append]
  split
  · next h =>
    rw [Escapes] at hs
    rw [List.length_append, h]
    omega
  · rfl

variable {quote : Char} {name value text : List Char}

theorem Units.newline_not_mem (h : Units quote value) :
  '\n' ∉ value
  := by
  induction h with
  | nil => apply List.not_mem_nil
  | plain _ _ hn _ ih =>
    rw [List.mem_cons, not_or]
    use hn.symm, ih
  | escaped hn _ ih =>
    rw [List.mem_cons, List.mem_cons, not_or, not_or]
    use by decide, hn.symm, ih

/-- Each quote in a row of units is escaped, and the quote after it is not. -/
theorem Units.escapes (h : Units quote value) (hq : isQuote quote) :
  (∀ s t, value = s ++ quote :: t → Escapes s) ∧ ¬ Escapes value
  := by
  have hb := ne_backslash_of_isQuote hq
  induction h with
  | nil =>
    constructor
    · intro s t h
      simp at h
    · decide
  | @plain c cs hc hcb _ _ ih =>
    have hs : ¬ Escapes [c] := by simp [Escapes, hcb]
    constructor
    · intro s t h
      cases s with
      | nil => apply absurd (List.cons.inj h).1 hc
      | cons d s =>
        rw [List.cons_append, List.cons.injEq] at h
        obtain ⟨rfl, h⟩ := h
        apply (escapes_append_iff hs s).2 (ih.1 s t h)
    · apply mt (escapes_append_iff hs cs).1 ih.2
  | @escaped c cs _ _ ih =>
    have hs : ¬ Escapes ['\\', c] := by
      by_cases hc : c = '\\'
      · simp [Escapes, hc]
      · simp [Escapes, hc]
    constructor
    · intro s t h
      cases s with
      | nil => apply absurd (List.cons.inj h).1.symm hb
      | cons d s =>
        rw [List.cons_append, List.cons.injEq] at h
        obtain ⟨rfl, h⟩ := h
        cases s with
        | nil => decide
        | cons d s =>
          rw [List.cons_append, List.cons.injEq] at h
          obtain ⟨rfl, h⟩ := h
          apply (escapes_append_iff hs s).2 (ih.1 s t h)
    · apply mt (escapes_append_iff hs cs).1 ih.2

/-! ### The first place -/

/-- At the first place of the text where an attribute of this name stands, its value is this
one. -/
def StandsFirst (name value text : List Char) : Prop :=
  ∃ front rest, text = front ++ rest ∧ StandsAt name value rest
    ∧ ∀ s, s ≠ [] → s <:+ front → ∀ other, ¬ StandsAt name other (s ++ rest)

theorem not_standsAt_nil : ¬ StandsAt name value [] := by
  rintro ⟨b, quote, rest, -, -, -, h⟩
  cases h

theorem StandsFirst.of_standsAt (h : StandsAt name value text) :
  StandsFirst name value text
  := by
  use [], text, rfl, h
  intro s hs ht
  apply absurd (List.suffix_nil.1 ht) hs

theorem StandsFirst.cons {c : Char} (h : StandsFirst name value text)
    (hc : ∀ other, ¬ StandsAt name other (c :: text)) :
  StandsFirst name value (c :: text)
  := by
  obtain ⟨front, rest, rfl, hv, hf⟩ := h
  use c :: front, rest, rfl, hv
  intro s hs ht
  obtain rfl | ht := List.suffix_cons_iff.1 ht
  · apply hc
  · apply hf s hs ht

/-- What is found is the value at the first place where an attribute of the name stands. -/
theorem value?_eq_some_iff :
  value? name text = some value ↔ StandsFirst name value text
  := by
  constructor
  · intro h
    induction text with
    | nil => cases h
    | cons c cs ih =>
      rw [value?, Option.or_eq_some_iff] at h
      obtain h | ⟨hc, h⟩ := h
      · apply StandsFirst.of_standsAt (valueAt?_eq_some_iff.1 h)
      · apply (ih h).cons (valueAt?_eq_none_iff.1 hc)
  · rintro ⟨front, rest, rfl, hv, hf⟩
    rw [value?_append hf]
    cases rest with
    | nil => apply absurd hv not_standsAt_nil
    | cons c cs => rw [value?, valueAt?_eq_some_iff.2 hv, Option.some_or]

/-- Nothing is found where no attribute of the name stands. -/
theorem value?_eq_none_iff :
  value? name text = none ↔ ∀ s, s <:+ text → ∀ value, ¬ StandsAt name value s
  := by
  induction text with
  | nil => simp [value?, not_standsAt_nil]
  | cons c cs ih =>
    rw [value?, Option.or_eq_none_iff, valueAt?_eq_none_iff, ih]
    constructor
    · rintro ⟨hc, hcs⟩ s hs
      obtain rfl | hs := List.suffix_cons_iff.1 hs
      · apply hc
      · apply hcs s hs
    · intro h
      use h _ List.suffix_rfl
      intro s hs
      apply h s (hs.trans (List.suffix_cons c cs))

end Attribute

/-! ### The attributes of a marker -/

namespace Attributes

variable {name : List Char}

/-- The attribute of a name is read at the first place of the marker where it stands, and is
missing where it stands nowhere.  Its value holds no line break, each quote in it of the kind that
encloses it is escaped, and the one that closes it is not. -/
theorem lookup_ofMarker_first (marker : List Char) (hn : name ∈ names) :
  (∀ value, (ofMarker marker).entries.lookup name = some value
      ↔ Attribute.StandsFirst name value marker)
    ∧ ((ofMarker marker).entries.lookup name = none
      ↔ ∀ s, s <:+ marker → ∀ value, ¬ Attribute.StandsAt name value s)
    ∧ ∀ value, (ofMarker marker).entries.lookup name = some value →
      ∃ front b quote rest, Text.isBlank b ∧ Attribute.isQuote quote
        ∧ marker = front ++ b :: (name ++ '=' :: quote :: (value ++ quote :: rest))
        ∧ '\n' ∉ value ∧ (∀ s t, value = s ++ quote :: t → Attribute.Escapes s)
        ∧ ¬ Attribute.Escapes value
  := by
  rw [lookup_entries_ofMarker marker hn]
  refine ⟨fun _ => Attribute.value?_eq_some_iff, Attribute.value?_eq_none_iff, ?_⟩
  intro value h
  obtain ⟨front, _, rfl, ⟨b, quote, rest, hb, hq, hu, rfl⟩, -⟩ := Attribute.value?_eq_some_iff.1 h
  use front, b, quote, rest, hb, hq, rfl, hu.newline_not_mem
  apply hu.escapes hq

/-- Before the id of this marker one stands without quotes, one is not closed on its line, and
one has no blank before it. -/
theorem standsFirst_id_escaped :
  "id".toList ∈ names ∧ Attribute.StandsFirst "id".toList "it\\'s".toList
    "<T id=3 id=\"a\n data-id='b' id='it\\'s' id='c'/>".toList
  := by
  have hn : "id".toList ∈ names := by decide
  use hn
  apply ((lookup_ofMarker_first _ hn).1 _).1
  decide +kernel

end Attributes
end Localization

import Localization.Attribute
import Localization.Proofs.Text.Cutting
import Mathlib.Data.List.Basic

/-!
# Attributes as they are spelled

`Attribute.Units` are the rows of units that can be enclosed in a quote, and
`unitsBefore?_append` reads them back up to the quote that closes them.  An
`Attribute.Spelling` is an attribute as it stands in a marker, after blank characters.
`StandsAt` says that a whole attribute begins a text.  Looking for an attribute, `value?` stops
at a spelling of that name (`value?_chars_append`) and passes by a spelling of another name
(`value?_chars_append_of_ne`), provided that no attribute seems to stand in the value of the
latter, as when that value is `Silent` about the name.
-/

namespace Localization.Attribute

/-! ### Values -/

/-- A row of units inside quotes: characters other than the quote, the backslash and the line
break, and backslashes each followed by a character other than the line break. -/
inductive Units (quote : Char) : List Char → Prop where
  | nil : Units quote []
  | plain {c : Char} {cs : List Char} (hq : c ≠ quote) (hb : c ≠ '\\') (hn : c ≠ '\n')
      (h : Units quote cs) : Units quote (c :: cs)
  | escaped {c : Char} {cs : List Char} (hn : c ≠ '\n') (h : Units quote cs) :
      Units quote ('\\' :: c :: cs)

theorem ne_backslash_of_isQuote {quote : Char} (h : isQuote quote) :
  quote ≠ '\\'
  := by
  rintro rfl
  simp [isQuote] at h

theorem not_isBlank_of_isQuote {quote : Char} (h : isQuote quote) :
  Text.isBlank quote = false
  := by
  simp only [isQuote, Bool.or_eq_true, beq_iff_eq] at h
  obtain rfl | rfl := h
  · decide
  · decide

theorem unitsBefore?_cons {quote c : Char} (hb : c ≠ '\\') (cs : List Char) :
  unitsBefore? quote (c :: cs)
    = if c = quote then some []
      else if c = '\n' then none
      else (unitsBefore? quote cs).map (c :: ·)
  := by
  cases cs <;> simp [unitsBefore?, hb]

/-- A row of units is what stands before the quote that closes it. -/
theorem unitsBefore?_append {quote : Char} (hq : isQuote quote) {value : List Char}
    (h : Units quote value) (rest : List Char) :
  unitsBefore? quote (value ++ quote :: rest) = some value
  := by
  induction h with
  | nil => rw [List.nil_append, unitsBefore?_cons (ne_backslash_of_isQuote hq), if_pos rfl]
  | plain hcq hb hn h ih =>
    rw [List.cons_append, unitsBefore?_cons hb, if_neg hcq, if_neg hn, ih]
    rfl
  | escaped hn h ih =>
    rw [List.cons_append, List.cons_append, unitsBefore?, if_neg hn, ih]
    rfl

/-- What is read up to a closing quote is a row of units. -/
theorem units_of_unitsBefore? {quote : Char} {value : List Char} (text : List Char)
    (h : unitsBefore? quote text = some value) :
  Units quote value
  := by
  fun_induction unitsBefore? quote text generalizing value with
  | case1 => cases h
  | case2 => cases h
  | case3 c cs hn ih =>
    obtain ⟨v, hv, rfl⟩ := Option.map_eq_some_iff.1 h
    exact .escaped hn (ih hv)
  | case4 =>
    obtain rfl := Option.some.inj h
    exact .nil
  | case5 => cases h
  | case6 c cs _ hq hb ih =>
    obtain ⟨v, hv, rfl⟩ := Option.map_eq_some_iff.1 h
    rw [not_or] at hb
    exact .plain hq hb.1 hb.2 (ih hv)

/-- What is read up to a closing quote stands before that quote. -/
theorem exists_of_unitsBefore? {quote : Char} {value : List Char} (text : List Char)
    (h : unitsBefore? quote text = some value) :
  ∃ rest, text = value ++ quote :: rest
  := by
  fun_induction unitsBefore? quote text generalizing value with
  | case1 => cases h
  | case2 => cases h
  | case3 c cs hn ih =>
    obtain ⟨v, hv, rfl⟩ := Option.map_eq_some_iff.1 h
    obtain ⟨rest, rfl⟩ := ih hv
    exact ⟨rest, rfl⟩
  | case4 cs =>
    obtain rfl := Option.some.inj h
    exact ⟨cs, rfl⟩
  | case5 => cases h
  | case6 c cs _ hq hb ih =>
    obtain ⟨v, hv, rfl⟩ := Option.map_eq_some_iff.1 h
    obtain ⟨rest, rfl⟩ := ih hv
    exact ⟨rest, rfl⟩

/-! ### Where an attribute stands -/

/-- At the start of the text stands an attribute of this name with this value: a blank, the name,
`=` and the value in quotes. -/
def StandsAt (name value text : List Char) : Prop :=
  ∃ b quote rest, Text.isBlank b ∧ isQuote quote ∧ Units quote value
    ∧ text = b :: (name ++ '=' :: quote :: (value ++ quote :: rest))

theorem valueAt?_eq_some_iff {name value text : List Char} :
  valueAt? name text = some value ↔ StandsAt name value text
  := by
  constructor
  · intro h
    cases text with
    | nil => cases h
    | cons b cs =>
      rw [valueAt?] at h
      split at h
      · next hb =>
        obtain ⟨t, ht, hv⟩ := Option.bind_eq_some_iff.1 h
        obtain rfl := List.append_eq_of_isPrefixOf?_eq_some ht
        cases t with
        | nil => cases hv
        | cons quote t =>
          rw [quoted?] at hv
          split at hv
          · next hq =>
            obtain ⟨rest, rfl⟩ := exists_of_unitsBefore? t hv
            exact ⟨b, quote, rest, hb, hq, units_of_unitsBefore? _ hv, by simp⟩
          · cases hv
      · cases h
  · rintro ⟨b, quote, rest, hb, hq, hu, rfl⟩
    have hp : (name ++ ['=']).isPrefixOf?
        (name ++ '=' :: quote :: (value ++ quote :: rest))
          = some (quote :: (value ++ quote :: rest)) := by
      rw [List.isPrefixOf?_eq_some_iff_append_eq, List.append_assoc]
      rfl
    rw [valueAt?, if_pos hb, hp, Option.bind_some, quoted?, if_pos hq]
    apply unitsBefore?_append hq hu rest

/-- No attribute of this name stands at the start of the text. -/
theorem valueAt?_eq_none_iff {name text : List Char} :
  valueAt? name text = none ↔ ∀ value, ¬ StandsAt name value text
  := by
  simp only [Option.eq_none_iff_forall_ne_some, ne_eq, valueAt?_eq_some_iff]

/-! ### Looking for a name -/

/-- The text can be the name of an attribute: it is not empty and has no blanks, no `=`, no `/`
and no quotes. -/
def IsName (name : List Char) : Prop :=
  name ≠ [] ∧ ∀ c ∈ name, Text.isBlank c = false ∧ c ≠ '=' ∧ c ≠ '/' ∧ isQuote c = false

instance (name : List Char) : Decidable (IsName name) :=
  inferInstanceAs (Decidable (_ ∧ _))

/-- Nothing in the text looks like the beginning of an attribute of this name: nowhere does a
blank character stand with the name and `=` after it. -/
def Silent (name text : List Char) : Prop :=
  ∀ b, Text.isBlank b → ¬ b :: (name ++ ['=']) <:+: text

instance (name text : List Char) : Decidable (Silent name text) :=
  decidable_of_iff (∀ b ∈ text, Text.isBlank b → ¬ b :: (name ++ ['=']) <:+: text)
    ⟨fun h b hb hi => h b (hi.subset List.mem_cons_self) hb hi, fun h b _ => h b⟩

variable {name : List Char}

/-- Where an attribute stands, a blank, the name and `=` stand. -/
theorem StandsAt.exists_prefix {value text : List Char} (h : StandsAt name value text) :
  ∃ b, Text.isBlank b ∧ b :: (name ++ ['=']) <+: text
  := by
  obtain ⟨b, quote, rest, hb, -, -, rfl⟩ := h
  exact ⟨b, hb, quote :: (value ++ quote :: rest), by simp⟩

/-- Where no attribute of the name stands in a text, the search goes on behind it. -/
theorem value?_append {text rest : List Char}
    (h : ∀ s, s ≠ [] → s <:+ text → ∀ value, ¬ StandsAt name value (s ++ rest)) :
  value? name (text ++ rest) = value? name rest
  := by
  induction text with
  | nil => rfl
  | cons c cs ih =>
    have hc : valueAt? name (c :: (cs ++ rest)) = none :=
      valueAt?_eq_none_iff.2 (h (c :: cs) (List.cons_ne_nil c cs) List.suffix_rfl)
    have hcs := ih fun s hs ht => h s hs (ht.trans (List.suffix_cons c cs))
    rw [List.cons_append, value?, hc, hcs, Option.none_or]

theorem value?_append_of_forall {text rest : List Char}
    (h : ∀ b, Text.isBlank b → ∀ s, s ≠ [] → s <:+ text → ¬ b :: (name ++ ['=']) <+: s ++ rest) :
  value? name (text ++ rest) = value? name rest
  := by
  apply value?_append
  intro s hs ht value hv
  obtain ⟨b, hb, hp⟩ := hv.exists_prefix
  exact h b hb s hs ht hp

theorem value?_append_of_not_blank {text rest : List Char}
    (h : ∀ c ∈ text, Text.isBlank c = false) :
  value? name (text ++ rest) = value? name rest
  := by
  apply value?_append_of_forall
  intro b hb s hs ht hp
  obtain ⟨c, cs, rfl⟩ := List.exists_cons_of_ne_nil hs
  obtain ⟨rfl, -⟩ := List.cons_prefix_cons.1 hp
  rw [h b (ht.subset List.mem_cons_self)] at hb
  cases hb

theorem value?_cons_of_not_blank {c : Char} {rest : List Char} (h : Text.isBlank c = false) :
  value? name (c :: rest) = value? name rest
  := by
  change value? name ([c] ++ rest) = value? name rest
  apply value?_append_of_not_blank
  intro d hd
  obtain rfl := List.mem_singleton.1 hd
  exact h

theorem Silent.not_standsAt {text rest : List Char} (h : Silent name text)
    (hr : ∀ c ∈ rest.head?, c ∉ name ++ ['=']) (s : List Char) (hs : s ≠ []) (ht : s <:+ text)
    (value : List Char) :
  ¬ StandsAt name value (s ++ rest)
  := by
  intro hv
  obtain ⟨b, hb, hp⟩ := hv.exists_prefix
  exact Text.not_prefix_append (h b hb) hr hs ht hp

theorem IsName.not_prefix_of_blank (hn : IsName name) {b : Char} (hb : Text.isBlank b)
    (text : List Char) :
  ¬ name ++ ['='] <+: b :: text
  := by
  obtain ⟨c, cs, rfl⟩ := List.exists_cons_of_ne_nil hn.1
  intro h
  obtain ⟨rfl, -⟩ := List.cons_prefix_cons.1 h
  rw [(hn.2 c List.mem_cons_self).1] at hb
  cases hb

theorem IsName.quote_not_mem (hn : IsName name) {quote : Char} (hq : isQuote quote) :
  quote ∉ name ++ ['=']
  := by
  rw [List.mem_append, List.mem_singleton, not_or]
  constructor
  · intro hm
    rw [(hn.2 _ hm).2.2.2] at hq
    cases hq
  · rintro rfl
    simp [isQuote] at hq

/-- Blanks are passed by when the name and `=` do not follow them. -/
theorem value?_blanks_append (hn : IsName name) {blanks rest : List Char}
    (hb : ∀ c ∈ blanks, Text.isBlank c) (h : ¬ name ++ ['='] <+: rest) :
  value? name (blanks ++ rest) = value? name rest
  := by
  apply value?_append_of_forall
  intro b _ s hs ht hp
  obtain ⟨c, s, rfl⟩ := List.exists_cons_of_ne_nil hs
  obtain ⟨rfl, hname⟩ := List.cons_prefix_cons.1 hp
  cases s with
  | nil => exact h hname
  | cons d s =>
    have hd : Text.isBlank d := hb d (ht.subset (by simp))
    apply hn.not_prefix_of_blank hd _ hname

/-! ### Spellings -/

/-- An attribute as it is spelled in a marker: blanks, a name, `=` and a value in quotes. -/
structure Spelling where
  blanks : List Char
  name : List Char
  quote : Char
  value : List Char

namespace Spelling

/-- The characters of a spelling. -/
def chars (a : Spelling) : List Char :=
  a.blanks ++ (a.name ++ '=' :: a.quote :: (a.value ++ [a.quote]))

/-- At least one blank stands before the name, and the value is a row of units in one of the
quotes. -/
structure IsValid (a : Spelling) : Prop where
  blanks_ne_nil : a.blanks ≠ []
  isBlank : ∀ c ∈ a.blanks, Text.isBlank c
  isQuote : Attribute.isQuote a.quote
  units : Units a.quote a.value

/-- At least one blank stands before the name, and the value is in quotes, whatever it is. -/
structure IsQuoted (a : Spelling) : Prop where
  blanks_ne_nil : a.blanks ≠ []
  isBlank : ∀ c ∈ a.blanks, Text.isBlank c
  isQuote : Attribute.isQuote a.quote

instance (a : Spelling) : Decidable a.IsValid :=
  decidable_of_iff
    (a.blanks ≠ [] ∧ (∀ c ∈ a.blanks, Text.isBlank c) ∧ Attribute.isQuote a.quote
      ∧ unitsBefore? a.quote (a.value ++ [a.quote]) = some a.value)
    ⟨fun ⟨hn, hb, hq, hu⟩ => ⟨hn, hb, hq, units_of_unitsBefore? _ hu⟩,
      fun h => ⟨h.blanks_ne_nil, h.isBlank, h.isQuote, unitsBefore?_append h.isQuote h.units []⟩⟩

instance (a : Spelling) : Decidable a.IsQuoted :=
  decidable_of_iff
    (a.blanks ≠ [] ∧ (∀ c ∈ a.blanks, Text.isBlank c) ∧ Attribute.isQuote a.quote)
    ⟨fun ⟨hn, hb, hq⟩ => ⟨hn, hb, hq⟩, fun h => ⟨h.blanks_ne_nil, h.isBlank, h.isQuote⟩⟩

variable {a : Spelling}

theorem IsValid.isQuoted (h : a.IsValid) :
  a.IsQuoted
  := ⟨h.blanks_ne_nil, h.isBlank, h.isQuote⟩

theorem chars_append (rest : List Char) :
  a.chars ++ rest = a.blanks ++ (a.name ++ '=' :: a.quote :: (a.value ++ a.quote :: rest))
  := by
  simp [chars]

/-- The search for a name ends at a spelling of that name. -/
theorem value?_chars_append (h : a.IsValid) (ha : IsName a.name) (rest : List Char) :
  value? a.name (a.chars ++ rest) = some a.value
  := by
  obtain ⟨bs, b, hbs⟩ := (List.eq_nil_or_concat' a.blanks).resolve_left h.blanks_ne_nil
  have hb : Text.isBlank b := h.isBlank b (by simp [hbs])
  rw [chars_append, hbs, List.append_assoc, List.singleton_append,
    value?_blanks_append ha _ (ha.not_prefix_of_blank hb _), value?,
    valueAt?_eq_some_iff.2 ⟨b, a.quote, rest, hb, h.isQuote, h.units, rfl⟩]
  · rfl
  · intro c hc
    apply h.isBlank
    simp [hbs, hc]

theorem takeWhile_ne_append (hn : IsName name) (rest : List Char) :
  (name ++ '=' :: rest).takeWhile (· != '=') = name
  := by
  rw [List.takeWhile_append_of_pos]
  · simp
  · intro c hc
    exact bne_iff_ne.2 (hn.2 c hc).2.1

/-- Two names that are each followed by `=` at the same place are equal. -/
theorem eq_of_prefix_append {name' rest : List Char} (h : IsName name) (h' : IsName name')
    (hp : name ++ ['='] <+: name' ++ '=' :: rest) :
  name = name'
  := by
  obtain ⟨t, ht⟩ := hp
  rw [List.append_assoc, List.singleton_append] at ht
  calc name = (name ++ '=' :: t).takeWhile (· != '=') := (takeWhile_ne_append h t).symm
    _ = (name' ++ '=' :: rest).takeWhile (· != '=') := by rw [ht]
    _ = name' := takeWhile_ne_append h' rest

/-- The search for a name passes by a spelling of another name in whose value no attribute of the
name seems to stand. -/
theorem value?_chars_append_of_ne (h : a.IsValid) (ha : IsName a.name) (hn : IsName name)
    (hne : a.name ≠ name) {rest : List Char}
    (hs : ∀ s, s ≠ [] → s <:+ a.value → ∀ value, ¬ StandsAt name value (s ++ a.quote :: rest)) :
  value? name (a.chars ++ rest) = value? name rest
  := by
  have hq : Text.isBlank a.quote = false := not_isBlank_of_isQuote h.isQuote
  rw [chars_append, value?_blanks_append hn h.isBlank fun hp =>
      hne (eq_of_prefix_append hn ha hp).symm,
    value?_append_of_not_blank fun c hc => (ha.2 c hc).1,
    value?_cons_of_not_blank (by decide), value?_cons_of_not_blank hq,
    value?_append hs, value?_cons_of_not_blank hq]

end Spelling
end Localization.Attribute

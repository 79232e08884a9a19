import Localization.Marker
import Localization.Proofs.Attribute.Spelling
import Localization.Proofs.Table.Lookup

/-!
# Markers as they are spelled

A `Marker.Spelling` is a marker as it stands in a source: `<` and the name of the component,
spelled attributes, blanks and `/>`.  `length?_chars_append` says that the marker that begins
with a spelling ends with it, and `value?_chars` that an attribute of it is the one that was
written, when no other value leads astray (`Undisturbed`).  In a `Marker.IsGap` no marker begins,
whatever comes after it (`length?_gap_append`).
-/

namespace Localization

/-- The name of the component holds neither blanks nor `<`. -/
def Component.IsPlain (component : Component) : Prop :=
  ∀ c ∈ component.name.toList, Text.isBlank c = false ∧ c ≠ '<'

instance (component : Component) : Decidable component.IsPlain :=
  inferInstanceAs (Decidable (∀ c ∈ component.name.toList, Text.isBlank c = false ∧ c ≠ '<'))

namespace Marker

/-- What an element of the component begins with. -/
def opening (component : Component) : List Char :=
  '<' :: component.name.toList

/-- Nowhere in the text is `<` and the name of the component directly followed by a blank
character or by `/>`. -/
structure IsGap (component : Component) (text : List Char) : Prop where
  not_blank : ∀ b, Text.isBlank b → ¬ opening component ++ [b] <:+: text
  not_close : ¬ opening component ++ close <:+: text

instance (component : Component) (text : List Char) : Decidable (IsGap component text) :=
  decidable_of_iff
    ((∀ b ∈ text, Text.isBlank b → ¬ opening component ++ [b] <:+: text)
      ∧ ¬ opening component ++ close <:+: text)
    ⟨fun ⟨hb, hc⟩ => ⟨fun b h hi => hb b (hi.subset (by simp)) h hi, hc⟩,
      fun ⟨hb, hc⟩ => ⟨fun b _ => hb b, hc⟩⟩

/-! ### The end of a marker -/

theorem close_ne_nil : close ≠ [] := List.cons_ne_nil _ _

theorem not_close_append_of_notMem {s t : List Char} (hs : '/' ∉ s) (ht : ¬ close <:+: t) :
  ¬ close <:+: s ++ t
  := by
  intro h
  obtain h | h | ⟨h, -⟩ := Text.pair_infix_append_iff.1 h
  · apply hs (h.subset (by simp))
  · apply ht h
  · apply hs (List.mem_of_getLast? h)

theorem slash_ne_of_isBlank {c : Char} (h : Text.isBlank c) :
  c ≠ '/'
  := by
  rintro rfl
  revert h
  decide

theorem tailLength?_close_append (rest : List Char) :
  tailLength? (close ++ rest) = some close.length
  := by
  have hb : Text.isBlank '/' = false := by decide
  rw [close, List.cons_append, tailLength?, if_neg (by simp [hb]), if_pos]
  · rfl
  · simp [close]

/-- A blank and what follows it end with the first `/>`. -/
theorem tailLength?_blank_append {b : Char} (hb : Text.isBlank b) {text : List Char}
    (ht : ¬ close <:+: text) (rest : List Char) :
  tailLength? (b :: (text ++ (close ++ rest))) = some (1 + text.length + close.length)
  := by
  have hi : Text.indexOf? close (text ++ (close ++ rest)) = some text.length := by
    apply Text.indexOf?_append close_ne_nil
    intro s hs hst
    apply Text.not_prefix_append ht _ hs hst
    intro c hc
    obtain rfl := Option.some.inj hc
    decide
  rw [tailLength?, if_pos hb, hi]
  rfl

/-! ### The beginning of a marker -/

variable {component : Component} {before : Option Char}

theorem length?_opening_append (rest : List Char) :
  length? component before (opening component ++ rest)
    = (tailLength? rest).map ((opening component).length + ·)
  := by
  have hp : (opening component).isPrefixOf? (opening component ++ rest) = some rest := by
    rw [List.isPrefixOf?_eq_some_iff_append_eq]
  rw [length?, ← opening, hp]
  rfl

theorem length?_eq_none_of_not_begins {text : List Char} (h : ¬ opening component <+: text) :
  length? component before text = none
  := by
  have hn : (opening component).isPrefixOf? text = none := by
    rw [Option.eq_none_iff_forall_ne_some]
    intro rest hr
    apply h ⟨rest, List.append_eq_of_isPrefixOf?_eq_some hr⟩
  rw [length?, ← opening, hn]
  rfl

/-- No marker begins where neither a blank nor `/>` follows `<` and the name. -/
theorem length?_eq_none {text : List Char}
    (hb : ∀ b, Text.isBlank b → ¬ opening component ++ [b] <+: text)
    (hc : ¬ opening component ++ close <+: text) :
  length? component before text = none
  := by
  by_cases hp : opening component <+: text
  · obtain ⟨rest, rfl⟩ := hp
    rw [List.prefix_append_right_inj] at hc
    rw [length?_opening_append]
    cases rest with
    | nil => rfl
    | cons c cs =>
      have hcb : ¬ Text.isBlank c := fun h => hb c h ((List.prefix_append_right_inj _).2 (by simp))
      rw [tailLength?, if_neg hcb, if_neg (mt List.isPrefixOf_iff_prefix.1 hc)]
      rfl
  · exact length?_eq_none_of_not_begins hp

/-- In a gap that is followed by nothing or by `<` no marker begins. -/
theorem length?_gap_append (hc : component.IsPlain) {gap rest s : List Char}
    (hg : IsGap component gap) (hr : ∀ c ∈ rest.head?, c = '<') (hs : s ≠ []) (ht : s <:+ gap) :
  length? component before (s ++ rest) = none
  := by
  apply length?_eq_none
  · intro b hb
    apply Text.not_prefix_append (hg.not_blank b hb) _ hs ht
    intro c hcr
    obtain rfl := hr c hcr
    rw [opening, List.cons_append, List.tail_cons, List.mem_append, List.mem_singleton]
    rintro (hm | rfl)
    · exact (hc _ hm).2 rfl
    · revert hb
      decide
  · apply Text.not_prefix_append hg.not_close _ hs ht
    intro c hcr
    obtain rfl := hr c hcr
    rw [opening, List.cons_append, List.tail_cons, List.mem_append]
    rintro (hm | hm)
    · exact (hc _ hm).2 rfl
    · revert hm
      decide

/-! ### Spellings -/

/-- A marker as it is spelled in a source: attributes, and blanks before its end. -/
structure Spelling where
  attributes : List Attribute.Spelling
  blanks : List Char

namespace Spelling

/-- What stands between the name of the component and the final `/>`. -/
def inner (m : Spelling) : List Char :=
  m.attributes.flatMap Attribute.Spelling.chars ++ m.blanks

/-- The characters of a spelling. -/
def chars (component : Component) (m : Spelling) : List Char :=
  opening component ++ (m.inner ++ close)

/-- The attributes are well spelled and no value holds `/>`. -/
structure IsValid (m : Spelling) : Prop where
  isBlank : ∀ c ∈ m.blanks, Text.isBlank c
  isName : ∀ a ∈ m.attributes, Attribute.IsName a.name
  isValid : ∀ a ∈ m.attributes, a.IsValid
  not_close : ∀ a ∈ m.attributes, ¬ close <:+: a.value

/-- The attributes have names and values in quotes, and no value holds `/>`. -/
structure IsWellFormed (m : Spelling) : Prop where
  isBlank : ∀ c ∈ m.blanks, Text.isBlank c
  isName : ∀ a ∈ m.attributes, Attribute.IsName a.name
  isQuoted : ∀ a ∈ m.attributes, a.IsQuoted
  not_close : ∀ a ∈ m.attributes, ¬ close <:+: a.value

instance (m : Spelling) : Decidable m.IsValid :=
  decidable_of_iff
    ((∀ c ∈ m.blanks, Text.isBlank c) ∧ (∀ a ∈ m.attributes, Attribute.IsName a.name)
      ∧ (∀ a ∈ m.attributes, a.IsValid) ∧ ∀ a ∈ m.attributes, ¬ close <:+: a.value)
    ⟨fun ⟨hb, hn, hv, hc⟩ => ⟨hb, hn, hv, hc⟩,
      fun h => ⟨h.isBlank, h.isName, h.isValid, h.not_close⟩⟩

instance (m : Spelling) : Decidable m.IsWellFormed :=
  decidable_of_iff
    ((∀ c ∈ m.blanks, Text.isBlank c) ∧ (∀ a ∈ m.attributes, Attribute.IsName a.name)
      ∧ (∀ a ∈ m.attributes, a.IsQuoted) ∧ ∀ a ∈ m.attributes, ¬ close <:+: a.value)
    ⟨fun ⟨hb, hn, hq, hc⟩ => ⟨hb, hn, hq, hc⟩,
      fun h => ⟨h.isBlank, h.isName, h.isQuoted, h.not_close⟩⟩

variable {m : Spelling}

theorem IsValid.isWellFormed (h : m.IsValid) :
  m.IsWellFormed
  where
  isBlank := h.isBlank
  isName := h.isName
  isQuoted a ha := (h.isValid a ha).isQuoted
  not_close := h.not_close

theorem not_close_chars_append {a : Attribute.Spelling} (h : a.IsQuoted)
    (hn : Attribute.IsName a.name) (hv : ¬ close <:+: a.value) {rest : List Char}
    (hr : ¬ close <:+: rest) :
  ¬ close <:+: a.chars ++ rest
  := by
  have hq : a.quote = '\'' ∨ a.quote = '"' := by simpa [Attribute.isQuote] using h.isQuote
  have hqs : '/' ∉ [a.quote] := by
    obtain hq | hq := hq
    · simp [hq]
    · simp [hq]
  have hvr : ¬ close <:+: a.value ++ ([a.quote] ++ rest) := by
    intro hi
    obtain hi | hi | ⟨-, hi⟩ := Text.pair_infix_append_iff.1 hi
    · apply hv hi
    · apply not_close_append_of_notMem hqs hr hi
    · obtain hq | hq := hq
      · simp [hq] at hi
      · simp [hq] at hi
  rw [Attribute.Spelling.chars_append, show '=' :: a.quote :: (a.value ++ a.quote :: rest)
    = ['=', a.quote] ++ (a.value ++ ([a.quote] ++ rest)) from rfl]
  apply not_close_append_of_notMem fun hm => slash_ne_of_isBlank (h.isBlank _ hm) rfl
  apply not_close_append_of_notMem fun hm => (hn.2 _ hm).2.2.1 rfl
  apply not_close_append_of_notMem _ hvr
  rw [List.mem_cons, not_or]
  exact ⟨by decide, hqs⟩

theorem not_close_inner (h : m.IsWellFormed) :
  ¬ close <:+: m.inner
  := by
  obtain ⟨attributes, blanks⟩ := m
  obtain ⟨hb, hn, hv, hc⟩ := h
  change ∀ c ∈ blanks, Text.isBlank c at hb
  induction attributes with
  | nil =>
    intro hi
    apply slash_ne_of_isBlank (hb '/' (hi.subset (by simp [close]))) rfl
  | cons a as ih =>
    rw [inner, List.flatMap_cons, List.append_assoc]
    simp only [List.forall_mem_cons] at hn hv hc
    apply not_close_chars_append hv.1 hn.1 hc.1 (ih hn.2 hv.2 hc.2)

/-- What stands inside a marker is empty or begins with a blank. -/
theorem inner_eq (h : m.IsWellFormed) :
  m.inner = [] ∨ ∃ b text, Text.isBlank b ∧ m.inner = b :: text
  := by
  obtain ⟨attributes, blanks⟩ := m
  obtain ⟨hb, -, hv, -⟩ := h
  cases attributes with
  | nil =>
    cases blanks with
    | nil => exact Or.inl rfl
    | cons b bs => exact Or.inr ⟨b, bs, hb b List.mem_cons_self, rfl⟩
  | cons a as =>
    right
    have ha := hv a List.mem_cons_self
    obtain ⟨b, bs, hbs⟩ := List.exists_cons_of_ne_nil ha.blanks_ne_nil
    rw [inner, List.flatMap_cons, List.append_assoc, Attribute.Spelling.chars_append, hbs]
    exact ⟨b, _, ha.isBlank b (by simp [hbs]), rfl⟩

/-- A marker that begins with a spelling ends with it. -/
theorem length?_chars_append (h : m.IsWellFormed) (rest : List Char) :
  length? component before (m.chars component ++ rest) = some (m.chars component).length
  := by
  have hc := not_close_inner h
  rw [chars, List.append_assoc, length?_opening_append, List.append_assoc]
  obtain hi | ⟨b, text, hb, hi⟩ := inner_eq h
  · rw [hi, List.nil_append, List.nil_append, tailLength?_close_append]
    simp
  · rw [hi] at hc
    have ht : ¬ close <:+: text := fun ht => hc (ht.trans (List.suffix_cons b text).isInfix)
    rw [hi, List.cons_append, tailLength?_blank_append hb ht]
    simp only [Option.map_some, List.length_append, List.length_cons]
    congr 1
    omega

/-! ### The attributes of a spelling -/

/-- The names and values of the attributes, as they are written. -/
def entries (m : Spelling) : List (List Char × List Char) :=
  m.attributes.map fun a => (a.name, a.value)

/-- Nowhere inside a value that stands before all attributes of this name does an attribute of
the name seem to stand, reading on from there to the end of the marker. -/
def Undisturbed (name : List Char) (m : Spelling) : Prop :=
  ∀ front a back, m.attributes = front ++ a :: back → (∀ s ∈ front ++ [a], s.name ≠ name) →
    ∀ s, s ≠ [] → s <:+ a.value → ∀ value,
      ¬ Attribute.StandsAt name value (s ++ a.quote :: (inner ⟨back, m.blanks⟩ ++ close))

theorem Undisturbed.tail {name blanks : List Char} {a : Attribute.Spelling}
    {as : List Attribute.Spelling} (h : Undisturbed name ⟨a :: as, blanks⟩) (ha : a.name ≠ name) :
  Undisturbed name ⟨as, blanks⟩
  := by
  rintro front a' back rfl hf
  apply h (a :: front) a' back rfl
  rw [List.cons_append, List.forall_mem_cons]
  exact ⟨ha, hf⟩

theorem undisturbed_of_silent {name : List Char} (hn : Attribute.IsName name) (h : m.IsValid)
    (hs : ∀ a ∈ m.attributes, Attribute.Silent name a.value) :
  m.Undisturbed name
  := by
  intro front a back hm _
  have ha : a ∈ m.attributes := by simp [hm]
  apply (hs a ha).not_standsAt
  intro c hc
  obtain rfl := Option.some.inj hc
  apply hn.quote_not_mem (h.isValid a ha).isQuote

theorem value?_inner_append {name : List Char} (hn : Attribute.IsName name) (h : m.IsValid)
    (hu : m.Undisturbed name) :
  Attribute.value? name (m.inner ++ close) = m.entries.lookup name
  := by
  obtain ⟨attributes, blanks⟩ := m
  obtain ⟨hb, hns, hv, -⟩ := h
  change ∀ c ∈ blanks, Text.isBlank c at hb
  rw [entries]
  induction attributes with
  | nil =>
    have hp : ¬ name ++ ['='] <+: close := by
      intro hp
      have hm : '=' ∈ close := hp.subset (by simp)
      revert hm
      decide
    have hclose : ∀ c ∈ close, Text.isBlank c = false := by decide
    rw [inner, List.flatMap_nil, List.nil_append, Attribute.value?_blanks_append hn hb hp,
      ← List.append_nil close, Attribute.value?_append_of_not_blank hclose]
    rfl
  | cons a as ih =>
    have hinner : inner ⟨a :: as, blanks⟩ ++ close = a.chars ++ (inner ⟨as, blanks⟩ ++ close) := by
      simp [inner]
    rw [List.forall_mem_cons] at hns hv
    rw [hinner, List.map_cons, List.lookup_cons]
    by_cases hne : a.name = name
    · subst hne
      rw [Attribute.Spelling.value?_chars_append hv.1 hns.1, beq_self_eq_true]
    · have hne' : (name == a.name) = false := beq_false_of_ne fun he => hne he.symm
      have hs := hu [] a as rfl (by simpa using hne)
      rw [Attribute.Spelling.value?_chars_append_of_ne hv.1 hns.1 hn hne hs, hne']
      exact ih (hu.tail hne) hns.2 hv.2

/-- Looking for a name in an undisturbed spelling finds the first attribute of that name. -/
theorem value?_chars (hc : ∀ c ∈ component.name.toList, Text.isBlank c = false) {name : List Char}
    (hn : Attribute.IsName name) (h : m.IsValid) (hu : m.Undisturbed name) :
  Attribute.value? name (m.chars component) = m.entries.lookup name
  := by
  have hopen : ∀ c ∈ opening component, Text.isBlank c = false := by
    rw [opening, List.forall_mem_cons]
    exact ⟨by decide, hc⟩
  rw [chars, Attribute.value?_append_of_not_blank hopen, value?_inner_append hn h hu]

end Spelling
end Marker
end Localization

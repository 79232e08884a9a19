import Localization.Proofs.Attribute.Entries
import Localization.Proofs.Marker.Spelling

/-!
# Reading the attributes of a marker

An attribute is looked for in the text of its marker, and so it may be found inside the value of
another one (`not_forall_mem_entries_ofMarker_iff`).  Where no value before it leads astray, it
is read as it is written, and it is missing where none is written
(`mem_entries_ofMarker_chars_iff`).  A value leads nowhere astray in which, together with its
closing quote, no blank, name, `=` and quote stand in a row (`undisturbed_of_not_opens`).
-/

namespace Localization

/-! ### Values that lead nowhere astray -/

namespace Attribute

/-- Somewhere in the text stand a blank, the name, `=` and a quote. -/
def Opens (name text : List Char) : Prop :=
  ∃ b quote, Text.isBlank b ∧ isQuote quote ∧ b :: (name ++ ['=', quote]) <:+: text

instance (name text : List Char) : Decidable (Opens name text) :=
  decidable_of_iff
    (∃ b ∈ text, ∃ quote ∈ text, Text.isBlank b ∧ isQuote quote
      ∧ b :: (name ++ ['=', quote]) <:+: text)
    ⟨fun ⟨b, _, quote, _, h⟩ => ⟨b, quote, h⟩, fun ⟨b, quote, hb, hq, h⟩ =>
      ⟨b, h.subset (by simp), quote, h.subset (by simp), hb, hq, h⟩⟩

variable {name value : List Char}

/-- Where an attribute seems to stand in a value, its blank, its name, its `=` and its quote lie
in the value and the quote after it. -/
theorem StandsAt.opens (hn : IsName name) {quote : Char} (hq : isQuote quote)
    {s rest : List Char} (hs : s ≠ []) (h : StandsAt name value (s ++ quote :: rest)) :
  Opens name (s ++ [quote])
  := by
  have hr : ∀ c ∈ (quote :: rest).head?, c ∉ name ++ ['='] := by
    intro c hc
    obtain rfl := Option.some.inj hc
    exact hn.quote_not_mem hq
  obtain ⟨b, quote', rest', hb, hq', -, ht⟩ := h
  have hp : b :: (name ++ ['=']) <+: s ++ quote :: rest :=
    ⟨quote' :: (value ++ quote' :: rest'), by simp [ht]⟩
  obtain ⟨t, rfl⟩ := (Text.prefix_append_iff (by simpa using hr) hs).1 hp
  refine ⟨b, quote', hb, hq', List.IsPrefix.isInfix ?_⟩
  have ht' : t ++ quote :: rest = quote' :: (value ++ quote' :: rest') := by simpa using ht
  cases t with
  | nil =>
    obtain ⟨rfl, -⟩ := List.cons.inj ht'
    exact ⟨[], by simp⟩
  | cons c t =>
    obtain ⟨rfl, -⟩ := List.cons.inj ht'
    exact ⟨t ++ [quote], by simp⟩

end Attribute

namespace Marker.Spelling

variable {component : Component} {m : Spelling} {name : List Char}

theorem mem_takeWhile_of_forall {front back : List Attribute.Spelling} {a : Attribute.Spelling}
    (h : ∀ s ∈ front ++ [a], s.name ≠ name) :
  a ∈ (front ++ a :: back).takeWhile (·.name ≠ name)
  := by
  rw [← List.singleton_append, ← List.append_assoc, List.takeWhile_append_of_pos (by simpa using h)]
  simp

/-- A marker is undisturbed when no value before the attribute holds a blank, the name, `=` and a
quote, its own closing quote included. -/
theorem undisturbed_of_not_opens (hn : Attribute.IsName name) (h : m.IsValid)
    (ho : ∀ a ∈ m.attributes.takeWhile (·.name ≠ name),
      ¬ Attribute.Opens name (a.value ++ [a.quote])) :
  m.Undisturbed name
  := by
  intro front a back hm hf s hs ht value hv
  have ha : a ∈ m.attributes := by simp [hm]
  apply ho a
  · rw [hm]
    exact mem_takeWhile_of_forall hf
  · obtain ⟨b, quote, hb, hq, hi⟩ := hv.opens hn (h.isValid a ha).isQuote hs
    refine ⟨b, quote, hb, hq, hi.trans ?_⟩
    obtain ⟨t, ht⟩ := ht
    exact List.IsSuffix.isInfix ⟨t, by simp [← ht]⟩

/-! ### Reading a marker -/

theorem map_fst_entries (m : Spelling) :
  m.entries.map Prod.fst = m.attributes.map (·.name)
  := by
  rw [entries, List.map_map]
  rfl

/-- The attributes that describe a message are read as they are written, each where no value
before it leads astray. -/
theorem mem_entries_ofMarker_chars_iff (hc : ∀ c ∈ component.name.toList, Text.isBlank c = false)
    (h : m.IsValid) (hd : (m.attributes.map (·.name)).Nodup) (hn : name ∈ Attributes.names)
    (hu : m.Undisturbed name) (value : List Char) :
  (name, value) ∈ (Attributes.ofMarker (m.chars component)).entries ↔ (name, value) ∈ m.entries
  := by
  rw [← map_fst_entries] at hd
  rw [Attributes.mem_entries_ofMarker_iff _ hn,
    value?_chars hc (Attributes.isName_of_mem_names name hn) h hu, Table.lookup_eq_some_iff_mem hd]

/-- What looks like an id in the other values of this marker is not taken for its id. -/
theorem mem_entries_ofMarker_label :
  ("id".toList, ['a']) ∈ (Attributes.ofMarker ("<LocalizeText label=\"id='x'\" description=' id=3,"
    ++ " id=\\'4\\'' id=\"a\" defaultMessage=\" id='z'\"/>").toList).entries
  := by
  let marker : Spelling := ⟨[⟨[' '], "label".toList, '"', "id='x'".toList⟩,
    ⟨[' '], "description".toList, '\'', " id=3, id=\\'4\\'".toList⟩,
    ⟨[' '], "id".toList, '"', ['a']⟩,
    ⟨[' '], "defaultMessage".toList, '"', " id='z'".toList⟩], []⟩
  have hmarker : marker.IsValid := by decide +kernel
  have hu : marker.Undisturbed "id".toList :=
    undisturbed_of_not_opens (by decide) hmarker (by decide +kernel)
  have h := @mem_entries_ofMarker_chars_iff .default marker "id".toList (by decide) hmarker
    (by decide) (by decide) hu ['a']
  convert h.2 (by decide) using 3
  decide +kernel

/-- An id is read that stands in the description of a marker. -/
theorem not_forall_mem_entries_ofMarker_iff :
  ¬ ∀ (component : Component) (m : Spelling), (∀ c ∈ component.name.toList, Text.isBlank c = false) →
    m.IsValid → (m.attributes.map (·.name)).Nodup → ∀ name ∈ Attributes.names, ∀ value,
    (name, value) ∈ (Attributes.ofMarker (m.chars component)).entries ↔ (name, value) ∈ m.entries
  := by
  intro h
  let marker : Spelling :=
    ⟨[⟨[' '], "description".toList, '"', "use id='x'".toList⟩,
      ⟨[' '], "id".toList, '"', ['y']⟩], [' ']⟩
  have hy := h .default marker (by decide) (by decide) (by decide) "id".toList (by decide) ['y']
  revert hy
  decide +kernel

end Marker.Spelling
end Localization

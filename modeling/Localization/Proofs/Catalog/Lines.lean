import Localization.Proofs.Attribute.First
import Localization.Proofs.Csv.Reading
import Localization.Proofs.Marker.Occurrences

/-!
# Records on single lines

A value that is found in a marker lies between the name of the component and the `/>` that ends
the marker, and holds no line break (`Marker.IsMarker.value?_eq_some`).  So what a source says of
a record can be written on one line, and each line of the comma-separated values of its records is
the row of one record, in order (`Record.ofSource_singleLine`).
-/

namespace Localization

namespace Text

/-- A character that the second of two texts does not hold stands in the first one, together with
all that comes before it. -/
theorem prefix_of_append_eq {s t front rest : List Char} {c : Char}
    (h : s ++ t = front ++ c :: rest) (hc : c ∉ t) :
  front ++ [c] <+: s
  := by
  obtain ⟨u, rfl, rfl⟩ | ⟨u, rfl, hu⟩ := List.append_eq_append_iff.1 h
  · apply absurd _ hc
    simp
  · cases u with
    | nil =>
      apply absurd _ hc
      rw [← List.nil_append t, ← hu]
      apply List.mem_cons_self
    | cons d u =>
      obtain ⟨rfl, -⟩ := List.cons.inj hu
      rw [List.prefix_append_right_inj, List.cons_prefix_cons]
      use rfl
      apply List.nil_prefix

/-- What is cut out of a text stands in it. -/
theorem infix_of_hit_mem_cut {m : Matcher} {text hit : List Char} (h : .hit hit ∈ cut m text) :
  hit <:+: text
  := by
  rw [← flatMap_chars_cut m text, List.flatMap_def]
  apply List.infix_of_mem_flatten
  apply List.mem_map_of_mem h

end Text

/-! ### Values inside markers -/

namespace Marker

variable {component : Component} {text marker name value : List Char}

/-- What is found in a text are markers that stand in it. -/
theorem isMarker_of_mem_findAll (h : marker ∈ findAll component text) :
  IsMarker component marker ∧ marker <:+: text
  := by
  constructor
  · have hm := finds_isMarker component
    obtain ⟨parts, last, hs⟩ := Text.exists_splits hm.ne_nil text
    rw [findAll, hs.cut_eq hm, Text.filterMap_hit?_segments] at h
    obtain ⟨p, hp, rfl⟩ := List.mem_map.1 h
    apply hs.occurs p hp
  · obtain ⟨segment, hs, hhit⟩ := List.mem_filterMap.1 h
    cases segment with
    | plain c => cases hhit
    | hit chars =>
      obtain rfl := Option.some.inj hhit
      apply Text.infix_of_hit_mem_cut hs

theorem not_isBlank_of_mem_opening (hc : ∀ c ∈ component.name.toList, Text.isBlank c = false) :
  ∀ c ∈ opening component, Text.isBlank c = false
  := by
  rw [opening, List.forall_mem_cons]
  use by decide, hc

/-- A value that is found in a marker stands in it, lies before the end of the marker, and holds
no line break. -/
theorem IsMarker.value?_eq_some (hm : IsMarker component marker)
    (hc : ∀ c ∈ component.name.toList, Text.isBlank c = false)
    (hv : Attribute.value? name marker = some value) :
  value <:+: marker ∧ ¬ close <:+: value ∧ '\n' ∉ value
  := by
  obtain ⟨inner, hi, rfl⟩ := hm
  rw [Attribute.value?_append_of_not_blank (not_isBlank_of_mem_opening hc)] at hv
  obtain ⟨front, _, ht, ⟨b, quote, rest, -, hq, hu, rfl⟩, -⟩ := Attribute.value?_eq_some_iff.1 hv
  have hquote : quote ∉ close := by
    rintro hm
    simp only [close, List.mem_cons, List.not_mem_nil, or_false] at hm
    obtain rfl | rfl := hm
    · cases hq
    · cases hq
  have hinner : value <:+: inner := by
    have hp : front ++ b :: (name ++ '=' :: quote :: value) ++ [quote] <+: inner := by
      apply Text.prefix_of_append_eq _ hquote
      · exact rest
      · simpa using ht
    apply List.IsInfix.trans _ hp.isInfix
    use front ++ b :: (name ++ ['=', quote]), [quote]
    simp
  refine ⟨?_, fun h => hi.not_close (h.trans hinner), hu.newline_not_mem⟩
  apply hinner.trans
  use opening component, close
  simp

end Marker

/-! ### Rows on single lines -/

namespace Csv

theorem newline_not_mem_field {text : String} (h : '\n' ∉ text.toList) :
  '\n' ∉ field text
  := by
  rw [← text.ofList_toList, field_ofList]
  simp only [List.mem_cons, List.mem_append, List.mem_flatMap, List.not_mem_nil, or_false, not_or,
    not_exists, not_and]
  refine ⟨by decide, ?_, by decide⟩
  intro c hc hd
  rw [double] at hd
  split at hd
  · simp at hd
  · obtain rfl := List.mem_singleton.1 hd
    apply h hc

theorem newline_not_mem_row {fields : List String} (h : ∀ text ∈ fields, '\n' ∉ text.toList) :
  '\n' ∉ row fields
  := by
  cases fields with
  | nil => apply List.not_mem_nil
  | cons text fields =>
    rw [List.forall_mem_cons] at h
    change '\n' ∉ row (Row.fields ⟨text, fields⟩)
    rw [row_fields, List.mem_append, List.mem_flatMap, not_or]
    use newline_not_mem_field h.1
    rintro ⟨text, ht, hn⟩
    rw [List.mem_cons] at hn
    obtain hn | hn := hn
    · cases hn
    · apply newline_not_mem_field (h.2 text ht) hn

/-- A table of fields without line breaks is written with one line for each row. -/
theorem splitOn_render {rows : List (List String)} (hne : rows ≠ [])
    (h : ∀ fields ∈ rows, ∀ text ∈ fields, '\n' ∉ text.toList) :
  (render rows).splitOn '\n' = rows.map row
  := by
  apply List.splitOn_intercalate
  · intro line hline
    obtain ⟨fields, hf, rfl⟩ := List.mem_map.1 hline
    apply newline_not_mem_row (h fields hf)
  · simpa using hne

end Csv

/-- A catalog whose fields hold no line breaks is written with one line for each record. -/
theorem Catalog.splitOn_toCsv {records : List Record} (hne : records ≠ [])
    (h : ∀ r ∈ records, ∀ text ∈ csvFields r, '\n' ∉ text.toList) :
  (toCsv ⟨records⟩).toList.splitOn '\n' = records.map fun r => Csv.row (csvFields r)
  := by
  rw [toCsv, String.toList_ofList, Csv.splitOn_render, List.map_map]
  · rfl
  · simpa using hne
  · rw [List.forall_mem_map]
    apply h

/-! ### The records of a source -/

/-- What holds of the values of all attributes holds of those that are present. -/
theorem Attributes.forall_mem_entries_iff (a : Attributes) (p : List Char → Prop) :
  (∀ e ∈ a.entries, p e.2)
    ↔ (∀ value ∈ a.id, p value.toList) ∧ (∀ value ∈ a.description, p value.toList)
      ∧ ∀ value ∈ a.defaultMessage, p value.toList
  := by
  simp [entries, List.mem_filterMap, or_imp, forall_and]

namespace Record

variable {component : Component} {file source : String} {r : Record}

/-- The attributes of the records of a source hold no line break and no `/>`, and stand in the
source without its comments as they are. -/
theorem forall_mem_entries_of_mem_ofSource
    (hc : ∀ c ∈ component.name.toList, Text.isBlank c = false)
    (hr : r ∈ ofSource component file source) :
  ∀ e ∈ r.entries,
    '\n' ∉ e.2 ∧ ¬ Marker.close <:+: e.2 ∧ e.2 <:+: Comment.strip source.toList
  := by
  obtain ⟨marker, hm, rfl⟩ := List.mem_map.1 hr
  obtain ⟨hmarker, hinfix⟩ := Marker.isMarker_of_mem_findAll hm
  rintro ⟨name, value⟩ he
  have hname : name ∈ Attributes.names :=
    (Attributes.map_fst_entries_sublist _).subset (List.mem_map_of_mem he)
  obtain ⟨hvalue, hclose, hnewline⟩ :=
    hmarker.value?_eq_some hc ((Attributes.mem_entries_ofMarker_iff marker hname).1 he)
  use hnewline, hclose
  apply hvalue.trans hinfix

theorem newline_not_mem_csvFields
    (hc : ∀ c ∈ component.name.toList, Text.isBlank c = false) (hf : '\n' ∉ file.toList)
    (hr : r ∈ ofSource component file source) :
  ∀ text ∈ Catalog.csvFields r, '\n' ∉ text.toList
  := by
  have hfile : r.file = file := by
    obtain ⟨marker, -, rfl⟩ := List.mem_map.1 hr
    rfl
  have hgetD : ∀ text? : Option String, (∀ value ∈ text?, '\n' ∉ value.toList) →
      '\n' ∉ (text?.getD "").toList := by
    rintro (_ | value) h
    · decide
    · apply h value rfl
  obtain ⟨hid, hdescription, hmessage⟩ := (r.forall_mem_entries_iff ('\n' ∉ ·)).1
    fun e he => (forall_mem_entries_of_mem_ofSource hc hr e he).1
  simp only [Catalog.csvFields, List.forall_mem_cons]
  use hgetD _ hid, hgetD _ hmessage, hgetD _ hdescription, hfile ▸ hf
  apply List.forall_mem_nil

/-- The attributes of the records of a source hold no line break and no `/>`, and stand in the
source without its comments as they are.  When the name of the file is on one line, the
comma-separated values of the records have one line for each record, in order. -/
theorem ofSource_singleLine (hc : ∀ c ∈ component.name.toList, Text.isBlank c = false)
    (hf : '\n' ∉ file.toList) (source : String) :
  (∀ r ∈ ofSource component file source, ∀ e ∈ r.entries,
      '\n' ∉ e.2 ∧ ¬ Marker.close <:+: e.2 ∧ e.2 <:+: Comment.strip source.toList)
    ∧ (ofSource component file source ≠ [] →
      (Catalog.toCsv ⟨ofSource component file source⟩).toList.splitOn '\n'
        = (ofSource component file source).map fun r => Csv.row (Catalog.csvFields r))
  := by
  use fun r => forall_mem_entries_of_mem_ofSource hc
  intro hne
  apply Catalog.splitOn_toCsv hne
  intro r
  apply newline_not_mem_csvFields hc hf

/-- A marker over three lines, with quotes in its values, before a comment and another marker. -/
theorem ofSource_singleLine_page :
  let records := ofSource .default "App.jsx"
    "<LocalizeText\n id='a'\n defaultMessage='say \"hi\"' />\n/* id='b'\n*/<LocalizeText/>"
  (∀ r ∈ records, ∀ e ∈ r.entries, '\n' ∉ e.2 ∧ ¬ Marker.close <:+: e.2)
    ∧ records ≠ []
    ∧ (Catalog.toCsv ⟨records⟩).toList.splitOn '\n'
      = ["\"a\",\"say \"\"hi\"\"\",\"\",\"App.jsx\"".toList, "\"\",\"\",\"\",\"App.jsx\"".toList]
  := by
  intro records
  obtain ⟨hvalues, hlines⟩ := @ofSource_singleLine .default "App.jsx" (by decide) (by decide)
    "<LocalizeText\n id='a'\n defaultMessage='say \"hi\"' />\n/* id='b'\n*/<LocalizeText/>"
  have hne : records ≠ [] := by decide +kernel
  refine ⟨fun r hr e he => ⟨(hvalues r hr e he).1, (hvalues r hr e he).2.1⟩, hne, ?_⟩
  rw [hlines hne]
  decide +kernel

end Record
end Localization

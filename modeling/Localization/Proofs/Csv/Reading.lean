import Localization.Catalog.Format
import Mathlib.Data.List.Forall2

/-!
# Comma-separated values are read back

`Csv.read?` reads a table of quoted fields.  In a field two quotes stand for one, fields are
separated by commas and rows by line breaks, and the empty text has no rows.  What is read from
a place in a field on is a `Csv.Rest`, and each one is written as one text, `Rest.chars`.  So
reading accepts exactly the texts that are written for tables without empty rows
(`read?_eq_some_iff`).  A catalog is read back with one row for each record, and only catalogs
that agree up to missing attributes are written alike (`Catalog.read?_toCsv`).
-/

namespace Localization

namespace Csv

/-- A row has at least one field. -/
structure Row where
  first : String
  others : List String

/-- The fields of a row. -/
def Row.fields (r : Row) : List String :=
  r.first :: r.others

/-- What a table holds from a place in a field on: the rest of the field, the other fields of
its row, and the other rows. -/
structure Rest where
  field : List Char
  others : List String
  rows : List Row

namespace Rest

/-- The last field ends. -/
def last : Rest where
  field := []
  others := []
  rows := []

/-- A character of the field comes first. -/
def push (c : Char) (r : Rest) : Rest :=
  { r with field := c :: r.field }

/-- The field ends, and the row goes on. -/
def endField (r : Rest) : Rest where
  field := []
  others := .ofList r.field :: r.others
  rows := r.rows

/-- The field and its row end, and another row comes. -/
def endRow (r : Rest) : Rest where
  field := []
  others := []
  rows := ⟨.ofList r.field, r.others⟩ :: r.rows

/-- The rows from the start of a field on. -/
def table (r : Rest) : List Row :=
  ⟨.ofList r.field, r.others⟩ :: r.rows

/-- A rest is made of characters and of the ends of fields and rows. -/
@[elab_as_elim]
theorem induction {motive : Rest → Prop} (r : Rest) (last : motive last)
    (push : ∀ c r, motive r → motive (push c r)) (endField : ∀ r, motive r → motive (endField r))
    (endRow : ∀ r, motive r → motive (endRow r)) :
  motive r
  := by
  have hfield : ∀ field others rows, motive ⟨[], others, rows⟩ → motive ⟨field, others, rows⟩ := by
    intro field others rows h
    induction field with
    | nil => exact h
    | cons c field ih => exact push c _ ih
  have hothers : ∀ others rows, motive ⟨[], [], rows⟩ → motive ⟨[], others, rows⟩ := by
    intro others rows h
    induction others with
    | nil => exact h
    | cons text others ih =>
      have hend := endField ⟨text.toList, others, rows⟩ (hfield _ _ _ ih)
      rwa [Rest.endField, String.ofList_toList] at hend
  have hrows : ∀ rows, motive ⟨[], [], rows⟩ := by
    intro rows
    induction rows with
    | nil => exact last
    | cons row rows ih =>
      have hend := endRow ⟨row.first.toList, row.others, rows⟩ (hfield _ _ _ (hothers _ _ ih))
      rwa [Rest.endRow, String.ofList_toList] at hend
  obtain ⟨field, others, rows⟩ := r
  apply hfield _ _ _ (hothers _ _ (hrows rows))

end Rest

/-! ### The reader -/

/-- Where a reader is. -/
inductive Place where
  /-- Before the quote that begins a field. -/
  | start
  /-- In a field. -/
  | inside
  /-- After a quote in a field, which ends the field unless another quote follows. -/
  | quote

/-- What is read from a place on. -/
def readFrom : Place → List Char → Option Rest
  | .start, '"' :: cs => readFrom .inside cs
  | .inside, '"' :: cs => readFrom .quote cs
  | .inside, c :: cs => (readFrom .inside cs).map (.push c)
  | .quote, '"' :: cs => (readFrom .inside cs).map (.push '"')
  | .quote, ',' :: cs => (readFrom .start cs).map .endField
  | .quote, '\n' :: cs => (readFrom .start cs).map .endRow
  | .quote, [] => some .last
  | _, _ => none

/-- The rows of fields in a text of comma-separated values. -/
def read? (text : String) : Option (List (List String)) :=
  if text = "" then some []
  else (readFrom .start text.toList).map fun r => r.table.map Row.fields

/-! ### Reading and writing -/

/-- A character in a field. -/
def double (c : Char) : List Char :=
  if c = '"' then ['"', '"'] else [c]

/-- The text of a rest. -/
def Rest.chars (r : Rest) : List Char :=
  r.field.flatMap double
    ++ '"' :: (r.others.flatMap (',' :: Csv.field ·) ++ r.rows.flatMap ('\n' :: row ·.fields))

theorem intercalate_cons (separator : Char) (text : List Char) (texts : List (List Char)) :
  [separator].intercalate (text :: texts) = text ++ texts.flatMap (separator :: ·)
  := by
  induction texts generalizing text with
  | nil => simp
  | cons t texts ih =>
    rw [List.intercalate_cons_of_ne_nil (List.cons_ne_nil t texts), ih]
    simp

theorem row_fields (r : Row) :
  row r.fields = field r.first ++ r.others.flatMap (',' :: field ·)
  := by
  rw [row, Row.fields, List.map_cons, intercalate_cons, List.flatMap_map]

theorem field_ofList (text : List Char) :
  field (.ofList text) = '"' :: (text.flatMap double ++ ['"'])
  := by
  rw [field, String.toList_ofList]
  rfl

namespace Rest

variable (r : Rest)

theorem chars_push (c : Char) : chars (push c r) = double c ++ r.chars := by
  simp [chars, push]

theorem chars_endField : chars (endField r) = '"' :: ',' :: '"' :: r.chars := by
  simp [chars, endField, field_ofList]

theorem chars_endRow : chars (endRow r) = '"' :: '\n' :: '"' :: r.chars := by
  simp [chars, endRow, row_fields, field_ofList]

/-- The rows from the start of a field on are written as its quote and the rest. -/
theorem render_table : render (r.table.map Row.fields) = '"' :: r.chars := by
  rw [table, render, List.map_map, List.map_cons, intercalate_cons, List.flatMap_map,
    Function.comp_apply, row_fields, field_ofList]
  simp [chars]

/-- A written rest is read back. -/
theorem readFrom_chars : readFrom .inside r.chars = some r := by
  induction r using induction with
  | last => rfl
  | push c r ih =>
    rw [chars_push, double]
    split
    · next hc =>
      subst hc
      simp [readFrom, ih]
    · next hc => simp [readFrom, ih]
  | endField r ih => simp [chars_endField, readFrom, ih]
  | endRow r ih => simp [chars_endRow, readFrom, ih]

end Rest

/-- The text is what is written of the rest from a place on. -/
def Rest.IsAt (r : Rest) (text : List Char) : Place → Prop
  | .start => text = '"' :: r.chars
  | .inside => text = r.chars
  | .quote => '"' :: text = r.chars

theorem isAt_of_readFrom {place : Place} {text : List Char} {r : Rest} :
  readFrom place text = some r → r.IsAt text place
  := by
  -- one case for each line of the reader
  fun_induction readFrom place text generalizing r with
  | case1 cs ih => exact fun h => congrArg ('"' :: ·) (ih h)
  | case2 cs ih => exact fun h => ih h
  | case3 c cs hc ih =>
    intro h
    obtain ⟨q, hq, rfl⟩ := Option.map_eq_some_iff.1 h
    rw [Rest.IsAt, Rest.chars_push, double, if_neg hc, ← ih hq]
    rfl
  | case4 cs ih =>
    intro h
    obtain ⟨q, hq, rfl⟩ := Option.map_eq_some_iff.1 h
    rw [Rest.IsAt, Rest.chars_push, double, if_pos rfl, ← ih hq]
    rfl
  | case5 cs ih =>
    intro h
    obtain ⟨q, hq, rfl⟩ := Option.map_eq_some_iff.1 h
    rw [Rest.IsAt, Rest.chars_endField, ← ih hq]
  | case6 cs ih =>
    intro h
    obtain ⟨q, hq, rfl⟩ := Option.map_eq_some_iff.1 h
    rw [Rest.IsAt, Rest.chars_endRow, ← ih hq]
  | case7 =>
    intro h
    rw [← Option.some.inj h]
    rfl
  | case8 => exact nofun

/-- What is read from a place on is what is written from there on. -/
theorem readFrom_eq_some_iff {place : Place} {text : List Char} {r : Rest} :
  readFrom place text = some r ↔ r.IsAt text place
  := by
  refine ⟨isAt_of_readFrom, fun h => ?_⟩
  cases place with
  | start =>
    rw [h]
    exact r.readFrom_chars
  | inside =>
    rw [h]
    exact r.readFrom_chars
  | quote =>
    have hr := r.readFrom_chars
    rwa [← h] at hr

/-! ### Tables -/

/-- A table without empty rows is a table of rows. -/
theorem exists_map_fields {rows : List (List String)} (h : ∀ row ∈ rows, row ≠ []) :
  ∃ table : List Row, table.map Row.fields = rows
  := by
  induction rows with
  | nil => exact ⟨[], rfl⟩
  | cons row rows ih =>
    rw [List.forall_mem_cons] at h
    obtain ⟨first, others, rfl⟩ := List.exists_cons_of_ne_nil h.1
    obtain ⟨table, rfl⟩ := ih h.2
    exact ⟨⟨first, others⟩ :: table, rfl⟩

theorem Rest.exists_table_eq (row : Row) (rows : List Row) :
  ∃ r : Rest, r.table = row :: rows
  := by
  use ⟨row.first.toList, row.others, rows⟩
  rw [table, String.ofList_toList]

/-- Reading accepts exactly what is written for the tables without empty rows. -/
theorem read?_eq_some_iff {text : String} {rows : List (List String)} :
  read? text = some rows ↔ (∀ row ∈ rows, row ≠ []) ∧ text = .ofList (render rows)
  := by
  rw [read?]
  constructor
  · intro h
    split at h
    · next ht =>
      obtain rfl := Option.some.inj h
      exact ⟨by simp, ht⟩
    · obtain ⟨r, hr, rfl⟩ := Option.map_eq_some_iff.1 h
      constructor
      · intro row hrow
        obtain ⟨row, -, rfl⟩ := List.mem_map.1 hrow
        apply List.cons_ne_nil
      · rw [r.render_table, ← readFrom_eq_some_iff.1 hr, String.ofList_toList]
  · rintro ⟨hrows, rfl⟩
    obtain ⟨table, rfl⟩ := exists_map_fields hrows
    cases table with
    | nil => rfl
    | cons row table =>
      obtain ⟨r, hr⟩ := Rest.exists_table_eq row table
      have hread : readFrom .start ('"' :: r.chars) = some r := readFrom_eq_some_iff.2 rfl
      rw [← hr, r.render_table, if_neg (by simp), String.toList_ofList, hread]
      rfl

/-- A quote that stands alone ends its field, and only a comma or a line break may follow. -/
example :
  read? "\"a\"\",\",\"\"\n\"c\"" = some [["a\",", ""], ["c"]] ∧ read? "\"a\"b\"" = none
  := by
  decide +kernel

end Csv

/-- The records are of one file and have the same attributes, a missing attribute being the
same as an empty one. -/
structure Record.Agrees (r s : Record) : Prop where
  id : r.id.getD "" = s.id.getD ""
  defaultMessage : r.defaultMessage.getD "" = s.defaultMessage.getD ""
  description : r.description.getD "" = s.description.getD ""
  file : r.file = s.file

namespace Catalog

theorem csvFields_eq_iff {r s : Record} : csvFields r = csvFields s ↔ r.Agrees s := by
  simp only [csvFields, List.cons.injEq, and_true]
  constructor
  · rintro ⟨hid, hmessage, hdescription, hfile⟩
    exact ⟨hid, hmessage, hdescription, hfile⟩
  · rintro ⟨hid, hmessage, hdescription, hfile⟩
    exact ⟨hid, hmessage, hdescription, hfile⟩

theorem read?_toCsv_eq (catalog : Catalog) :
  Csv.read? catalog.toCsv = some (catalog.records.map csvFields)
  := by
  apply Csv.read?_eq_some_iff.2
  constructor
  · intro row hrow
    obtain ⟨r, -, rfl⟩ := List.mem_map.1 hrow
    apply List.cons_ne_nil
  · rfl

/-- A catalog is read back from its comma-separated values, one row for each record.  Two
catalogs are written alike exactly when their records agree one by one. -/
theorem read?_toCsv (catalog : Catalog) :
  Csv.read? catalog.toCsv
      = some (catalog.records.map fun r =>
        [r.id.getD "", r.defaultMessage.getD "", r.description.getD "", r.file])
    ∧ ∀ other : Catalog,
      catalog.toCsv = other.toCsv ↔ List.Forall₂ Record.Agrees catalog.records other.records
  := by
  refine ⟨catalog.read?_toCsv_eq, fun other => ?_⟩
  have hrows : List.Forall₂ Record.Agrees catalog.records other.records
      ↔ catalog.records.map csvFields = other.records.map csvFields := by
    rw [← List.forall₂_eq_eq_eq, List.forall₂_map_left_iff, List.forall₂_map_right_iff]
    simp only [csvFields_eq_iff]
  rw [hrows]
  constructor
  · intro h
    have hread := catalog.read?_toCsv_eq
    rw [h, other.read?_toCsv_eq] at hread
    exact (Option.some.inj hread).symm
  · intro h
    rw [toCsv, h, toCsv]

end Catalog
end Localization

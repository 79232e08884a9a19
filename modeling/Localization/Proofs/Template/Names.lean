import Localization.Proofs.Table.Lookup
import Localization.Proofs.Template.Surroundings

/-!
# Names of values

A value can be put into a template only under a name that has no blank and no `}` in it.  The
placeholder with such a name is filled with the value (`fill_named_of_holds`).  Under any other name
a value has no effect on any template (`fill_of_not_isUsable`).
-/

namespace Localization

namespace Text

theorem mem_of_mem_trim {c : Char} {text : List Char} (h : c ∈ trim text) :
  c ∈ text
  := by
  have hback := (List.dropWhile_suffix isBlank).mem (List.mem_reverse.1 h)
  exact (List.dropWhile_suffix isBlank).mem (List.mem_reverse.1 hback)

end Text

namespace Template

/-- A value can be put into a template under this name. -/
def IsUsable (name : List Char) : Prop :=
  IsKey name ∧ '}' ∉ name

instance (name : List Char) : Decidable (IsUsable name) :=
  inferInstanceAs (Decidable (_ ∧ _))

variable {values : Values} {tables tables' : List Values} {name value : String}

/-- There is no value at a name that none of the entries has. -/
theorem not_holds_ofList {entries : List (String × String)} (h : ∀ e ∈ entries, e.1 ≠ name)
    (value : String) :
  ¬ Holds (.ofList entries) name.toList value
  := by
  rintro ⟨hget, -⟩
  rw [String.ofList_toList, Table.get?_ofList] at hget
  obtain ⟨before, after, heq, -⟩ := List.lookup_eq_some_iff.1 hget
  apply h (name, value) _ rfl
  rw [← List.mem_reverse, heq]
  simp

/-! ### Names that can be used -/

/-- The placeholder with the name is filled from the values, and otherwise from the defaults. -/
theorem fill_named (h : IsUsable name.toList) (values table : Values) :
  fill [values, table] (named name)
    = ((value? values name.toList).or (value? table name.toList)).getD ""
  := by
  have hrun : IsRun (' ' :: (name.toList ++ [' '])) := by
    use List.cons_ne_nil _ _
    simp [h.2]
  have hfilled := @filled_placeholder_append _ [values, table] hrun []
  have hvalue := @valueOf_of_isKey values (some table) _ h.1
  rw [List.append_nil, (trim_spaces h.1).1] at hfilled
  rw [fill_eq, toList_named, hfilled]
  simpa [filled, Text.cut, Text.cutFrom] using hvalue

/-- A value that is not empty is put in the place of its name. -/
theorem fill_named_of_holds (h : IsUsable name.toList) (hv : Holds values name.toList value)
    (table : Values) :
  fill [values, table] (named name) = value
  := by
  rw [fill_named h, value?_eq_some_iff.2 hv]
  rfl

/-- A default value that is not empty is put in the place of its name, when there is no other value
at the name. -/
theorem fill_named_of_default {table : Values} (h : IsUsable name.toList)
    (hv : ∀ v, ¬ Holds values name.toList v) (hd : Holds table name.toList value) :
  fill [values, table] (named name) = value
  := by
  rw [fill_named h, value?_eq_none_iff.2 hv, value?_eq_some_iff.2 hd]
  rfl

/-! ### Names that cannot be used -/

/-- Only the values at names that can be used have an effect on a template. -/
theorem fill_congr (h : ∀ name, IsUsable name → valueOf tables name = valueOf tables' name)
    (template : String) :
  fill tables template = fill tables' template
  := by
  obtain ⟨parts, last, hs⟩ := Text.exists_splits finds_isPlaceholder.ne_nil template.toList
  have hparts : ∀ p ∈ parts, p.gap ++ (valueOf tables (nameOf p.hit)).toList
      = p.gap ++ (valueOf tables' (nameOf p.hit)).toList := by
    intro p hp
    obtain ⟨run, hr, hhit⟩ := hs.occurs p hp
    rw [hhit, nameOf_placeholder]
    by_cases hk : IsKey (Text.trim run)
    · rw [h _ ⟨hk, fun hb => hr.2 (Text.mem_of_mem_trim hb)⟩]
    · rw [valueOf_of_not_isKey hk, valueOf_of_not_isKey hk]
  rw [fill, fill, hs.cut_eq finds_isPlaceholder, flatMap_fillSegment, flatMap_fillSegment,
    List.flatMap_congr hparts]

/-- A single value under a name that cannot be used has no effect on any template. -/
theorem fill_of_not_isUsable (h : ¬ IsUsable name.toList) (before after : List Values)
    (template : String) :
  fill (before ++ .ofList [(name, value)] :: after) template
    = fill (before ++ .empty :: after) template
  := by
  apply fill_congr
  intro key hk
  have hget : (Table.ofList [(name, value)]).get? (.ofList key)
      = (Table.empty : Values).get? (.ofList key) := by
    apply (Table.get?_insert _ name _ value).trans
    apply if_neg
    rintro rfl
    rw [String.toList_ofList] at h
    exact h hk
  simp only [valueOf, List.findSome?_append, List.findSome?_cons, hget]

end Template
end Localization

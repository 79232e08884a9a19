import Localization.Proofs.Text.Splitting
import Localization.Template

/-!
# How a template is filled

A placeholder is `{{`, a run of characters other than `}`, and `}}`.  `Template.Fills` says which
value stands for the run of a placeholder.  A template is split at its placeholders in one way,
and filling it puts these values in their places and keeps the text between them
(`Template.fill_splits`).
-/

namespace Localization.Template

/-- The text may stand in a placeholder: it is not empty, and no `}` is in it. -/
def IsRun (run : List Char) : Prop :=
  run ≠ [] ∧ '}' ∉ run

/-- The placeholder with this text in it. -/
def placeholder (run : List Char) : List Char :=
  '{' :: '{' :: (run ++ ['}', '}'])

/-- The text is a placeholder. -/
def IsPlaceholder (text : List Char) : Prop :=
  ∃ run, IsRun run ∧ text = placeholder run

/-- The text may name a value: it is not empty, and no blank is in it. -/
def IsKey (text : List Char) : Prop :=
  text ≠ [] ∧ ∀ c ∈ text, ¬ Text.isBlank c

/-- The table has a value at the name, and it is not empty. -/
def Holds (values : Values) (name : List Char) (value : String) : Prop :=
  values.get? (.ofList name) = some value ∧ value ≠ ""

/-- The value that stands for the text in a placeholder.  The text names it, without the blanks
around it: the value in the table, if it is not empty, and otherwise the default value.  Where
there is neither, and where the text is no name, nothing stands for it. -/
inductive Fills (values : Values) (defaults : Option Values) (run : List Char) :
    (value : String) → Prop where
  | unnamed (hn : ¬ IsKey (Text.trim run)) : Fills values defaults run ""
  | value {value : String} (hn : IsKey (Text.trim run))
      (hv : Holds values (Text.trim run) value) : Fills values defaults run value
  | default {value : String} {table : Values} (hn : IsKey (Text.trim run))
      (hv : ∀ value, ¬ Holds values (Text.trim run) value) (ht : defaults = some table)
      (hd : Holds table (Text.trim run) value) : Fills values defaults run value
  | missing (hn : IsKey (Text.trim run)) (hv : ∀ value, ¬ Holds values (Text.trim run) value)
      (hd : ∀ table, defaults = some table → ∀ value, ¬ Holds table (Text.trim run) value) :
      Fills values defaults run ""

/-! ### Values -/

variable {values : Values} {defaults : Option Values} {run name : List Char} {value : String}

theorem isKey_iff : IsKey name ↔ ¬ (name = [] ∨ name.any Text.isBlank = true) := by
  simp [IsKey, not_or]

/-- The value at a name, unless it is empty. -/
def value? (values : Values) (name : List Char) : Option String :=
  (values.get? (.ofList name)).filter (· ≠ "")

theorem value?_eq_some_iff : value? values name = some value ↔ Holds values name value := by
  simp [value?, Holds, Option.filter_eq_some_iff]

theorem value?_eq_none_iff : value? values name = none ↔ ∀ value, ¬ Holds values name value := by
  simp only [Option.eq_none_iff_forall_ne_some, ne_eq, value?_eq_some_iff]

theorem valueOf_of_not_isKey (h : ¬ IsKey name) (tables : List Values) :
  valueOf tables name = ""
  := by
  rw [isKey_iff, not_not] at h
  rw [valueOf, if_pos h]

theorem valueOf_of_isKey (h : IsKey name) :
  valueOf (values :: defaults.toList) name
    = ((value? values name).or (defaults.bind (value? · name))).getD ""
  := by
  rw [valueOf, if_neg (isKey_iff.1 h)]
  change ((values :: defaults.toList).findSome? (value? · name)).getD "" = _
  rw [List.findSome?_cons]
  cases value? values name with
  | some v => rfl
  | none => cases defaults <;> simp

/-- Exactly one value stands for the text in a placeholder. -/
theorem fills_iff :
  Fills values defaults run value
    ↔ value = valueOf (values :: defaults.toList) (Text.trim run)
  := by
  constructor
  · intro h
    cases h with
    | unnamed hn => rw [valueOf_of_not_isKey hn]
    | value hn hv => rw [valueOf_of_isKey hn, value?_eq_some_iff.2 hv]; rfl
    | default hn hv ht hd =>
      rw [valueOf_of_isKey hn, value?_eq_none_iff.2 hv, ht, Option.none_or, Option.bind_some,
        value?_eq_some_iff.2 hd]
      rfl
    | missing hn hv hd =>
      rw [valueOf_of_isKey hn, value?_eq_none_iff.2 hv, Option.none_or]
      cases defaults with
      | none => rfl
      | some table => rw [Option.bind_some, value?_eq_none_iff.2 (hd table rfl)]; rfl
  · rintro rfl
    by_cases hn : IsKey (Text.trim run)
    · rw [valueOf_of_isKey hn]
      cases hv : value? values (Text.trim run) with
      | some v => exact .value hn (value?_eq_some_iff.1 hv)
      | none =>
        have hv' := value?_eq_none_iff.1 hv
        cases defaults with
        | none => exact .missing hn hv' nofun
        | some table =>
          cases hd : value? table (Text.trim run) with
          | some v =>
            rw [Option.none_or, Option.bind_some, hd]
            exact .default hn hv' rfl (value?_eq_some_iff.1 hd)
          | none =>
            rw [Option.none_or, Option.bind_some, hd]
            refine .missing hn hv' ?_
            rintro _ ⟨⟩
            exact value?_eq_none_iff.1 hd
    · rw [valueOf_of_not_isKey hn]
      exact .unnamed hn

/-! ### Placeholders -/

theorem run_prefix_brace_iff {rest : List Char} (hr : '}' ∉ run) :
  run ++ ['}', '}'] <+: '}' :: rest ↔ run = [] ∧ rest.head? = some '}'
  := by
  cases run with
  | nil => simp [List.cons_prefix_cons, List.singleton_prefix_iff_head?_eq_some]
  | cons c run =>
    have hc : c ≠ '}' := fun h => hr (h ▸ List.mem_cons_self)
    simp [List.cons_prefix_cons, hc]

/-- The number that is found is the length of the run before the first `}`, when two of them
follow it. -/
theorem nameLength?_eq_some_iff {n k : Nat} {text : List Char} :
  nameLength? n text = some k
    ↔ ∃ run, '}' ∉ run ∧ run ++ ['}', '}'] <+: text ∧ k = n + run.length
  := by
  fun_induction nameLength? n text with
  | case1 n => simp
  | case2 n rest hrest =>
    constructor
    · intro h
      refine ⟨[], List.not_mem_nil, (run_prefix_brace_iff List.not_mem_nil).2 ⟨rfl, hrest⟩, ?_⟩
      exact (Option.some.inj h).symm
    · rintro ⟨run, hr, hp, rfl⟩
      obtain ⟨rfl, -⟩ := (run_prefix_brace_iff hr).1 hp
      rfl
  | case3 n rest hrest =>
    constructor
    · intro h
      cases h
    · rintro ⟨run, hr, hp, -⟩
      apply absurd ((run_prefix_brace_iff hr).1 hp).2 hrest
  | case4 n c rest hc ih =>
    rw [ih]
    constructor
    · rintro ⟨run, hr, hp, rfl⟩
      refine ⟨c :: run, ?_, List.cons_prefix_cons.2 ⟨rfl, hp⟩, ?_⟩
      · rw [List.mem_cons, not_or]
        exact ⟨fun h => hc h.symm, hr⟩
      · rw [List.length_cons]
        omega
    · rintro ⟨run, hr, hp, rfl⟩
      cases run with
      | nil => apply absurd (List.cons_prefix_cons.1 hp).1.symm hc
      | cons d run =>
        obtain ⟨rfl, hrest⟩ := List.cons_prefix_cons.1 hp
        refine ⟨run, fun h => hr (List.mem_cons_of_mem d h), hrest, ?_⟩
        rw [List.length_cons]
        omega

theorem placeholder_prefix_iff {rest : List Char} :
  placeholder run <+: '{' :: '{' :: rest ↔ run ++ ['}', '}'] <+: rest
  := by
  simp [placeholder, List.cons_prefix_cons]

/-- Placeholders are what is found in a template. -/
theorem finds_isPlaceholder : Text.Finds placeholderLength? IsPlaceholder where
  ne_nil := by
    rintro _ ⟨run, -, rfl⟩
    simp [placeholder]
  eq_some_iff before text n := by
    unfold placeholderLength?
    split
    · next rest =>
      simp only [Option.map_eq_some_iff, Option.filter_eq_some_iff, nameLength?_eq_some_iff,
        decide_eq_true_eq]
      constructor
      · rintro ⟨k, ⟨⟨run, hr, hp, rfl⟩, hk⟩, rfl⟩
        refine ⟨placeholder run, ⟨run, ⟨?_, hr⟩, rfl⟩, placeholder_prefix_iff.2 hp, ?_⟩
        · rintro rfl
          exact hk rfl
        · simp [placeholder]
          omega
      · rintro ⟨_, ⟨run, ⟨hne, hr⟩, rfl⟩, hp, rfl⟩
        refine ⟨run.length, ⟨⟨run, hr, placeholder_prefix_iff.1 hp, ?_⟩, ?_⟩, ?_⟩
        · rw [Nat.zero_add]
        · simpa using hne
        · simp [placeholder]
          omega
    · next hopen =>
      constructor
      · intro h
        cases h
      · rintro ⟨_, ⟨run, -, rfl⟩, ⟨rest, rfl⟩, -⟩
        exact absurd rfl (hopen _)

theorem nameOf_placeholder (run : List Char) : nameOf (placeholder run) = Text.trim run := by
  simp [nameOf, placeholder]

/-- Filling keeps the gaps and puts values in the places of the placeholders. -/
theorem flatMap_fillSegment (tables : List Values) (parts : List Text.Part) (last : List Char) :
  (Text.segments parts last).flatMap (fillSegment tables)
    = parts.flatMap (fun p => p.gap ++ (valueOf tables (nameOf p.hit)).toList) ++ last
  := by
  have hplain : ∀ text : List Char,
      (text.map Text.Segment.plain).flatMap (fillSegment tables) = text := by
    intro text
    rw [List.flatMap_map]
    apply List.flatMap_singleton'
  rw [Text.segments, List.flatMap_append, hplain, List.flatMap_assoc]
  simp only [List.flatMap_append, hplain, List.flatMap_singleton, fillSegment]

/-- A template is split at its placeholders in one way only.  Filling it keeps the gaps, and
puts in the place of each placeholder the one value that stands for it. -/
theorem fill_splits (values : Values) (defaults : Option Values) (template : String) :
  ∃ parts last, Text.Splits IsPlaceholder template.toList parts last
    ∧ (∀ parts' last', Text.Splits IsPlaceholder template.toList parts' last' →
      parts' = parts ∧ last' = last)
    ∧ ∃ value : List Char → String,
      (∀ run, IsRun run → ∀ v, Fills values defaults run v ↔ v = value (placeholder run))
      ∧ fill (values :: defaults.toList) template
        = .ofList (parts.flatMap (fun p => p.gap ++ (value p.hit).toList) ++ last)
  := by
  obtain ⟨parts, last, h⟩ := Text.exists_splits finds_isPlaceholder.ne_nil template.toList
  refine ⟨parts, last, h, ?_, fun hit => valueOf (values :: defaults.toList) (nameOf hit), ?_, ?_⟩
  · intro parts' last' h'
    apply h'.unique h finds_isPlaceholder
  · intro run _ v
    dsimp only
    rw [nameOf_placeholder]
    apply fills_iff
  · rw [fill, h.cut_eq finds_isPlaceholder, flatMap_fillSegment]

/-- A value that looks like a placeholder is not looked at again.  Of three braces the first two
open a placeholder, and so its name is not the one that has a value. -/
example :
  fill [.ofList [("a", "{{ b }}"), ("b", "x")]] "{{ a }} {{{b}}}" = "{{ b }} \x7d"
  := by decide +kernel

end Localization.Template

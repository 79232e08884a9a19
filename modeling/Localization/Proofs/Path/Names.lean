import Localization.FileSystem
import Mathlib.Data.List.Basic
import Mathlib.Tactic.ByContra

/-!
# Paths of names

The steps of a path are its names and its `..`.  Some steps with separators between them are a
path with exactly these parts (`parts_ofPieces`).  So the path of a list of names that can stand
in directories has exactly these names for its parts (`parts_ofNames`), is its own slash form
(`slashForm_ofNames`), and is the path of no other list of names (`eq_of_intercalate_eq`).
`IsExtension` says which suffix of a file name is its extension, and `extension?_eq_some_iff` that
it is the one that is found.
-/

namespace Localization.Path

/-! ### Names -/

variable {name : String} {names : List String}

theorem toList_ne_of_isName (h : IsName name) :
  name.toList ≠ [] ∧ name.toList ≠ ['.'] ∧ name.toList ≠ ['.', '.']
  := by
  obtain ⟨hempty, hcurrent, hup, -⟩ := h
  constructor
  · exact fun e => hempty (String.toList_inj.1 e)
  · constructor
    · exact fun e => hcurrent (String.toList_inj.1 e)
    · exact fun e => hup (String.toList_inj.1 e)

theorem part?_toList (h : IsName name) :
  part? name.toList = some (.name name)
  := by
  obtain ⟨hempty, hcurrent, hup⟩ := toList_ne_of_isName h
  rw [part?, if_neg (by simp [isIdle, hempty, hcurrent]), if_neg hup, String.ofList_toList]

theorem ofNames_eq (names : List String) :
  ofNames names = ⟨"/".intercalate names⟩
  := by
  rw [ofNames, ofPieces, mk.injEq, ← String.toList_inj, String.toList_ofList,
    String.toList_intercalate]
  rfl

/-! ### Steps -/

/-- The part goes one step: down to a name, or up. -/
def Part.IsStep : Part → Prop
  | .name text => IsName text
  | .up => True
  | .root | .current => False

/-- A step is read back from its text. -/
theorem Part.IsStep.exists_slashText? {q : Part} (h : q.IsStep) :
  ∃ text, slashText? q = some text ∧ part? text = some q ∧ text ≠ [] ∧ text ≠ ['.'] ∧ '/' ∉ text
  := by
  cases q with
  | name text =>
    obtain ⟨hempty, hcurrent, -⟩ := toList_ne_of_isName h
    exact ⟨text.toList, rfl, part?_toList h, hempty, hcurrent, h.2.2.2⟩
  | up =>
    use ['.', '.'], rfl
    decide
  | root => cases h
  | current => cases h

/-- A path whose first piece is neither empty nor `.` has no start but its pieces. -/
theorem anchor?_of_pieces {p : Path} {piece : List Char} {rest : List (List Char)}
    (h : p.pieces = piece :: rest) (hempty : piece ≠ []) (hcurrent : piece ≠ ['.']) :
  p.anchor? = none ∧ p.body = p.pieces
  := by
  rw [anchor?, body, h]
  constructor
  · split
    · next heq => exact absurd (List.cons.inj heq).1 hempty
    · next heq => exact absurd (List.cons.inj heq).1 hcurrent
    · rfl
  · split
    · next heq => exact absurd (List.cons.inj heq).1 hempty
    · next heq => exact absurd (List.cons.inj heq).1 hcurrent
    · rfl

section

variable {steps : List Part} (h : ∀ q ∈ steps, q.IsStep)

include h

/-- The pieces of the path are the texts of the steps. -/
theorem pieces_ofPieces (hne : steps ≠ []) :
  (ofPieces (steps.filterMap slashText?)).pieces = steps.filterMap slashText?
  := by
  rw [pieces, ofPieces, String.toList_ofList, List.splitOn_intercalate]
  · intro piece hp
    obtain ⟨q, hq, hpiece⟩ := List.mem_filterMap.1 hp
    obtain ⟨text, htext, -, -, -, hslash⟩ := (h q hq).exists_slashText?
    obtain rfl := Option.some.inj (htext.symm.trans hpiece)
    exact hslash
  · obtain ⟨q, steps, rfl⟩ := List.exists_cons_of_ne_nil hne
    obtain ⟨text, htext, -⟩ := (h q List.mem_cons_self).exists_slashText?
    simp [htext]

/-- The path of some steps has no start. -/
theorem anchor?_ofPieces (hne : steps ≠ []) :
  (ofPieces (steps.filterMap slashText?)).anchor? = none
    ∧ (ofPieces (steps.filterMap slashText?)).body = steps.filterMap slashText?
  := by
  have hpieces := pieces_ofPieces h hne
  obtain ⟨q, steps, rfl⟩ := List.exists_cons_of_ne_nil hne
  obtain ⟨text, htext, -, hempty, hcurrent, -⟩ := (h q List.mem_cons_self).exists_slashText?
  rw [List.filterMap_cons, htext] at hpieces ⊢
  obtain ⟨hanchor, hbody⟩ := anchor?_of_pieces hpieces hempty hcurrent
  exact ⟨hanchor, hbody.trans hpieces⟩

/-- The path of some steps has these steps for its parts. -/
theorem parts_ofPieces :
  (ofPieces (steps.filterMap slashText?)).parts = steps
  := by
  by_cases hne : steps = []
  · subst hne
    decide
  · have hread : ∀ q ∈ steps, (slashText? q).bind part? = some q := by
      intro q hq
      obtain ⟨text, htext, hpart, -⟩ := (h q hq).exists_slashText?
      rw [htext, Option.bind_some, hpart]
    obtain ⟨hanchor, hbody⟩ := anchor?_ofPieces h hne
    rw [parts, hanchor, hbody, List.filterMap_filterMap, List.filterMap_congr hread,
      List.filterMap_some]
    rfl

end

theorem filterMap_slashText?_map_name (names : List String) :
  (names.map Part.name).filterMap slashText? = names.map String.toList
  := by
  have hmap : slashText? ∘ Part.name = some ∘ String.toList := rfl
  rw [List.filterMap_map, hmap, List.filterMap_eq_map]

theorem ofNames_eq_ofPieces (names : List String) :
  ofNames names = ofPieces ((names.map Part.name).filterMap slashText?)
  := by
  rw [filterMap_slashText?_map_name, ofNames]

section

variable (h : ∀ name ∈ names, IsName name)

include h

theorem isStep_of_mem_map_name : ∀ q ∈ names.map Part.name, q.IsStep := by
  intro q hq
  obtain ⟨name, hn, rfl⟩ := List.mem_map.1 hq
  apply h name hn

/-- The pieces of the path are the names. -/
theorem pieces_ofNames (hne : names ≠ []) :
  (ofNames names).pieces = names.map String.toList
  := by
  rw [ofNames_eq_ofPieces, pieces_ofPieces (isStep_of_mem_map_name h) (by simpa using hne),
    filterMap_slashText?_map_name]

theorem anchor?_ofNames :
  (ofNames names).anchor? = none
  := by
  by_cases hne : names = []
  · subst hne
    decide
  · rw [ofNames_eq_ofPieces]
    apply (anchor?_ofPieces (isStep_of_mem_map_name h) (by simpa using hne)).1

/-- The parts of the path are the names. -/
theorem parts_ofNames :
  (ofNames names).parts = names.map .name
  := by
  rw [ofNames_eq_ofPieces, parts_ofPieces (isStep_of_mem_map_name h)]

/-- The path is its own slash form. -/
theorem slashForm_ofNames :
  (ofNames names).slashForm = "/".intercalate names
  := by
  have htext : (ofNames names).text = "/".intercalate names := congrArg text (ofNames_eq names)
  rw [slashForm, parts_ofNames h, filterMap_slashText?_map_name, ← htext, ofNames, ofPieces]

/-- The path starts with the path `q` when the parts of `q` are names at its front. -/
theorem startsWith_ofNames_iff (q : Path) :
  (ofNames names).startsWith q ↔ q.parts <+: names.map .name
  := by
  rw [startsWith, parts_ofNames h, List.isPrefixOf_iff_prefix]

/-- Different names have different paths. -/
theorem eq_of_intercalate_eq {names' : List String} (h' : ∀ name ∈ names', IsName name)
    (e : "/".intercalate names = "/".intercalate names') :
  names = names'
  := by
  have hparts : (ofNames names).parts = (ofNames names').parts := by
    rw [ofNames_eq, ofNames_eq, e]
  rw [parts_ofNames h, parts_ofNames h'] at hparts
  exact List.map_injective_iff.2 (fun _ _ => Part.name.inj) hparts

end

/-! ### Extensions -/

/-- The suffix is what follows the last dot of the name, and that dot does not lead the name. -/
def IsExtension (suffix name : String) : Prop :=
  '.' ∉ suffix.toList ∧ ∃ stem : String, stem ≠ "" ∧ name = stem ++ "." ++ suffix

theorem extension?_of_not_mem (h : '.' ∉ name.toList) :
  extension? name = none
  := by
  rw [extension?, List.splitOn_eq_singleton h]
  rfl

/-- The last dot of a name decides what its extension is. -/
theorem extension?_ofList_append {stem suffix : List Char} (h : '.' ∉ suffix) :
  extension? (.ofList (stem ++ '.' :: suffix))
    = if stem = [] then none else some (.ofList suffix)
  := by
  rw [extension?, String.toList_ofList, List.splitOn_append_cons_self,
    List.splitOn_eq_singleton h, List.reverse_append, List.reverse_singleton,
    List.singleton_append]
  by_cases hs : stem = []
  · subst hs
    rfl
  · rw [if_neg hs]
    split
    · next heq => cases heq
    · next heq =>
      have hnil := List.reverse_eq_nil_iff.1 (List.cons.inj heq).2
      exact absurd hnil (List.splitOn_ne_nil '.' stem)
    · next heq =>
      have hsplit := List.reverse_eq_iff.1 (List.cons.inj heq).2
      have hstem : ['.'].intercalate (stem.splitOn '.') = stem := List.intercalate_splitOn '.'
      rw [hsplit] at hstem
      exact absurd hstem.symm hs
    · next heq => rw [(List.cons.inj heq).1]

theorem extension?_eq_some_iff {suffix : String} :
  extension? name = some suffix ↔ IsExtension suffix name
  := by
  constructor
  · intro h
    have hdot : '.' ∈ name.toList := by
      by_contra hdot
      rw [extension?_of_not_mem hdot] at h
      cases h
    obtain ⟨after, before, hrev, hafter⟩ :=
      List.eq_append_cons_of_mem (List.mem_reverse.2 hdot)
    have hname : name = .ofList (before.reverse ++ '.' :: after.reverse) := by
      rw [← String.toList_inj, String.toList_ofList, ← List.reverse_inj, hrev]
      simp
    have hafter' : '.' ∉ after.reverse := fun hm => hafter (List.mem_reverse.1 hm)
    rw [hname, extension?_ofList_append hafter'] at h
    split at h
    · cases h
    · next hb =>
      obtain rfl := Option.some.inj h
      constructor
      · rwa [String.toList_ofList]
      · use .ofList before.reverse
        constructor
        · intro e
          apply hb
          rw [← String.toList_ofList (l := before.reverse), e]
          rfl
        · rw [hname, ← String.toList_inj]
          simp
  · rintro ⟨hs, stem, hne, rfl⟩
    have hname : stem ++ "." ++ suffix = .ofList (stem.toList ++ '.' :: suffix.toList) := by
      rw [← String.toList_inj]
      simp
    rw [hname, extension?_ofList_append hs, if_neg, String.ofList_toList]
    intro e
    apply hne (String.toList_inj.1 e)

end Localization.Path

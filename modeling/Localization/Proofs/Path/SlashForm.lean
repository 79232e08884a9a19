import Localization.Proofs.Path.Names
import Localization.Proofs.Text.Cutting

/-!
# Slash forms

The slash form of a path is a path that has the steps of the path for its parts, and nothing else
(`parts_slashForm`).  Names with separators between them can be cut at each of these separators, and
nowhere else (`toList_intercalate_eq_iff`).
-/

namespace Localization.Path

variable {p : Path} {names : List String}

/-! ### The steps of a path -/

/-- The steps of a path after its start. -/
def steps (p : Path) : List Part :=
  p.body.filterMap part?

theorem parts_eq (p : Path) : p.parts = p.anchor?.toList ++ p.steps := rfl

/-- A path starts at the root, or at the current directory, if it says where. -/
theorem eq_of_anchor? {q : Part} (h : p.anchor? = some q) :
  q = .root ∨ q = .current
  := by
  rw [anchor?] at h
  split at h
  · exact Or.inl (Option.some.inj h).symm
  · exact Or.inr (Option.some.inj h).symm
  · cases h

theorem mem_pieces_of_mem_body {piece : List Char} (h : piece ∈ p.body) :
  piece ∈ p.pieces
  := by
  rw [body] at h
  split at h
  · next heq =>
    rw [heq]
    apply List.mem_cons_of_mem _ h
  · next heq =>
    rw [heq]
    apply List.mem_cons_of_mem _ h
  · exact h

theorem isStep_of_part? {piece : List Char} {q : Part} (hs : '/' ∉ piece)
    (h : part? piece = some q) :
  q.IsStep
  := by
  rw [part?] at h
  split at h
  · cases h
  · next hidle =>
    split at h
    · obtain rfl := Option.some.inj h
      trivial
    · next hup =>
      obtain rfl := Option.some.inj h
      simp only [isIdle, Bool.or_eq_true, beq_iff_eq, not_or] at hidle
      simp [Part.IsStep, IsName, ← String.toList_inj, hidle, hup, hs]

theorem isStep_of_mem_steps {q : Part} (h : q ∈ p.steps) :
  q.IsStep
  := by
  obtain ⟨piece, hp, hq⟩ := List.mem_filterMap.1 h
  apply isStep_of_part? (Text.not_mem_of_mem_splitOn (mem_pieces_of_mem_body hp)) hq

/-- The start of a path is not written in its slash form. -/
theorem slashForm_eq (p : Path) :
  p.slashForm = (ofPieces (p.steps.filterMap slashText?)).text
  := by
  have hanchor : p.anchor?.toList.filterMap slashText? = [] := by
    cases h : p.anchor? with
    | none => rfl
    | some q => obtain rfl | rfl := eq_of_anchor? h <;> rfl
  rw [slashForm, parts_eq, List.filterMap_append, hanchor]
  rfl

/-- The parts of the slash form of a path are the steps of the path. -/
theorem parts_slashForm (p : Path) :
  (Path.mk p.slashForm).parts = p.steps
  := by
  rw [slashForm_eq]
  apply parts_ofPieces fun _ => isStep_of_mem_steps

/-- The parts of a path are names at the front of others exactly when it has no start and its steps
are. -/
theorem parts_prefix_names_iff :
  p.parts <+: names.map .name
    ↔ p.anchor? = none ∧ (Path.mk p.slashForm).parts <+: names.map .name
  := by
  rw [parts_slashForm, parts_eq]
  cases h : p.anchor? with
  | none => simp
  | some q =>
    have hq : ∀ name, q ≠ .name name := by
      obtain rfl | rfl := eq_of_anchor? h
      · exact nofun
      · exact nofun
    cases names with
    | nil => simp
    | cons name names => simp [hq]

theorem slashForm_of_parts (h : p.parts = names.map .name) :
  p.slashForm = "/".intercalate names
  := by
  rw [slashForm, h, filterMap_slashText?_map_name, ← String.toList_inj, String.toList_ofList,
    String.toList_intercalate]
  rfl

/-! ### Cutting at separators -/

theorem toList_intercalate_of_map_eq {text : List Char}
    (h : names.map String.toList = text.splitOn '/') :
  ("/".intercalate names).toList = text
  := by
  rw [String.toList_intercalate, h]
  apply List.intercalate_splitOn

/-- Names with separators between them can be cut at each of these, and nowhere else. -/
theorem toList_intercalate_eq_iff (h : ∀ name ∈ names, IsName name) {before after : List Char} :
  ("/".intercalate names).toList = before ++ '/' :: after
    ↔ ∃ front back, names = front ++ back ∧ front ≠ [] ∧ back ≠ []
      ∧ ("/".intercalate front).toList = before ∧ ("/".intercalate back).toList = after
  := by
  constructor
  · intro heq
    have hne : names ≠ [] := by
      rintro rfl
      simp at heq
    have hpieces : names.map String.toList = before.splitOn '/' ++ after.splitOn '/' := by
      rw [← pieces_ofNames h hne, ofNames_eq, pieces, heq, List.splitOn_append_cons_self]
    obtain ⟨front, back, rfl, hf, hb⟩ := List.map_eq_append_iff.1 hpieces
    use front, back, rfl
    refine ⟨?_, ?_, toList_intercalate_of_map_eq hf, toList_intercalate_of_map_eq hb⟩
    · rintro rfl
      apply List.splitOn_ne_nil '/' before hf.symm
    · rintro rfl
      apply List.splitOn_ne_nil '/' after hb.symm
  · rintro ⟨front, back, rfl, hf, hb, rfl, rfl⟩
    rw [String.intercalate_append_of_ne_nil hf hb]
    simp

/-- A path that is its own slash form has its parts at the front of some names, when they are the
names of the path or the path and a separator begin them. -/
theorem parts_prefix_names_iff_of_slashForm (h : ∀ name ∈ names, IsName name) {text : String}
    (hform : (Path.mk text).slashForm = text) (hne : text ≠ "") :
  (Path.mk text).parts <+: names.map .name
    ↔ "/".intercalate names = text
      ∨ ∃ rest, ("/".intercalate names).toList = text.toList ++ '/' :: rest
  := by
  constructor
  · rintro ⟨after, heq⟩
    obtain ⟨front, back, rfl, hfront, -⟩ := List.map_eq_append_iff.1 heq.symm
    have htext : "/".intercalate front = text := by
      rw [← slashForm_of_parts hfront.symm, hform]
    by_cases hb : back = []
    · left
      rw [hb, List.append_nil, htext]
    · right
      have hf : front ≠ [] := by
        rintro rfl
        exact hne htext.symm
      use ("/".intercalate back).toList
      rw [toList_intercalate_eq_iff h]
      exact ⟨front, back, rfl, hf, hb, congrArg String.toList htext, rfl⟩
  · rintro (rfl | ⟨rest, hrest⟩)
    · rw [← ofNames_eq, parts_ofNames h]
    · obtain ⟨front, back, rfl, -, -, hfront, -⟩ := (toList_intercalate_eq_iff h).1 hrest
      obtain rfl := String.toList_inj.1 hfront
      rw [← ofNames_eq, parts_ofNames fun n hn => h n (List.mem_append_left back hn),
        List.map_append]
      apply List.prefix_append

/-- Names with separators between them begin with a name and a separator when this is the first of
several names. -/
theorem exists_toList_intercalate_eq_name_iff (h : ∀ name ∈ names, IsName name) {name : String}
    (hname : IsName name) :
  (∃ rest, ("/".intercalate names).toList = name.toList ++ '/' :: rest)
    ↔ ∃ back, names = name :: back ∧ back ≠ []
  := by
  simp only [toList_intercalate_eq_iff h]
  constructor
  · rintro ⟨rest, front, back, rfl, -, hb, hfront, -⟩
    have hnames : ∀ n ∈ [name], IsName n := by simpa using hname
    have hfront' : front = [name] := by
      apply eq_of_intercalate_eq (fun n hn => h n (List.mem_append_left back hn)) hnames
      rw [String.toList_inj.1 hfront, String.intercalate_singleton]
    use back
    rw [hfront']
    exact ⟨rfl, hb⟩
  · rintro ⟨back, rfl, hb⟩
    exact ⟨_, [name], back, rfl, List.cons_ne_nil name [], hb, by simp, rfl⟩

/-- A name stands before the last of the names when it and a separator are found at the start or
after a separator. -/
theorem exists_toList_intercalate_iff_mem_dropLast (h : ∀ name ∈ names, IsName name)
    {name : String} (hname : IsName name) :
  (∃ rest, ("/".intercalate names).toList = name.toList ++ '/' :: rest)
      ∨ (∃ front rest,
        ("/".intercalate names).toList = front ++ '/' :: (name.toList ++ '/' :: rest))
    ↔ name ∈ names.dropLast
  := by
  rw [exists_toList_intercalate_eq_name_iff h hname]
  simp only [toList_intercalate_eq_iff h]
  constructor
  · rintro (⟨back, rfl, hb⟩ | ⟨_, rest, front, back, rfl, -, hb, -, hback⟩)
    · rw [List.dropLast_cons_of_ne_nil hb]
      exact List.mem_cons_self
    · obtain ⟨back', rfl, hb'⟩ := (exists_toList_intercalate_eq_name_iff
        (fun n hn => h n (List.mem_append_right front hn)) hname).1 ⟨rest, hback⟩
      rw [List.dropLast_append_of_ne_nil hb, List.dropLast_cons_of_ne_nil hb']
      exact List.mem_append_right front List.mem_cons_self
  · intro hmem
    obtain rfl | ⟨names, last, rfl⟩ := List.eq_nil_or_concat' names
    · cases hmem
    rw [List.dropLast_concat] at hmem
    obtain ⟨front, back, rfl⟩ := List.append_of_mem hmem
    rw [List.append_assoc, List.cons_append] at h ⊢
    by_cases hf : front = []
    · left
      exact ⟨back ++ [last], by simp [hf], by simp⟩
    · right
      obtain ⟨rest, hrest⟩ := (exists_toList_intercalate_eq_name_iff
        (fun n hn => h n (List.mem_append_right front hn)) hname).2 ⟨back ++ [last], rfl, by simp⟩
      exact ⟨_, rest, front, _, rfl, hf, List.cons_ne_nil _ _, rfl, hrest⟩

end Localization.Path

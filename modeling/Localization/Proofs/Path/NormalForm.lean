import Localization.Proofs.Path.SlashForm
import Localization.Proofs.Scan.Selection

/-!
# Slash forms are normal forms

`Path.IsNormal` says of a text that its separators stand between its pieces, each on its own, and
that no piece is `.`.  A slash form is normal (`isNormal_slashForm`) and its own slash form
(`slashForm_slashForm`).  Two paths have the same slash form when they have the same steps
(`slashForm_eq_iff`), and the steps are the parts of a path without its start
(`filter_parts`, `withoutCurrent_parts`).  So the slash form tells relative paths apart up to a `.`
in front, and it tells all entries below a directory apart (`slashForm_normalizes`).
-/

namespace Localization.Path

variable {p q : Path} {text : String}

/-- No separator leads or trails or is doubled, and none of the pieces is `.`. -/
structure IsNormal (text : String) : Prop where
  not_leading : ¬ ['/'] <+: text.toList
  not_trailing : ¬ ['/'] <:+ text.toList
  not_doubled : ¬ ['/', '/'] <:+: text.toList
  not_current : ['.'] ∉ text.toList.splitOn '/'

/-- The parts without a `.` in front. -/
def withoutCurrent : List Part → List Part
  | .current :: parts => parts
  | parts => parts

/-! ### The form of the text -/

/-- A text is normal when none of its pieces is idle. -/
theorem isNormal_of_pieces (h : ∀ piece ∈ text.toList.splitOn '/', ¬ isIdle piece) :
  IsNormal text
  := by
  -- an empty piece stands in front of a separator that leads, and after one that trails
  have hnil : [] ∈ ([] : List Char).splitOn '/' := by decide
  have hempty : ∀ front back, text.toList = front ++ '/' :: back →
      [] ∉ front.splitOn '/' ∧ [] ∉ back.splitOn '/' := by
    intro front back heq
    rw [heq, List.splitOn_append_cons_self, List.forall_mem_append] at h
    exact ⟨fun hf => h.1 [] hf rfl, fun hb => h.2 [] hb rfl⟩
  constructor
  · rintro ⟨back, hback⟩
    apply (hempty [] back hback.symm).1 hnil
  · rintro ⟨front, hfront⟩
    apply (hempty front [] hfront.symm).2 hnil
  · rintro ⟨front, back, heq⟩
    rw [List.append_assoc] at heq
    apply (hempty front ('/' :: back) heq.symm).2
    rw [← List.nil_append ('/' :: back), List.splitOn_append_cons_self]
    apply List.mem_append_left _ hnil
  · intro hc
    apply h ['.'] hc rfl

/-- A slash form is normal. -/
theorem isNormal_slashForm (p : Path) : IsNormal p.slashForm := by
  rw [slashForm_eq]
  by_cases hne : p.steps = []
  · rw [hne]
    exact ⟨by decide, by decide, by decide, by decide⟩
  · apply isNormal_of_pieces
    have hsteps : ∀ q ∈ p.steps, q.IsStep := fun _ => isStep_of_mem_steps
    have hpieces := pieces_ofPieces hsteps hne
    rw [pieces] at hpieces
    intro piece hp
    rw [hpieces, List.mem_filterMap] at hp
    obtain ⟨q, hq, hpiece⟩ := hp
    obtain ⟨text, htext, -, hempty, hcurrent, -⟩ := (hsteps q hq).exists_slashText?
    obtain rfl := Option.some.inj (htext.symm.trans hpiece)
    simp [isIdle, hempty, hcurrent]

/-! ### The steps of the path -/

/-- Paths have the same slash form when they have the same steps. -/
theorem slashForm_eq_iff : p.slashForm = q.slashForm ↔ p.steps = q.steps := by
  constructor
  · intro h
    rw [← parts_slashForm, h, parts_slashForm]
  · intro h
    rw [slashForm_eq, h, slashForm_eq]

/-- The steps of a path are its parts except the root and the `.` at its start. -/
theorem filter_parts (p : Path) : p.parts.filter (· ∉ [.root, .current]) = p.steps := by
  have hsteps : ∀ q ∈ p.steps, decide (q ∉ [Part.root, Part.current]) = true := by
    intro q hq
    have hstep := isStep_of_mem_steps hq
    cases q with
    | name text => simp
    | up => decide
    | root => cases hstep
    | current => cases hstep
  rw [parts_eq, List.filter_append, List.filter_eq_self.2 hsteps]
  cases h : p.anchor? with
  | none => rfl
  | some q => obtain rfl | rfl := eq_of_anchor? h <;> rfl

/-- The steps of a relative path are its parts without a `.` in front. -/
theorem withoutCurrent_parts (h : ¬ p.isAbsolute) : withoutCurrent p.parts = p.steps := by
  rw [parts_eq]
  cases ha : p.anchor? with
  | none =>
    cases hs : p.steps with
    | nil => rfl
    | cons q steps =>
      have hq : q.IsStep := isStep_of_mem_steps (hs ▸ List.mem_cons_self)
      cases q with
      | current => cases hq
      | name text => rfl
      | up => rfl
      | root => rfl
  | some q =>
    obtain rfl | rfl := eq_of_anchor? ha
    · apply absurd _ h
      simp [isAbsolute, ha]
    · rfl

theorem steps_slashForm (p : Path) : (Path.mk p.slashForm).steps = p.steps := by
  rw [← filter_parts, parts_slashForm, ← filter_parts, List.filter_filter]
  simp only [Bool.and_self]

/-- A slash form is its own slash form. -/
theorem slashForm_slashForm (p : Path) : (Path.mk p.slashForm).slashForm = p.slashForm :=
  slashForm_eq_iff.2 (steps_slashForm p)

/-! ### Entries below a directory -/

/-- The names that lead to two entries below a directory have different relative paths. -/
theorem relative_ne {fs : FileSystem} {base names names' : Location}
    (h : (fs.get? (base ++ names)).isSome) (h' : (fs.get? (base ++ names')).isSome)
    (hne : names ≠ names') (root : Path) :
  (Scan.sourceFile root names).relative ≠ (Scan.sourceFile root names').relative
  := by
  have isName_of_isSome : ∀ {names}, (fs.get? (base ++ names)).isSome →
      ∀ name ∈ names, IsName name := by
    intro names h name hn
    obtain ⟨e, he⟩ := Option.isSome_iff_exists.1 h
    apply FileSystem.isName_of_get? he name (List.mem_append_right base hn)
  intro heq
  apply hne
  apply Scan.eq_of_relative_eq (isName_of_isSome h) (isName_of_isSome h') heq

/-- The slash form is a normal form of a path: it consists of the names and the `..` of the path in
their order, and is its own slash form.  Relative paths have the same slash form when they differ
in nothing but a `.` in front.  No two entries below a directory have the same. -/
theorem slashForm_normalizes (p : Path) :
  IsNormal p.slashForm
    ∧ (Path.mk p.slashForm).parts = p.parts.filter (· ∉ [.root, .current])
    ∧ (Path.mk p.slashForm).slashForm = p.slashForm
    ∧ (∀ q : Path, ¬ p.isAbsolute → ¬ q.isAbsolute →
      (p.slashForm = q.slashForm ↔ withoutCurrent p.parts = withoutCurrent q.parts))
    ∧ ∀ (fs : FileSystem) (root : Path) (base names names' : Location),
      (fs.get? (base ++ names)).isSome → (fs.get? (base ++ names')).isSome → names ≠ names' →
      (Scan.sourceFile root names).relative ≠ (Scan.sourceFile root names').relative
  := by
  refine ⟨isNormal_slashForm p, ?_, slashForm_slashForm p, ?_, ?_⟩
  · rw [parts_slashForm, filter_parts]
  · intro q hp hq
    rw [slashForm_eq_iff, withoutCurrent_parts hp, withoutCurrent_parts hq]
  · intro fs root base names names' h h' hne
    apply relative_ne h h' hne

/-- Repeated and trailing separators, a `.` at any place, and names that are made of dots; and two
files in one directory. -/
theorem slashForm_normalizes_dots :
  (Path.mk "./src//.../.././..x/.").slashForm = (Path.mk "src/.../../..x//").slashForm
    ∧ (Scan.sourceFile ⟨"app"⟩ ["views.jsx", "Menu.jsx"]).relative
      ≠ (Scan.sourceFile ⟨"app"⟩ ["views.jsx", ".jsx"]).relative
  := by
  obtain ⟨-, -, -, hiff, hfiles⟩ := slashForm_normalizes ⟨"./src//.../.././..x/."⟩
  constructor
  · apply (hiff ⟨"src/.../../..x//"⟩ (by decide) (by decide)).2
    decide
  · apply hfiles Scan.project ⟨"app"⟩ ["home", "app"] ["views.jsx", "Menu.jsx"]
      ["views.jsx", ".jsx"]
    · decide +kernel
    · decide +kernel
    · decide

end Localization.Path

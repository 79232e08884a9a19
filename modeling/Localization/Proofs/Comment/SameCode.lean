import Localization.Catalog
import Localization.Proofs.Comment.Lines
import Mathlib.Data.List.Forall2
import Mathlib.Data.List.TakeWhile

/-!
# What a line comment holds

Two texts have the `SameCode` when they have equally many lines, and at each place the same
line or two lines that `HoldNoCode`: comments, or nothing.  Exactly these texts become the same
when their comment lines are emptied (`dropLines_eq_iff`), and so two such sources have the same
records (`Record.ofSource_of_sameCode`).  It does not matter where the lines stand: a comment
line inside a marker or inside a block comment is emptied as well.
-/

namespace Localization.Comment

/-- The line is a comment: nothing but spaces and tabs stands before a `//` on it. -/
def IsComment (line : List Char) : Prop :=
  ∃ indent rest, (∀ c ∈ indent, c = ' ' ∨ c = '\t') ∧ line = indent ++ '/' :: '/' :: rest

/-- The line holds no code: it is a comment or empty. -/
def HoldsNoCode (line : List Char) : Prop :=
  IsComment line ∨ line = []

/-- The texts have equally many lines, and lines at the same place are equal or hold no code. -/
def SameCode (source source' : List Char) : Prop :=
  List.Forall₂ (fun line line' => line = line' ∨ HoldsNoCode line ∧ HoldsNoCode line')
    (source.splitOn '\n') (source'.splitOn '\n')

/-! ### Lines -/

theorem isLineComment_iff {line : List Char} : isLineComment line = true ↔ IsComment line := by
  rw [isLineComment, List.isPrefixOf_iff_prefix]
  constructor
  · rintro ⟨rest, hr⟩
    use line.takeWhile isIndent, rest
    constructor
    · exact forall_isIndent_iff.1 fun c hc => List.mem_takeWhile_imp hc
    · change line = line.takeWhile isIndent ++ (['/', '/'] ++ rest)
      rw [hr, List.takeWhile_append_dropWhile]
  · rintro ⟨indent, rest, hi, rfl⟩
    rw [List.dropWhile_append_of_pos (forall_isIndent_iff.2 hi)]
    exact ⟨rest, rfl⟩

instance (line : List Char) : Decidable (IsComment line) :=
  decidable_of_iff _ isLineComment_iff

instance (line : List Char) : Decidable (HoldsNoCode line) :=
  inferInstanceAs (Decidable (_ ∨ _))

instance (source source' : List Char) : Decidable (SameCode source source') :=
  inferInstanceAs (Decidable (List.Forall₂ _ _ _))

/-- What is left of a line when comments are emptied. -/
def emptied (line : List Char) : List Char :=
  if isLineComment line then [] else line

theorem emptied_eq_nil_iff {line : List Char} : emptied line = [] ↔ HoldsNoCode line := by
  rw [emptied, HoldsNoCode, ← isLineComment_iff]
  split
  · next h => simp [h]
  · next h => simp [h]

/-- The same is left of two lines exactly when they are equal or hold no code. -/
theorem emptied_eq_iff {line line' : List Char} :
  emptied line = emptied line' ↔ line = line' ∨ HoldsNoCode line ∧ HoldsNoCode line'
  := by
  constructor
  · intro h
    by_cases hl : HoldsNoCode line
    · rw [emptied_eq_nil_iff.2 hl, eq_comm, emptied_eq_nil_iff] at h
      exact Or.inr ⟨hl, h⟩
    · have hl' : ¬ HoldsNoCode line' := by
        rwa [← emptied_eq_nil_iff, ← h, emptied_eq_nil_iff]
      rw [HoldsNoCode, not_or, ← isLineComment_iff] at hl hl'
      rw [emptied, emptied, if_neg hl.1, if_neg hl'.1] at h
      exact Or.inl h
  · rintro (rfl | ⟨h, h'⟩)
    · rfl
    · rw [emptied_eq_nil_iff.2 h, emptied_eq_nil_iff.2 h']

/-! ### Texts -/

/-- Emptying comment lines keeps the line breaks, and so it keeps the lines apart. -/
theorem splitOn_dropLines (text : List Char) :
  (dropLines text).splitOn '\n' = (text.splitOn '\n').map emptied
  := by
  apply List.splitOn_intercalate
  · intro line hline
    obtain ⟨l, hl, rfl⟩ := List.mem_map.1 hline
    split
    · apply List.not_mem_nil
    · apply Text.not_mem_of_mem_splitOn hl
  · simp

theorem splitOn_eq_iff {text text' : List Char} :
  text.splitOn '\n' = text'.splitOn '\n' ↔ text = text'
  := by
  constructor
  · intro h
    rw [← @List.intercalate_splitOn _ text _ _ '\n', h, List.intercalate_splitOn]
  · apply congrArg

/-- Exactly the texts with the same code are the same when their comment lines are emptied. -/
theorem dropLines_eq_iff {source source' : List Char} :
  dropLines source = dropLines source' ↔ SameCode source source'
  := by
  rw [← splitOn_eq_iff, splitOn_dropLines, splitOn_dropLines, ← List.forall₂_eq_eq_eq,
    List.forall₂_map_left_iff, List.forall₂_map_right_iff, SameCode]
  simp only [emptied_eq_iff]

end Localization.Comment

namespace Localization

open Comment

/-- The records of a source do not depend on what its comment lines hold, nor on whether they
are comments or empty. -/
theorem Record.ofSource_of_sameCode {source source' : String}
    (h : SameCode source.toList source'.toList) (component : Component) (file : String) :
  Record.ofSource component file source = Record.ofSource component file source'
  := by
  rw [Record.ofSource, Record.ofSource, strip, strip, dropLines_eq_iff.2 h]

/-- A comment line inside a marker and one inside a block comment, each with an element and the
end of a comment on it: the records are those of the source with other comments. -/
theorem Record.ofSource_of_sameCode_page :
  Record.ofSource .default "App.jsx"
      "<LocalizeText\n // <LocalizeText id='a' />*/\n id='b' />\n/*\n\t// */<LocalizeText />\n*/"
    = [{ id := some "b", file := "App.jsx" }]
  := by
  have h := @Record.ofSource_of_sameCode
    "<LocalizeText\n // <LocalizeText id='a' />*/\n id='b' />\n/*\n\t// */<LocalizeText />\n*/"
    "<LocalizeText\n\n id='b' />\n/*\n//\n*/" (by decide) .default "App.jsx"
  rw [h]
  decide +kernel

end Localization

import Localization.Comment
import Localization.Proofs.Text.Cutting

/-!
# Emptying comment lines, line by line

`Comment.dropLines` goes through a text line by line (`dropLines_append_newline`), and what is
said of texts is shown by `induction_lines`.  After the first line of a text nothing depends on
that line: `dropLaterLines` empties the comment lines that come after it.  A text that does not
end in a comment line is gone through on its own when a `*` comes after it
(`dropLines_append_star`).
-/

namespace Localization.Comment

/-- A text is its first line, and after it nothing or a line break with the other lines. -/
theorem exists_line (text : List Char) :
  ∃ line rest, text = line ++ rest ∧ '\n' ∉ line ∧ (rest = [] ∨ ∃ t, rest = '\n' :: t)
  := by
  induction text with
  | nil => exact ⟨[], [], rfl, by simp, Or.inl rfl⟩
  | cons c cs ih =>
    by_cases hc : c = '\n'
    · subst hc
      exact ⟨[], '\n' :: cs, rfl, by simp, Or.inr ⟨cs, rfl⟩⟩
    · obtain ⟨line, rest, rfl, hl, hr⟩ := ih
      use c :: line, rest, rfl
      constructor
      · rw [List.mem_cons, not_or]
        exact ⟨fun h => hc h.symm, hl⟩
      · exact hr

/-- What holds of a single line, and of a line before a text of which it holds, holds of every
text. -/
@[elab_as_elim]
theorem induction_lines {motive : List Char → Prop} (text : List Char)
    (last : ∀ line, '\n' ∉ line → motive line)
    (more : ∀ line rest, '\n' ∉ line → motive rest → motive (line ++ '\n' :: rest)) :
  motive text
  := by
  induction hn : text.length using Nat.strong_induction_on generalizing text with
  | _ n ih =>
    obtain ⟨line, rest, rfl, hl, rfl | ⟨t, rfl⟩⟩ := exists_line text
    · rw [List.append_nil]
      apply last line hl
    · apply more line t hl
      apply ih t.length _ t rfl
      simp only [← hn, List.length_append, List.length_cons]
      omega

theorem forall_isIndent_iff {indent : List Char} :
  (∀ c ∈ indent, isIndent c) ↔ ∀ c ∈ indent, c = ' ' ∨ c = '\t'
  := by
  simp [isIndent]

/-! ### Dropping line comments -/

theorem intercalate_append {separator : List Char} {xs ys : List (List Char)} (hx : xs ≠ [])
    (hy : ys ≠ []) :
  separator.intercalate (xs ++ ys)
    = separator.intercalate xs ++ (separator ++ separator.intercalate ys)
  := by
  induction xs with
  | nil => exact absurd rfl hx
  | cons x xs ih =>
    by_cases h : xs = []
    · subst h
      rw [List.singleton_append, List.intercalate_cons_of_ne_nil hy, List.intercalate_singleton,
        List.append_assoc]
    · rw [List.cons_append, List.intercalate_cons_of_ne_nil (by simp [h]), ih h,
        List.intercalate_cons_of_ne_nil h]
      simp

theorem dropLines_of_not_mem {line : List Char} (h : '\n' ∉ line) :
  dropLines line = if isLineComment line then [] else line
  := by
  rw [dropLines, List.splitOn_eq_singleton h, List.map_singleton, List.intercalate_singleton]

/-- The lines before a line break and those after it are gone through one after the other. -/
theorem dropLines_append_newline (text rest : List Char) :
  dropLines (text ++ '\n' :: rest) = dropLines text ++ '\n' :: dropLines rest
  := by
  rw [dropLines, List.splitOn_append_cons_self, List.map_append, intercalate_append]
  · rfl
  · simp
  · simp

/-- The text with the comment lines emptied that come after its first line. -/
def dropLaterLines (text : List Char) : List Char :=
  text.takeWhile (· ≠ '\n') ++
    match text.dropWhile (· ≠ '\n') with
    | [] => []
    | c :: rest => c :: dropLines rest

theorem ne_newline_of_not_mem {line : List Char} (h : '\n' ∉ line) :
  ∀ c ∈ line, decide (c ≠ '\n') = true
  := fun _ hc => decide_eq_true fun he => h (he ▸ hc)

/-- The first line of a text ends where the first line break stands. -/
theorem takeWhile_line_append {line rest : List Char} (hl : '\n' ∉ line)
    (hr : rest = [] ∨ ∃ t, rest = '\n' :: t) :
  (line ++ rest).takeWhile (· ≠ '\n') = line
  := by
  rw [List.takeWhile_append_of_pos (ne_newline_of_not_mem hl)]
  obtain rfl | ⟨t, rfl⟩ := hr
  · simp
  · simp

theorem dropWhile_line_append {line rest : List Char} (hl : '\n' ∉ line)
    (hr : rest = [] ∨ ∃ t, rest = '\n' :: t) :
  (line ++ rest).dropWhile (· ≠ '\n') = rest
  := by
  rw [List.dropWhile_append_of_pos (ne_newline_of_not_mem hl)]
  obtain rfl | ⟨t, rfl⟩ := hr
  · rfl
  · rfl

theorem dropLaterLines_newline (rest : List Char) :
  dropLaterLines ('\n' :: rest) = '\n' :: dropLines rest
  := rfl

/-- What stands on the first line stays. -/
theorem dropLaterLines_append {line : List Char} (h : '\n' ∉ line) (rest : List Char) :
  dropLaterLines (line ++ rest) = line ++ dropLaterLines rest
  := by
  rw [dropLaterLines, List.takeWhile_append_of_pos (ne_newline_of_not_mem h),
    List.dropWhile_append_of_pos (ne_newline_of_not_mem h), List.append_assoc]
  rfl

/-- A text that does not begin with a comment line can only be emptied after its first line. -/
theorem dropLines_eq_dropLaterLines {text : List Char}
    (h : isLineComment (text.takeWhile (· ≠ '\n')) = false) :
  dropLines text = dropLaterLines text
  := by
  obtain ⟨line, rest, rfl, hl, hr⟩ := exists_line text
  rw [takeWhile_line_append hl hr] at h
  rw [dropLaterLines_append hl]
  obtain rfl | ⟨t, rfl⟩ := hr
  · rw [List.append_nil, dropLines_of_not_mem hl, h]
    exact (List.append_nil line).symm
  · rw [dropLaterLines_newline, dropLines_append_newline, dropLines_of_not_mem hl, h]
    rfl

/-! ### Cutting a text before a star -/

/-- The last line of the text is a comment line. -/
def EndsInLineComment (text : List Char) : Prop :=
  ∃ line ∈ (text.splitOn '\n').getLast?, isLineComment line = true

instance (text : List Char) : Decidable (EndsInLineComment text) :=
  decidable_of_iff (((text.splitOn '\n').getLast?).any isLineComment = true) (by
    rw [EndsInLineComment, Option.any_eq_true]
    rfl)

theorem endsInLineComment_of_not_mem {line : List Char} (h : '\n' ∉ line) :
  EndsInLineComment line ↔ isLineComment line = true
  := by
  simp [EndsInLineComment, List.splitOn_eq_singleton h]

theorem endsInLineComment_append_newline (text rest : List Char) :
  EndsInLineComment (text ++ '\n' :: rest) ↔ EndsInLineComment rest
  := by
  rw [EndsInLineComment, EndsInLineComment, List.splitOn_append_cons_self,
    List.getLast?_append_of_ne_nil _ (by simp)]

/-- Whether a line is a comment does not depend on a star and what comes after it. -/
theorem isLineComment_append_star (line rest : List Char) :
  isLineComment (line ++ '*' :: rest) = isLineComment line
  := by
  rw [isLineComment, isLineComment, List.dropWhile_append]
  split
  · next h =>
    rw [List.isEmpty_iff.1 h]
    rfl
  · next h =>
    rw [Bool.eq_iff_iff, List.isPrefixOf_iff_prefix, List.isPrefixOf_iff_prefix]
    apply Text.prefix_append_iff (by simp)
    exact fun hd => h (List.isEmpty_iff.2 hd)

/-- A text that does not end in a comment line is gone through on its own, when a star comes
after it. -/
theorem dropLines_append_star {text : List Char} (h : ¬ EndsInLineComment text)
    (rest : List Char) :
  dropLines (text ++ '*' :: rest) = dropLines text ++ '*' :: dropLaterLines rest
  := by
  induction text using induction_lines with
  | last line hl =>
    rw [endsInLineComment_of_not_mem hl, Bool.not_eq_true] at h
    have hline : '\n' ∉ line ++ ['*'] := by simp [hl]
    rw [dropLines_of_not_mem hl, h, dropLines_eq_dropLaterLines, List.append_cons,
      dropLaterLines_append hline, List.append_assoc]
    · rfl
    · rw [List.takeWhile_append_of_pos (ne_newline_of_not_mem hl),
        List.takeWhile_cons_of_pos (by decide), isLineComment_append_star, h]
  | more line t hl ih =>
    rw [endsInLineComment_append_newline] at h
    rw [List.append_assoc, List.cons_append, dropLines_append_newline, ih h,
      dropLines_append_newline, List.append_assoc]
    rfl

/-! ### Pairs of characters -/

/-- Emptying lines does not bring two characters together. -/
theorem not_pair_infix_dropLines {c d : Char} (hc : c ≠ '\n') (hd : d ≠ '\n')
    {text : List Char} (h : ¬ [c, d] <:+: text) :
  ¬ [c, d] <:+: dropLines text
  := by
  induction text using induction_lines with
  | last line hl =>
    rw [dropLines_of_not_mem hl]
    split
    · simp
    · exact h
  | more line rest hl ih =>
    rw [Text.pair_infix_append_cons_iff hc hd, not_or] at h
    rw [dropLines_append_newline, Text.pair_infix_append_cons_iff hc hd, not_or]
    constructor
    · rw [dropLines_of_not_mem hl]
      split
      · simp
      · exact h.1
    · exact ih h.2

end Localization.Comment

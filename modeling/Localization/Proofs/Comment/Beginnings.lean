import Localization.Proofs.Comment.Lines
import Localization.Proofs.Text.Cutting

/-!
# How lines begin

`Comment.Begins line` says that nothing but spaces and tabs stands before `//` or `/*` on a
line.  What begins the first line of a text after its indentation begins the whole text so
(`prefix_dropWhile_iff`), and where this is not `/*`, no block comment is found
(`blockLength?_eq_none_of_not_begins`).
-/

namespace Localization.Comment

/-- The line begins with a comment, closed or not: spaces and tabs, then `//` or `/*`. -/
def Begins (line : List Char) : Prop :=
  ['/', '/'] <+: line.dropWhile isIndent ∨ ['/', '*'] <+: line.dropWhile isIndent

instance (line : List Char) : Decidable (Begins line) :=
  inferInstanceAs (Decidable (_ ∨ _))

/-! ### Lines -/

theorem mem_splitOn_of_line {line rest : List Char} (hl : '\n' ∉ line)
    (hr : rest = [] ∨ ∃ t, rest = '\n' :: t) :
  line ∈ (line ++ rest).splitOn '\n'
  := by
  obtain rfl | ⟨t, rfl⟩ := hr
  · rw [List.append_nil, List.splitOn_eq_singleton hl]
    apply List.mem_singleton_self
  · rw [List.splitOn_append_cons_self_of_not_mem hl]
    apply List.mem_cons_self

/-- The lines of what stands after a line break are lines of the whole text. -/
theorem mem_splitOn_append {front line text : List Char}
    (hf : front = [] ∨ front.getLast? = some '\n') (h : line ∈ text.splitOn '\n') :
  line ∈ (front ++ text).splitOn '\n'
  := by
  obtain rfl | hf := hf
  · exact h
  · obtain ⟨f, rfl⟩ := List.getLast?_eq_some_iff.1 hf
    rw [List.append_assoc, List.singleton_append, List.splitOn_append_cons_self]
    apply List.mem_append_right _ h

/-- What begins a line after its indentation begins the whole text so. -/
theorem prefix_dropWhile_iff {pattern line rest : List Char} (hp : pattern ≠ [])
    (hn : '\n' ∉ pattern) (hr : rest = [] ∨ ∃ t, rest = '\n' :: t) :
  pattern <+: (line ++ rest).dropWhile isIndent ↔ pattern <+: line.dropWhile isIndent
  := by
  have hrest : rest.dropWhile isIndent = rest := by
    obtain rfl | ⟨t, rfl⟩ := hr
    · rfl
    · rfl
  have hnot : ¬ pattern <+: rest := by
    obtain rfl | ⟨t, rfl⟩ := hr
    · rwa [List.prefix_nil]
    · intro h
      obtain ⟨c, p, rfl⟩ := List.exists_cons_of_ne_nil hp
      obtain ⟨rfl, -⟩ := List.cons_prefix_cons.1 h
      exact hn List.mem_cons_self
  rw [List.dropWhile_append, hrest]
  split
  · next h => simp [hnot, List.isEmpty_iff.1 h, hp]
  · next h =>
    apply Text.prefix_append_iff _ (mt List.isEmpty_iff.2 h)
    intro c hc ht
    obtain rfl | ⟨t, rfl⟩ := hr
    · cases hc
    · obtain rfl := Option.mem_some_iff.1 hc
      exact hn (List.mem_of_mem_tail ht)

/-- Where a text begins with indentation and `/*`, so does its first line. -/
theorem begins_of_dropWhile {line rest : List Char} (hr : rest = [] ∨ ∃ t, rest = '\n' :: t)
    (h : ['/', '*'] <+: (line ++ rest).dropWhile isIndent) :
  Begins line
  := Or.inr ((prefix_dropWhile_iff (by simp) (by simp) hr).1 h)

theorem blockLength?_eq_none_of_not_begins {before : Option Char} {text : List Char}
    (h : ¬ ['/', '*'] <+: text.dropWhile isIndent) :
  blockLength? before text = none
  := by
  rw [blockLength?]
  split
  · split
    · next body hb => exact absurd (hb ▸ List.prefix_append ['/', '*'] body) h
    · rfl
  · rfl

end Localization.Comment

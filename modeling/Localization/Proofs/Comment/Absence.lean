import Localization.Proofs.Comment.Blocks
import Localization.Proofs.Comment.SameCode

/-!
# Sources without comments

`Comment.HasComment` says that a comment begins a line of a source: a `//` comment, or a
`/* ... */` comment that is closed.  `Comment.strip` leaves exactly the sources as they are that
have no comment; the others become shorter, and what is left of a source stands in it in the same
order (`strip_eq_self_iff`).  So it is with each of the two passes (`dropLines_eq_self_iff`,
`dropBlocks_eq_self_iff`).
-/

namespace Localization.Comment

variable {text : List Char} {before : Option Char}

/-- A block comment begins a line of the text, and is closed on this line or on a later one. -/
def HasBlock (text : List Char) : Prop :=
  ∃ front indent body rest, text = front ++ (block indent body ++ rest)
    ∧ (front = [] ∨ front.getLast? = some '\n') ∧ ∀ c ∈ indent, c = ' ' ∨ c = '\t'

/-- A comment begins a line of the text: a line comment, or a block comment that is closed. -/
def HasComment (text : List Char) : Prop :=
  (∃ line ∈ text.splitOn '\n', IsComment line) ∨ HasBlock text

/-! ### Line comments -/

theorem emptied_sublist (line : List Char) : (emptied line).Sublist line := by
  rw [emptied]
  split
  · apply List.nil_sublist
  · apply List.Sublist.refl

theorem emptied_eq_self_iff {line : List Char} : emptied line = line ↔ ¬ IsComment line := by
  rw [emptied, ← isLineComment_iff]
  split
  · next h =>
    apply iff_of_false _ (not_not_intro h)
    rintro rfl
    cases h
  · next h => exact iff_of_true rfl h

/-- Emptying comment lines drops characters, and leaves the others in their order. -/
theorem dropLines_sublist (text : List Char) : (dropLines text).Sublist text := by
  induction text using induction_lines with
  | last line hl =>
    rw [dropLines_of_not_mem hl]
    apply emptied_sublist
  | more line rest hl ih =>
    rw [dropLines_append_newline, dropLines_of_not_mem hl]
    apply (emptied_sublist line).append (ih.cons_cons '\n')

/-- Emptying comment lines leaves a text as it is when no line is a comment. -/
theorem dropLines_eq_self_iff :
  dropLines text = text ↔ ∀ line ∈ text.splitOn '\n', ¬ IsComment line
  := by
  have hmap := List.map_inj_left (l := text.splitOn '\n') (f := emptied) (g := id)
  rw [List.map_id] at hmap
  rw [← splitOn_eq_iff, splitOn_dropLines, hmap]
  simp only [id, emptied_eq_self_iff]

/-! ### Block comments -/

/-- A block comment can be closed at the first `*/` after it. -/
theorem exists_isBody (indent body rest : List Char) :
  ∃ body' rest', block indent body ++ rest = block indent body' ++ rest' ∧ IsBody body'
  := by
  have hclosed : Text.indexOf? ['*', '/'] (body ++ '*' :: '/' :: rest) ≠ none := by
    rw [Ne, Text.indexOf?_eq_none_iff (by simp), not_not]
    use body, rest
    simp
  obtain ⟨n, hn⟩ := Option.ne_none_iff_exists'.1 hclosed
  obtain ⟨body', rest', heq, hb, -⟩ := exists_isBody_of_indexOf? hn
  use body', rest'
  simp [block, heq, hb]

/-- A block comment is found where it begins a line and is closed. -/
theorem exists_blockLength?_iff :
  (∃ n, blockLength? before text = some (n + 1))
    ↔ (before = none ∨ before = some '\n')
      ∧ ∃ indent body rest, text = block indent body ++ rest ∧ ∀ c ∈ indent, isIndent c
  := by
  constructor
  · rintro ⟨n, h⟩
    rw [blockLength?] at h
    split at h
    · next hbefore =>
      split at h
      · next after hafter =>
        obtain ⟨k, hk, -⟩ := Option.map_eq_some_iff.1 h
        obtain ⟨body, rest, htext, -⟩ := exists_block_of_dropWhile hafter hk
        use hbefore, text.takeWhile isIndent, body, rest, htext
        intro c hc
        apply List.mem_takeWhile_imp hc
      · cases h
    · cases h
  · rintro ⟨hbefore, indent, body, rest, rfl, hi⟩
    obtain ⟨body, rest, heq, hb⟩ := exists_isBody indent body rest
    have hlength := List.length_pos_iff.2 (block_ne_nil indent body)
    obtain ⟨n, hn⟩ := Nat.exists_eq_succ_of_ne_zero hlength.ne'
    use n
    rw [heq, blockLength?_block hi hb hbefore, hn]

/-- Removing block comments drops characters, and leaves the others in their order. -/
theorem dropBlocks_sublist (text : List Char) : (dropBlocks text).Sublist text :=
  Text.filterMap_plain?_cutFrom_sublist 0 text

/-- Removing block comments leaves a text as it is when none begins a line and is closed. -/
theorem dropBlocks_eq_self_iff : dropBlocks text = text ↔ ¬ HasBlock text := by
  rw [dropBlocks, Text.cut, Text.filterMap_plain?_cutFrom_eq_self_iff]
  simp only [exists_blockLength?_iff, Option.or_none, List.getLast?_eq_none_iff,
    forall_isIndent_iff]
  constructor
  · rintro h ⟨front, indent, body, rest, rfl, hf, hi⟩
    apply h front _ rfl _ ⟨hf, indent, body, rest, rfl, hi⟩
    simp [block]
  · rintro h front s rfl - ⟨hf, indent, body, rest, rfl, hi⟩
    apply h ⟨front, indent, body, rest, rfl, hf, hi⟩

/-- A text has no block comment when none of its lines begins with one. -/
theorem not_hasBlock (h : ∀ line ∈ text.splitOn '\n', ¬ Begins line) :
  ¬ HasBlock text
  := by
  rintro ⟨front, indent, body, rest, rfl, hf, hi⟩
  obtain ⟨line, after, hline, hl, hr⟩ := exists_line (block indent body ++ rest)
  rw [hline] at h
  apply h line (mem_splitOn_append hf (mem_splitOn_of_line hl hr))
  apply begins_of_dropWhile hr
  rw [← hline, block, List.append_assoc, List.dropWhile_append_of_pos (forall_isIndent_iff.2 hi)]
  apply List.prefix_append ['/', '*']

/-! ### Both passes -/

theorem strip_sublist (text : List Char) : (strip text).Sublist text :=
  (dropBlocks_sublist (dropLines text)).trans (dropLines_sublist text)

/-- A text is left as it is when each of the passes leaves it so. -/
theorem strip_eq_iff :
  strip text = text ↔ dropLines text = text ∧ dropBlocks text = text
  := by
  constructor
  · intro h
    have hlines : dropLines text = text := by
      apply (dropLines_sublist text).eq_of_length_le
      rw [← congrArg List.length h]
      apply (dropBlocks_sublist (dropLines text)).length_le
    rw [strip, hlines] at h
    exact ⟨hlines, h⟩
  · rintro ⟨hlines, hblocks⟩
    rw [strip, hlines, hblocks]

/-- A source in which no line begins with a comment is left as it is. -/
theorem strip_eq_self {source : List Char} (h : ∀ line ∈ source.splitOn '\n', ¬ Begins line) :
  strip source = source
  := by
  rw [strip_eq_iff, dropLines_eq_self_iff, dropBlocks_eq_self_iff]
  constructor
  · intro line hline hc
    apply h line hline (Or.inl (List.isPrefixOf_iff_prefix.1 (isLineComment_iff.2 hc)))
  · apply not_hasBlock h

/-- Exactly the sources without a comment are left as they are.  The others become shorter, and
what is left of a source stands in it in the same order. -/
theorem strip_eq_self_iff (source : List Char) :
  (strip source = source ↔ ¬ HasComment source)
    ∧ ((strip source).length < source.length ↔ HasComment source)
    ∧ (strip source).Sublist source
  := by
  have hself : strip source = source ↔ ¬ HasComment source := by
    rw [strip_eq_iff, dropLines_eq_self_iff, dropBlocks_eq_self_iff, HasComment, not_or]
    simp only [not_exists, not_and]
  have hsub := strip_sublist source
  have hlength : (strip source).length < source.length ↔ HasComment source := by
    rw [hsub.length_le.lt_iff_ne, Ne, hsub.length_eq, hself, not_not]
  exact ⟨hself, hlength, hsub⟩

/-- Comments after code, a block comment in braces, one whose `*/` is its own `/*`, and one that is
not closed. -/
example :
  strip "a // b\n{/* c */}\n\t/*/ d\n/* e".toList = "a // b\n{/* c */}\n\t/*/ d\n/* e".toList
  := by decide +kernel

end Localization.Comment

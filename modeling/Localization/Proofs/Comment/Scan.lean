import Localization.Proofs.Comment.Blocks
import Localization.Proofs.Comment.SameCode

/-!
# Dropping comments in one scan

`Comment.scan` goes through a source once, from left to right.  At the start of a line it drops
the comment that begins there, if one does, and copies the rest of the line after it; this is a
`Turn` of the scan.  `Comment.strip` goes through the source twice, for the line comments and
for the block comments, and gives the same, unless a comment line starts inside a block comment
that is dropped (`strip_eq_scan`).
-/

namespace Localization.Comment

/-- What a scan does from the start of a line on: it drops the comment that begins there, and
copies the rest of the line on which the comment ends. -/
structure Turn where
  dropped : List Char
  copied : List Char
  deriving DecidableEq, Repr

/-- The lines that start inside what is dropped. -/
def Turn.innerLines (turn : Turn) : List (List Char) :=
  ((turn.dropped ++ turn.copied).splitOn '\n').tail

/-- The length of the comment at the start of a line, its indentation included: a `//` comment
ends with the line, and a block comment with the first `*/` after its `/*`.  Where no comment
begins, and where a `/*` is not closed, it is zero. -/
def droppedLength (text : List Char) : Nat :=
  match text.dropWhile isIndent with
  | '/' :: '/' :: _ => (text.takeWhile (· ≠ '\n')).length
  | '/' :: '*' :: body =>
    match Text.indexOf? ['*', '/'] body with
    | some n => (text.takeWhile isIndent).length + 2 + n + 2
    | none => 0
  | _ => 0

/-- The turns of a scan from the start of a line to the end of the text. -/
def turns (text : List Char) : List Turn :=
  let rest := text.drop (droppedLength text)
  let turn : Turn := ⟨text.take (droppedLength text), rest.takeWhile (· ≠ '\n')⟩
  match _h : rest.dropWhile (· ≠ '\n') with
  | [] => [turn]
  | _ :: next => turn :: turns next
termination_by text.length
decreasing_by
  have hline := (List.dropWhile_suffix (l := rest) (· ≠ '\n')).length_le
  have hdropped := (List.drop_suffix (droppedLength text) text).length_le
  rw [_h, List.length_cons] at hline
  exact Nat.lt_of_lt_of_le hline hdropped

/-- The source without the comments that start a line, dropped in one scan. -/
def scan (source : List Char) : List Char :=
  ['\n'].intercalate ((turns source).map (·.copied))

variable {dropped line rest text indent body : List Char} {before : Option Char}

/-! ### What is dropped -/

/-- The comment `dropped` begins a line, and the text `rest` comes after it; or nothing is
dropped, because no comment begins with the text or because it is not closed. -/
inductive Drops : (dropped rest : List Char) → Prop where
  | line {line rest : List Char} (hl : '\n' ∉ line) (hc : isLineComment line = true)
      (hr : rest = [] ∨ ∃ t, rest = '\n' :: t) : Drops line rest
  | block {indent body rest : List Char} (hi : ∀ c ∈ indent, isIndent c) (hb : IsBody body) :
      Drops (block indent body) rest
  | unclosed {indent body : List Char} (hi : ∀ c ∈ indent, isIndent c)
      (hb : ¬ ['*', '/'] <:+: body) : Drops [] (indent ++ '/' :: '*' :: body)
  | nothing {rest : List Char} (hl : ¬ ['/', '/'] <+: rest.dropWhile isIndent)
      (hb : ¬ ['/', '*'] <+: rest.dropWhile isIndent) : Drops [] rest

/-- Every text is what is dropped at its start, and what is left after it. -/
theorem exists_drops (text : List Char) :
  ∃ dropped rest, text = dropped ++ rest ∧ droppedLength text = dropped.length
    ∧ Drops dropped rest
  := by
  have htext := List.takeWhile_append_dropWhile (p := isIndent) (l := text)
  have hi : ∀ c ∈ text.takeWhile isIndent, isIndent c := fun c hc => List.mem_takeWhile_imp hc
  generalize hn : droppedLength text = n
  rw [droppedLength] at hn
  split at hn
  · next r hr =>
    obtain ⟨line, rest, rfl, hl, hrest⟩ := exists_line text
    rw [takeWhile_line_append hl hrest] at hn
    refine ⟨line, rest, rfl, hn.symm, .line hl ?_ hrest⟩
    rw [isLineComment, List.isPrefixOf_iff_prefix, ← prefix_dropWhile_iff _ _ hrest, hr]
    · exact List.prefix_append ['/', '/'] r
    · simp
    · simp
  · next r hr =>
    rw [hr] at htext
    split at hn
    · next k hk =>
      obtain ⟨body, rest, hblock, hb, rfl⟩ := exists_block_of_dropWhile hr hk
      refine ⟨block (text.takeWhile isIndent) body, rest, hblock, ?_, .block hi hb⟩
      simp [block, ← hn]
      omega
    · next hk =>
      refine ⟨[], text, rfl, hn.symm, ?_⟩
      rw [← htext]
      apply Drops.unclosed hi
      exact (Text.indexOf?_eq_none_iff (by simp)).1 hk
  · next hline hblock =>
    refine ⟨[], text, rfl, hn.symm, .nothing ?_ ?_⟩
    · rintro ⟨r, hr⟩
      exact hline r hr.symm
    · rintro ⟨r, hr⟩
      exact hblock r hr.symm

/-! ### Turns -/

theorem turns_of_last (hd : droppedLength (dropped ++ line) = dropped.length)
    (hl : '\n' ∉ line) :
  turns (dropped ++ line) = [⟨dropped, line⟩]
  := by
  have htake := List.takeWhile_eq_self_iff.2 (ne_newline_of_not_mem hl)
  have hdrop := List.dropWhile_eq_nil_iff.2 (ne_newline_of_not_mem hl)
  rw [turns]
  simp only [hd, List.drop_left, List.take_left, htake]
  split
  · rfl
  · next h =>
    rw [hd, List.drop_left, hdrop] at h
    cases h

theorem turns_of_more {next : List Char}
    (hd : droppedLength (dropped ++ (line ++ '\n' :: next)) = dropped.length) (hl : '\n' ∉ line) :
  turns (dropped ++ (line ++ '\n' :: next)) = ⟨dropped, line⟩ :: turns next
  := by
  have htake := takeWhile_line_append hl (Or.inr ⟨next, rfl⟩)
  have hdrop := dropWhile_line_append hl (Or.inr ⟨next, rfl⟩)
  rw [turns]
  simp only [hd, List.drop_left, List.take_left, htake]
  split
  · next h =>
    rw [hd, List.drop_left, hdrop] at h
    cases h
  · next h =>
    rw [hd, List.drop_left, hdrop] at h
    rw [(List.cons.inj h).2]

theorem turns_ne_nil (text : List Char) : turns text ≠ [] := by
  rw [turns]
  split
  · simp
  · simp

theorem scan_of_more {next : List Char} (h : turns text = ⟨dropped, line⟩ :: turns next) :
  scan text = line ++ '\n' :: scan next
  := by
  rw [scan, h, List.map_cons, List.intercalate_cons_of_ne_nil (by simp [turns_ne_nil])]
  simp [scan]

/-- What holds of a text with one turn, and of a turn before a text of which it holds, holds of
every text. -/
@[elab_as_elim]
theorem induction_turns {motive : List Char → Prop} (text : List Char)
    (last : ∀ dropped line, Drops dropped line → '\n' ∉ line →
      turns (dropped ++ line) = [⟨dropped, line⟩] → motive (dropped ++ line))
    (more : ∀ dropped line next, Drops dropped (line ++ '\n' :: next) → '\n' ∉ line →
      turns (dropped ++ (line ++ '\n' :: next)) = ⟨dropped, line⟩ :: turns next →
      motive next → motive (dropped ++ (line ++ '\n' :: next))) :
  motive text
  := by
  induction hn : text.length using Nat.strong_induction_on generalizing text with
  | _ n ih =>
    obtain ⟨dropped, rest, rfl, hd, hdrops⟩ := exists_drops text
    obtain ⟨line, rest, rfl, hl, rfl | ⟨next, rfl⟩⟩ := exists_line rest
    · rw [List.append_nil] at hd hdrops ⊢
      apply last dropped line hdrops hl (turns_of_last hd hl)
    · apply more dropped line next hdrops hl (turns_of_more hd hl)
      apply ih next.length _ next rfl
      simp only [← hn, List.length_append, List.length_cons]
      omega

/-! ### One turn of both passes -/

/-- The first line of a text is emptied or not, and the lines after it on their own. -/
theorem dropLines_line_append (hl : '\n' ∉ line) (hr : rest = [] ∨ ∃ t, rest = '\n' :: t) :
  dropLines (line ++ rest) = emptied line ++ dropLaterLines rest
  := by
  obtain rfl | ⟨t, rfl⟩ := hr
  · rw [List.append_nil, dropLines_of_not_mem hl]
    exact (List.append_nil _).symm
  · rw [dropLines_append_newline, dropLines_of_not_mem hl, dropLaterLines_newline]
    rfl

/-- A block comment whose `*/` stands on a comment line has that line inside it. -/
theorem not_hidesEnd (hl : '\n' ∉ line)
    (h : ∀ l ∈ Turn.innerLines ⟨block indent body, line⟩, ¬ IsComment l) :
  ¬ HidesEnd body
  := by
  rintro ⟨hn, hc⟩
  obtain ⟨after, before, hrev, hafter⟩ := List.eq_append_cons_of_mem (List.mem_reverse.2 hn)
  have hbody : body = before.reverse ++ '\n' :: after.reverse := by
    rw [← List.reverse_inj, hrev]
    simp
  have hlast : '\n' ∉ after.reverse ++ '*' :: '/' :: line := by
    simp [hafter, hl]
  rw [hbody, endsInLineComment_append_newline,
    endsInLineComment_of_not_mem (fun hm => hafter (List.mem_reverse.1 hm))] at hc
  apply h (after.reverse ++ '*' :: '/' :: line)
  · have htext : block indent body ++ line
        = (indent ++ '/' :: '*' :: before.reverse)
          ++ '\n' :: (after.reverse ++ '*' :: '/' :: line) := by
      simp [block, hbody]
    rw [Turn.innerLines, htext, List.splitOn_append_cons_self, List.splitOn_eq_singleton hlast,
      List.tail_append_of_ne_nil (List.splitOn_ne_nil _ _)]
    simp
  · rw [← isLineComment_iff, isLineComment_append_star, hc]

theorem blockLength?_unclosed (hi : ∀ c ∈ indent, isIndent c) (hb : ¬ ['*', '/'] <:+: body) :
  blockLength? before (indent ++ '/' :: '*' :: body) = none
  := by
  rw [blockLength?]
  split
  · rw [List.dropWhile_append_of_pos hi, List.dropWhile_cons_of_neg (by decide)]
    simp only [(Text.indexOf?_eq_none_iff (by simp)).2 hb, Option.map_none]
  · rfl

/-- No block comment begins in the middle of a line. -/
theorem cutFrom_line_append (hl : '\n' ∉ line) (hm : blockLength? before (line ++ rest) = none) :
  Text.cutFrom blockLength? before 0 (line ++ rest)
    = line.map .plain ++ Text.cutFrom blockLength? (line.getLast?.or before) 0 rest
  := by
  apply Text.cutFrom_append_of_none
  intro p s hps hs
  cases hp : p.getLast? with
  | none =>
    obtain rfl := List.getLast?_eq_none_iff.1 hp
    rw [List.nil_append] at hps
    rwa [hps] at hm
  | some c =>
    have hc : c ≠ '\n' := by
      rintro rfl
      exact hl (hps ▸ List.mem_append_left s (List.mem_of_getLast? hp))
    rw [blockLength?, if_neg (by simp [hc])]

theorem dropLines_line_append_of_not (hl : '\n' ∉ line)
    (hr : rest = [] ∨ ∃ t, rest = '\n' :: t)
    (hc : ¬ ['/', '/'] <+: (line ++ rest).dropWhile isIndent) :
  dropLines (line ++ rest) = line ++ dropLaterLines rest
  := by
  rw [dropLines_line_append hl hr, emptied, if_neg]
  rwa [isLineComment, List.isPrefixOf_iff_prefix, ← prefix_dropWhile_iff (by simp) (by simp) hr]

/-- A line is copied, where no block comment begins with it. -/
theorem filterMap_cutFrom_line (hl : '\n' ∉ line)
    (hm : blockLength? before (line ++ rest) = none) :
  (Text.cutFrom blockLength? before 0 (line ++ rest)).filterMap Text.Segment.plain?
    = line ++ (Text.cutFrom blockLength? (line.getLast?.or before) 0 rest).filterMap
      Text.Segment.plain?
  := by
  rw [cutFrom_line_append hl hm, List.filterMap_append, Text.filterMap_plain?_plain]

/-- A line that is no comment, and with which no block comment begins, is left by both passes. -/
theorem filterMap_cutFrom_dropLines (hl : '\n' ∉ line) (hr : rest = [] ∨ ∃ t, rest = '\n' :: t)
    (hc : ¬ ['/', '/'] <+: (line ++ rest).dropWhile isIndent)
    (hm : blockLength? before (dropLines (line ++ rest)) = none) :
  (Text.cutFrom blockLength? before 0 (dropLines (line ++ rest))).filterMap Text.Segment.plain?
    = line ++ (Text.cutFrom blockLength? (line.getLast?.or before) 0
      (dropLaterLines rest)).filterMap Text.Segment.plain?
  := by
  rw [dropLines_line_append_of_not hl hr hc] at hm ⊢
  apply filterMap_cutFrom_line hl hm

/-- The first line is empty, where a text is empty or begins with a line break. -/
theorem eq_nil_of_line_append (hl : '\n' ∉ line)
    (h : line ++ rest = [] ∨ ∃ t, line ++ rest = '\n' :: t) :
  line = []
  := by
  obtain h | ⟨t, h⟩ := h
  · apply (List.append_eq_nil_iff.1 h).1
  · cases line with
    | nil => rfl
    | cons c line =>
      obtain rfl := (List.cons.inj h).1
      apply absurd List.mem_cons_self hl

/-- What the scan drops and copies in one turn, both passes drop and copy. -/
theorem exists_cutFrom_turn (hd : Drops dropped (line ++ rest)) (hl : '\n' ∉ line)
    (hr : rest = [] ∨ ∃ t, rest = '\n' :: t) (hb : before = none ∨ before = some '\n')
    (hi : ∀ l ∈ Turn.innerLines ⟨dropped, line⟩, ¬ IsComment l) :
  ∃ b, (Text.cutFrom blockLength? before 0
      (dropLines (dropped ++ (line ++ rest)))).filterMap Text.Segment.plain?
    = line ++ (Text.cutFrom blockLength? b 0 (dropLaterLines rest)).filterMap Text.Segment.plain?
  := by
  generalize ht : line ++ rest = text at hd
  cases hd with
  | line hl' hc hr' =>
    -- the line comment ends where its line ends, and so nothing is copied
    obtain rfl := eq_nil_of_line_append hl (ht ▸ hr')
    use before
    rw [dropLines_line_append hl' hr', emptied, if_pos hc, ← ht]
    rfl
  | @block indent body _ hindent hbody =>
    have hh := not_hidesEnd hl hi
    use line.getLast?.or (some '/')
    rw [← ht, dropLines_block hindent hh, dropLaterLines_append hl,
      Text.cutFrom_append_of_some (block_ne_nil _ _)
        (blockLength?_block hindent (isBody_dropLaterLines hbody hh) hb _),
      getLast?_block, Option.some_or]
    exact filterMap_cutFrom_line hl rfl
  | @unclosed indent body hindent hbody =>
    use line.getLast?.or before
    rw [List.nil_append, ← ht]
    apply filterMap_cutFrom_dropLines hl hr
    · rw [ht, List.dropWhile_append_of_pos hindent, List.dropWhile_cons_of_neg (by decide)]
      simp
    · -- emptying lines does not close the comment
      rw [ht, dropLines_open hindent]
      apply blockLength?_unclosed hindent
      apply not_pair_infix_dropLaterLines (by decide) (by decide) hbody
  | nothing hc hblock =>
    use line.getLast?.or before
    rw [← ht] at hc hblock
    rw [List.nil_append, ← ht]
    apply filterMap_cutFrom_dropLines hl hr hc
    rw [dropLines_line_append_of_not hl hr hc]
    apply blockLength?_eq_none_of_not_begins
    have hr' : dropLaterLines rest = [] ∨ ∃ t, dropLaterLines rest = '\n' :: t := by
      obtain rfl | ⟨t, rfl⟩ := hr
      · exact Or.inl rfl
      · exact Or.inr ⟨_, dropLaterLines_newline t⟩
    rwa [prefix_dropWhile_iff (by simp) (by simp) hr',
      ← prefix_dropWhile_iff (by simp) (by simp) hr]

/-- From the start of a line on, both passes leave what the scan leaves. -/
theorem filterMap_cutFrom_eq_scan (hb : before = none ∨ before = some '\n')
    (h : ∀ turn ∈ turns text, ∀ l ∈ turn.innerLines, ¬ IsComment l) :
  (Text.cutFrom blockLength? before 0 (dropLines text)).filterMap Text.Segment.plain? = scan text
  := by
  induction text using induction_turns generalizing before with
  | last dropped line hd hl ht =>
    rw [ht, List.forall_mem_singleton] at h
    rw [← List.append_nil line] at hd
    obtain ⟨b, hcut⟩ := exists_cutFrom_turn hd hl (Or.inl rfl) hb h
    rw [List.append_nil] at hcut
    rw [hcut, scan, ht]
    simp [dropLaterLines, Text.cutFrom]
  | more dropped line next hd hl ht ih =>
    rw [ht, List.forall_mem_cons] at h
    obtain ⟨b, hcut⟩ := exists_cutFrom_turn hd hl (Or.inr ⟨next, rfl⟩) hb h.1
    have hnewline : blockLength? b ('\n' :: dropLines next) = none := by
      apply blockLength?_eq_none_of_not_begins
      simp [isIndent]
    rw [hcut, dropLaterLines_newline, Text.cutFrom, hnewline, scan_of_more ht,
      ← ih (Or.inr rfl) h.2]
    rfl

/-- One scan leaves what the two passes leave, when no comment line starts inside a block comment
that the scan drops. -/
theorem strip_eq_scan {source : List Char}
    (h : ∀ turn ∈ turns source, ∀ line ∈ turn.innerLines, ¬ IsComment line) :
  strip source = scan source
  := filterMap_cutFrom_eq_scan (Or.inl rfl) h

/-- The end of the block comment is on a comment line, and so the first pass takes it away. -/
example : strip "/*\n// */".toList ≠ scan "/*\n// */".toList := by decide +kernel

/-- A comment line with the end of a comment on it, a block comment with `//` inside a line, and
one that is not closed. -/
theorem strip_eq_scan_page :
  strip "a\n // b */\n/* c\n d // e */ /* f */\n\t/* g".toList = "a\n\n /* f */\n\t/* g".toList
  := by
  have h : ∀ turn ∈ turns "a\n // b */\n/* c\n d // e */ /* f */\n\t/* g".toList,
      ∀ line ∈ turn.innerLines, ¬ IsComment line := by decide +kernel
  rw [strip_eq_scan h]
  decide +kernel

end Localization.Comment

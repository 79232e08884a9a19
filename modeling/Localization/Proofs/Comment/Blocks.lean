import Localization.Catalog
import Localization.Proofs.Comment.Beginnings
import Mathlib.Data.List.TakeWhile

/-!
# What a block comment holds

A block comment that begins a line is removed with its body (`Comment.strip_block`), and the
records of a source do not depend on the body (`Record.ofSource_block`).  The line comments are
emptied before the block comments are looked for.  When the last line of a body is a line
comment, the `*/` after it is gone by then, and the comment goes on to the next `*/` or is none
(`Record.not_forall_ofSource_block`).
-/

namespace Localization.Comment

/-- The text is a body of a block comment: the first `*/`, when a `*/` is put after the text, is
that one. -/
def IsBody (text : List Char) : Prop :=
  ¬ ['*', '/'] <:+: text ++ ['*']

instance (text : List Char) : Decidable (IsBody text) :=
  inferInstanceAs (Decidable (¬ _))

/-- The block comment with this body, and the indentation before it. -/
def block (indent body : List Char) : List Char :=
  indent ++ ('/' :: '*' :: (body ++ ['*', '/']))

/-- The `*/` after the body is on another line than the `/*` before it, and this line is a line
comment. -/
def HidesEnd (body : List Char) : Prop :=
  '\n' ∈ body ∧ EndsInLineComment body

instance (body : List Char) : Decidable (HidesEnd body) :=
  inferInstanceAs (Decidable (_ ∧ _))

variable {pre indent body : List Char}

/-! ### Line comments around a block comment -/

/-- The line comments of a text that ends with a line break, or is empty, are emptied on their
own. -/
theorem dropLines_append (hp : pre = [] ∨ pre.getLast? = some '\n') (text : List Char) :
  dropLines (pre ++ text) = dropLines pre ++ dropLines text
  := by
  obtain rfl | hp := hp
  · rfl
  · obtain ⟨p, rfl⟩ := List.getLast?_eq_some_iff.1 hp
    rw [List.append_assoc, List.singleton_append, dropLines_append_newline,
      dropLines_append_newline, List.append_assoc]
    rfl

/-- After emptying the line comments a text ends as before with a line break, or is empty. -/
theorem getLast?_dropLines (hp : pre = [] ∨ pre.getLast? = some '\n') :
  dropLines pre = [] ∨ (dropLines pre).getLast? = some '\n'
  := by
  obtain rfl | hp := hp
  · left
    rfl
  · right
    obtain ⟨p, rfl⟩ := List.getLast?_eq_some_iff.1 hp
    rw [dropLines_append_newline]
    exact List.getLast?_concat

theorem newline_not_mem_of_indent (hi : ∀ c ∈ indent, isIndent c) : '\n' ∉ indent :=
  fun h => absurd (hi _ h) (by decide)

/-- The line on which a block comment begins is no line comment. -/
theorem dropLines_open (hi : ∀ c ∈ indent, isIndent c) (text : List Char) :
  dropLines (indent ++ '/' :: '*' :: text) = indent ++ '/' :: '*' :: dropLaterLines text
  := by
  have hn : '\n' ∉ indent ++ ['/', '*'] := by
    simp [newline_not_mem_of_indent hi]
  rw [dropLines_eq_dropLaterLines, List.append_cons, List.append_cons,
    List.append_assoc indent, List.singleton_append, dropLaterLines_append hn,
    List.append_assoc]
  · rfl
  · rw [List.takeWhile_append_of_pos (ne_newline_of_not_mem (newline_not_mem_of_indent hi)),
      isLineComment, List.dropWhile_append_of_pos hi]
    rfl

/-- The line comments of a body that does not hide its end are emptied on their own. -/
theorem dropLaterLines_append_star (h : ¬ HidesEnd body) (rest : List Char) :
  dropLaterLines (body ++ '*' :: rest) = dropLaterLines body ++ '*' :: dropLaterLines rest
  := by
  obtain ⟨line, t, rfl, hl, rfl | ⟨t, rfl⟩⟩ := exists_line body
  · have hline : '\n' ∉ line ++ ['*'] := by simp [hl]
    rw [List.append_nil, List.append_cons, dropLaterLines_append hline,
      ← List.append_nil line, dropLaterLines_append hl]
    simp [dropLaterLines]
  · have ht : ¬ EndsInLineComment t := by
      intro ht
      apply h ⟨by simp, (endsInLineComment_append_newline line t).2 ht⟩
    rw [List.append_assoc, dropLaterLines_append hl, List.cons_append, dropLaterLines_newline,
      dropLines_append_star ht, dropLaterLines_append hl, dropLaterLines_newline,
      List.append_assoc]
    rfl

theorem not_pair_infix_dropLaterLines {c d : Char} (hc : c ≠ '\n') (hd : d ≠ '\n')
    {text : List Char} (h : ¬ [c, d] <:+: text) :
  ¬ [c, d] <:+: dropLaterLines text
  := by
  obtain ⟨line, t, rfl, hl, rfl | ⟨t, rfl⟩⟩ := exists_line text
  · rw [dropLaterLines_append hl]
    exact h
  · rw [Text.pair_infix_append_cons_iff hc hd, not_or] at h
    rw [dropLaterLines_append hl, dropLaterLines_newline,
      Text.pair_infix_append_cons_iff hc hd, not_or]
    exact ⟨h.1, not_pair_infix_dropLines hc hd h.2⟩

/-- A body is still a body when its line comments have been emptied. -/
theorem isBody_dropLaterLines (hb : IsBody body) (hh : ¬ HidesEnd body) :
  IsBody (dropLaterLines body)
  := by
  have h := not_pair_infix_dropLaterLines (by decide) (by decide) hb
  rwa [dropLaterLines_append_star hh] at h

theorem dropLines_block (hi : ∀ c ∈ indent, isIndent c) (hh : ¬ HidesEnd body)
    (post : List Char) :
  dropLines (block indent body ++ post)
    = block indent (dropLaterLines body) ++ dropLaterLines post
  := by
  have hpost : dropLaterLines ('/' :: post) = '/' :: dropLaterLines post :=
    @dropLaterLines_append ['/'] (by decide) post
  rw [block, block, List.append_assoc, List.cons_append, List.cons_append, List.append_assoc,
    dropLines_open hi]
  simp [dropLaterLines_append_star hh, hpost]

/-! ### Removing a block comment -/

/-- No block comment begins in a text of whole lines without `/*`. -/
theorem cutFrom_append_of_not_infix {rest : List Char}
    (hp : pre = [] ∨ pre.getLast? = some '\n') (hn : ¬ ['/', '*'] <:+: pre)
    (hr : '*' ∉ rest.head?) :
  Text.cutFrom blockLength? none 0 (pre ++ rest)
    = pre.map .plain ++ Text.cutFrom blockLength? pre.getLast? 0 rest
  := by
  rw [Text.cutFrom_append_of_none, Option.or_none]
  rintro p s rfl hs
  apply blockLength?_eq_none_of_not_begins
  obtain hp | hp := hp
  · exact absurd (List.append_eq_nil_iff.1 hp).2 hs
  · rw [List.getLast?_append_of_ne_nil _ hs] at hp
    -- the indentation of a place in `pre` ends before the line break at the end of `pre`
    have hd : s.dropWhile isIndent ≠ [] := by
      intro hd
      exact absurd (List.dropWhile_eq_nil_iff.1 hd _ (List.mem_of_getLast? hp)) (by decide)
    rw [List.dropWhile_append, if_neg (mt List.isEmpty_iff.1 hd), Text.prefix_append_iff _ hd]
    · intro h
      apply hn
      exact (h.isInfix.trans (List.dropWhile_suffix _).isInfix).trans
        (List.suffix_append p s).isInfix
    · intro c hc ht
      obtain rfl : c = '*' := by simpa using ht
      exact hr hc

/-- A block comment ends with its own `*/`. -/
theorem indexOf?_isBody (hb : IsBody body) (rest : List Char) :
  Text.indexOf? ['*', '/'] (body ++ (['*', '/'] ++ rest)) = some body.length
  := by
  apply Text.indexOf?_append (by simp)
  intro s hs ht h
  rw [List.cons_append, List.append_cons] at h
  obtain ⟨p, rfl⟩ := ht
  apply hb
  have hlen : ['*', '/'].length ≤ (s ++ ['*']).length := by
    have := List.length_pos_iff.2 hs
    simp
    omega
  rw [List.append_assoc]
  exact (List.prefix_of_prefix_length_le h (List.prefix_append _ _) hlen).isInfix.trans
    (List.suffix_append p _).isInfix

/-- The text before the first `*/` is the body of a comment. -/
theorem exists_isBody_of_indexOf? {text : List Char} {n : Nat}
    (h : Text.indexOf? ['*', '/'] text = some n) :
  ∃ body rest, text = body ++ '*' :: '/' :: rest ∧ IsBody body ∧ n = body.length
  := by
  obtain ⟨body, rest, rfl, rfl, hb⟩ := Text.exists_of_indexOf?_eq_some (List.cons_ne_nil _ _) h
  use body, rest, rfl, hb

/-- A text that goes on with `/*` after its indentation, and with a `*/` after that, begins with a
block comment. -/
theorem exists_block_of_dropWhile {text after : List Char} {n : Nat}
    (ht : text.dropWhile isIndent = '/' :: '*' :: after)
    (hn : Text.indexOf? ['*', '/'] after = some n) :
  ∃ body rest, text = block (text.takeWhile isIndent) body ++ rest ∧ IsBody body
    ∧ n = body.length
  := by
  obtain ⟨body, rest, rfl, hb, hlength⟩ := exists_isBody_of_indexOf? hn
  have htext := List.takeWhile_append_dropWhile (p := isIndent) (l := text)
  rw [ht] at htext
  use body, rest
  constructor
  · apply htext.symm.trans
    simp [block]
  · use hb

theorem blockLength?_block (hi : ∀ c ∈ indent, isIndent c) (hb : IsBody body)
    {before : Option Char} (hbefore : before = none ∨ before = some '\n') (rest : List Char) :
  blockLength? before (block indent body ++ rest) = some (block indent body).length
  := by
  have hopen : block indent body ++ rest
      = indent ++ '/' :: '*' :: (body ++ (['*', '/'] ++ rest)) := by
    simp [block]
  have hnot : isIndent '/' ≠ true := by decide
  rw [hopen, blockLength?, if_pos hbefore, List.dropWhile_append_of_pos hi,
    List.takeWhile_append_of_pos hi, List.dropWhile_cons_of_neg hnot,
    List.takeWhile_cons_of_neg hnot, List.append_nil]
  simp only [indexOf?_isBody hb]
  simp [block]
  omega

theorem block_ne_nil (indent body : List Char) : block indent body ≠ [] := by
  simp [block]

theorem getLast?_block (indent body : List Char) : (block indent body).getLast? = some '/' := by
  rw [block, List.append_cons, List.append_cons, ← List.append_assoc, List.append_cons _ '*',
    List.getLast?_concat]

theorem star_not_mem_head?_block (hi : ∀ c ∈ indent, isIndent c) (body rest : List Char) :
  '*' ∉ (block indent body ++ rest).head?
  := by
  cases indent with
  | nil => simp [block]
  | cons c cs =>
    have hc : c ≠ '*' := by
      rintro rfl
      exact absurd (hi '*' List.mem_cons_self) (by decide)
    simpa [block] using hc

/-- A block comment that begins a line is removed. -/
theorem strip_block (hp : pre = [] ∨ pre.getLast? = some '\n') (hn : ¬ ['/', '*'] <:+: pre)
    (hi : ∀ c ∈ indent, isIndent c) (hb : IsBody body) (hh : ¬ HidesEnd body)
    (post : List Char) :
  strip (pre ++ (block indent body ++ post))
    = dropLines pre
      ++ (Text.cutFrom blockLength? (some '/') 0 (dropLaterLines post)).filterMap
        Text.Segment.plain?
  := by
  have hb' := isBody_dropLaterLines hb hh
  have hp' := getLast?_dropLines hp
  have hn' := not_pair_infix_dropLines (by decide) (by decide) hn
  have hbefore : (dropLines pre).getLast? = none ∨ (dropLines pre).getLast? = some '\n' := by
    rw [List.getLast?_eq_none_iff]
    exact hp'
  rw [strip, dropLines_append hp, dropLines_block hi hh, dropBlocks, Text.cut,
    cutFrom_append_of_not_infix hp' hn' (star_not_mem_head?_block hi _ _),
    Text.cutFrom_append_of_some (block_ne_nil _ _) (blockLength?_block hi hb' hbefore _),
    getLast?_block, List.filterMap_append, Text.filterMap_plain?_plain]
  rfl

end Localization.Comment

namespace Localization

open Comment

/-- The records of a source do not depend on what a block comment holds that begins a line, as
long as the line with its `*/` is not a line comment. -/
theorem Record.ofSource_block {pre indent : List Char} (hp : pre = [] ∨ pre.getLast? = some '\n')
    (hn : ¬ ['/', '*'] <:+: pre) (hi : ∀ c ∈ indent, c = ' ' ∨ c = '\t')
    {body body' : List Char} (hb : IsBody body) (hh : ¬ HidesEnd body) (hb' : IsBody body')
    (hh' : ¬ HidesEnd body') (post : List Char) (component : Component) (file : String) :
  Record.ofSource component file (String.ofList (pre ++ (block indent body ++ post)))
    = Record.ofSource component file (String.ofList (pre ++ (block indent body' ++ post)))
  := by
  have hi' : ∀ c ∈ indent, isIndent c := by
    simpa [isIndent] using hi
  rw [Record.ofSource, Record.ofSource, String.toList_ofList, String.toList_ofList,
    strip_block hp hn hi' hb hh, strip_block hp hn hi' hb' hh']

/-- The elements that a comment hides, before an element that is read. -/
theorem Record.ofSource_block_page :
  Record.ofSource .default "App.jsx"
      "const a = 1;\n  /* // <LocalizeText id='a' />\n   // b\n   */ <LocalizeText id='c' />"
    = Record.ofSource .default "App.jsx" "const a = 1;\n  /**/ <LocalizeText id='c' />"
  := by
  exact @Record.ofSource_block "const a = 1;\n".toList [' ', ' '] (by decide) (by decide)
    (by decide) " // <LocalizeText id='a' />\n   // b\n   ".toList [] (by decide) (by decide)
    (by decide) (by decide) " <LocalizeText id='c' />".toList .default "App.jsx"

/-- A `*/` on a line that is a line comment is emptied with this line, and so the block comment
is not closed: the element in it is read. -/
theorem Record.not_forall_ofSource_block :
  ¬ ∀ (pre indent body body' post : List Char) (component : Component) (file : String),
    (pre = [] ∨ pre.getLast? = some '\n') → ¬ ['/', '*'] <:+: pre →
    (∀ c ∈ indent, c = ' ' ∨ c = '\t') → IsBody body → IsBody body' →
    Record.ofSource component file (String.ofList (pre ++ (block indent body ++ post)))
      = Record.ofSource component file (String.ofList (pre ++ (block indent body' ++ post)))
  := by
  intro h
  have h := h [] [] "\n<LocalizeText id='hidden' />\n// ".toList [] [] .default "App.jsx"
    (by decide) (by decide) (by decide) (by decide) (by decide)
  revert h
  decide +kernel

end Localization

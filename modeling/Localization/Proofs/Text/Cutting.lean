import Localization.Text.Segment
import Mathlib.Data.List.Infix

/-!
# Where a text is cut

A pattern that does not occur inside a text can still begin inside it and end in what follows.
`prefix_append_iff` excludes this when what follows begins with a character that the pattern
holds at most in its first place.  Hence `indexOf?_append` finds the first place of a pattern,
and `cutFrom_append_of_none` and `cutFrom_append_of_some` cut a text piece by piece.  A text is
cut as it is cut on its own, when no match in it depends on what comes after
(`cutFrom_append_of_eq`), and nothing is cut out of it exactly when no match begins in it
(`filterMap_plain?_cutFrom_eq_self_iff`).
-/

namespace Localization.Text

/-- What is said of all characters of a text, or of one of them, is decided by going through the
text, and not through all characters there are. -/
instance decidableForallMem (text : List Char) (p : Char → Prop) [DecidablePred p] :
    Decidable (∀ c ∈ text, p c) :=
  List.decidableBAll p text

instance decidableExistsMem (text : List Char) (p : Char → Prop) [DecidablePred p] :
    Decidable (∃ c ∈ text, p c) :=
  List.decidableBEx p text

/-! ### Pieces between separators -/

/-- A separator does not occur in the pieces that it separates. -/
theorem not_mem_of_mem_splitOn {c : Char} {text piece : List Char} (h : piece ∈ text.splitOn c) :
  c ∉ piece
  := by
  induction hn : text.length using Nat.strong_induction_on generalizing text with
  | _ n ih =>
    by_cases hc : c ∈ text
    · obtain ⟨front, back, rfl, hf⟩ := List.eq_append_cons_of_mem hc
      rw [List.splitOn_append_cons_self_of_not_mem hf, List.mem_cons] at h
      obtain rfl | h := h
      · exact hf
      · apply ih back.length _ h rfl
        rw [← hn, List.length_append, List.length_cons]
        omega
    · rw [List.splitOn_eq_singleton hc, List.mem_singleton] at h
      rwa [h]

/-! ### Patterns at a junction -/

/-- A pattern that begins in a text, and does not lie in it, goes on with the next character after
the text. -/
theorem exists_of_prefix_append {pattern text rest : List Char} (h : pattern <+: text ++ rest)
    (hn : ¬ pattern <+: text) :
  ∃ c u, pattern = text ++ c :: u ∧ c ∈ rest.head?
  := by
  obtain hp | ⟨u, rfl⟩ := List.prefix_or_prefix_of_prefix h (List.prefix_append text rest)
  · apply absurd hp hn
  · cases u with
    | nil =>
      apply absurd _ hn
      rw [List.append_nil]
    | cons c u =>
      obtain ⟨v, rfl⟩ := (List.prefix_append_right_inj text).1 h
      use c, u, rfl
      rfl

/-- A pattern that begins a text lies in it whole, when the next character after the text can
only be the first one of the pattern. -/
theorem prefix_append_iff {pattern text rest : List Char} (hr : ∀ c ∈ rest.head?, c ∉ pattern.tail)
    (ht : text ≠ []) :
  pattern <+: text ++ rest ↔ pattern <+: text
  := by
  constructor
  · intro h
    by_contra hn
    obtain ⟨c, u, rfl, hc⟩ := exists_of_prefix_append h hn
    obtain ⟨d, text, rfl⟩ := List.exists_cons_of_ne_nil ht
    apply hr c hc
    simp
  · exact fun h => h.trans (List.prefix_append text rest)

/-- A pattern that does not occur in `text` does not begin in it either, when the next
character after `text` can only be the first one of the pattern. -/
theorem not_prefix_append {pattern text rest s : List Char} (hp : ¬ pattern <:+: text)
    (hr : ∀ c ∈ rest.head?, c ∉ pattern.tail) (hs : s ≠ []) (ht : s <:+ text) :
  ¬ pattern <+: s ++ rest
  := by
  rw [prefix_append_iff hr hs]
  intro h
  apply hp (h.isInfix.trans ht.isInfix)

/-- Two characters in a row stand in a text made of two pieces only where they stand in one of
the pieces, or where the pieces meet. -/
theorem pair_infix_append_iff {c d : Char} {s t : List Char} :
  [c, d] <:+: s ++ t
    ↔ [c, d] <:+: s ∨ [c, d] <:+: t ∨ (s.getLast? = some c ∧ t.head? = some d)
  := by
  rw [List.infix_append_iff_ne_nil]
  refine or_congr Iff.rfl (or_congr Iff.rfl ?_)
  rw [← List.singleton_suffix_iff_getLast?_eq_some, ← List.singleton_prefix_iff_head?_eq_some]
  constructor
  · rintro ⟨l₁, l₂, h₁, h₂, h, hs, ht⟩
    obtain ⟨a, l₁, rfl⟩ := List.exists_cons_of_ne_nil h₁
    obtain ⟨b, l₂, rfl⟩ := List.exists_cons_of_ne_nil h₂
    cases l₁ with
    | nil =>
      obtain ⟨rfl, rfl, rfl⟩ : c = a ∧ d = b ∧ l₂ = [] := by simpa [eq_comm] using h
      exact ⟨hs, ht⟩
    | cons a' l₁ => simp at h
  · rintro ⟨hs, ht⟩
    exact ⟨[c], [d], by simp, by simp, rfl, hs, ht⟩

/-- Two characters in a row do not reach over a third one. -/
theorem pair_infix_append_cons_iff {c d e : Char} {s t : List Char} (hc : c ≠ e) (hd : d ≠ e) :
  [c, d] <:+: s ++ e :: t ↔ [c, d] <:+: s ∨ [c, d] <:+: t
  := by
  have hcons : [c, d] <:+: e :: t ↔ [c, d] <:+: t := by
    rw [List.infix_cons_iff, List.cons_prefix_cons]
    simp [hc]
  rw [pair_infix_append_iff, hcons]
  simp [hd.symm]

/-! ### The first place of a pattern -/

theorem indexOf?_eq_some_zero {pattern text : List Char} (hp : pattern ≠ [])
    (h : pattern <+: text) :
  indexOf? pattern text = some 0
  := by
  cases text with
  | nil => exact absurd (List.prefix_nil.1 h) hp
  | cons c cs => rw [indexOf?, if_pos (List.isPrefixOf_iff_prefix.2 h)]

/-- The first place of a pattern is after the text in which it does not begin. -/
theorem indexOf?_append {pattern text rest : List Char} (hp : pattern ≠ [])
    (h : ∀ s, s ≠ [] → s <:+ text → ¬ pattern <+: s ++ (pattern ++ rest)) :
  indexOf? pattern (text ++ (pattern ++ rest)) = some text.length
  := by
  induction text with
  | nil => exact indexOf?_eq_some_zero hp (List.prefix_append pattern rest)
  | cons c cs ih =>
    have hc : ¬ pattern <+: c :: (cs ++ (pattern ++ rest)) :=
      h (c :: cs) (List.cons_ne_nil c cs) List.suffix_rfl
    have hcs := ih fun s hs ht => h s hs (ht.trans (List.suffix_cons c cs))
    rw [List.cons_append, indexOf?, if_neg (mt List.isPrefixOf_iff_prefix.1 hc), hcs]
    rfl

/-- The first place of a pattern, if it is found, is where the pattern stands and does not begin
before. -/
theorem exists_of_indexOf?_eq_some {pattern text : List Char} {n : Nat} (hp : pattern ≠ [])
    (h : indexOf? pattern text = some n) :
  ∃ s t, text = s ++ (pattern ++ t) ∧ s.length = n ∧ ¬ pattern <:+: s ++ pattern.dropLast
  := by
  induction text generalizing n with
  | nil => cases h
  | cons c cs ih =>
    rw [indexOf?] at h
    split at h
    · next hprefix =>
      obtain ⟨t, ht⟩ := List.isPrefixOf_iff_prefix.1 hprefix
      use [], t, ht.symm, Option.some.inj h
      intro hi
      have hle := hi.length_le
      rw [List.nil_append, List.length_dropLast] at hle
      have hpos := List.length_pos_iff.2 hp
      omega
    · next hprefix =>
      obtain ⟨k, hk, rfl⟩ := Option.map_eq_some_iff.1 h
      obtain ⟨s, t, rfl, rfl, hs⟩ := ih hk
      use c :: s, t, rfl, rfl
      rw [List.cons_append, List.infix_cons_iff, not_or]
      use ?_, hs
      intro hc
      apply hprefix
      apply List.isPrefixOf_iff_prefix.2
      apply hc.trans
      rw [List.cons_prefix_cons, List.prefix_append_right_inj]
      use rfl
      apply (List.dropLast_prefix pattern).trans (List.prefix_append pattern t)

/-- A pattern is found where it occurs. -/
theorem indexOf?_eq_none_iff {pattern text : List Char} (hp : pattern ≠ []) :
  indexOf? pattern text = none ↔ ¬ pattern <:+: text
  := by
  induction text with
  | nil => simp [indexOf?, hp]
  | cons c cs ih =>
    rw [indexOf?, List.infix_cons_iff, not_or, ← ih, ← List.isPrefixOf_iff_prefix]
    split
    · next hc => simp [hc]
    · next hc => simp [hc]

/-- Where a pattern occurs in a text, its first place does not depend on what comes after. -/
theorem indexOf?_append_of_infix {pattern text : List Char} (hp : pattern ≠ [])
    (h : pattern <:+: text) (rest : List Char) :
  indexOf? pattern (text ++ rest) = indexOf? pattern text
  := by
  induction text with
  | nil => exact absurd (List.infix_nil.1 h) hp
  | cons c cs ih =>
    by_cases hc : pattern <+: c :: cs
    · rw [indexOf?_eq_some_zero hp hc,
        indexOf?_eq_some_zero hp (hc.trans (List.prefix_append _ rest))]
    · have hcs := (List.infix_cons_iff.1 h).resolve_left hc
      have hcr : ¬ pattern <+: c :: (cs ++ rest) := by
        intro hr
        apply hc
        apply List.prefix_of_prefix_length_le hr (List.prefix_append (c :: cs) rest)
        apply Nat.le_succ_of_le hcs.length_le
      rw [List.cons_append, indexOf?, if_neg (mt List.isPrefixOf_iff_prefix.1 hcr), ih hcs,
        indexOf?, if_neg (mt List.isPrefixOf_iff_prefix.1 hc)]

/-! ### Cutting piece by piece -/

variable {m : Matcher} {before : Option Char}

theorem getLast?_cons_or (c : Char) (cs : List Char) :
  (c :: cs).getLast?.or before = cs.getLast?.or (some c)
  := by
  rw [List.getLast?_cons]
  cases cs.getLast? with
  | none => rfl
  | some d => rfl

/-- What is said of all places of a text is said of its start and of all places after it. -/
theorem forall_place_cons_iff {P : List Char → List Char → Prop} {c : Char} {cs : List Char} :
  (∀ p s, c :: cs = p ++ s → s ≠ [] → P p s)
    ↔ P [] (c :: cs) ∧ ∀ p s, cs = p ++ s → s ≠ [] → P (c :: p) s
  := by
  constructor
  · intro h
    constructor
    · apply h [] (c :: cs) rfl (List.cons_ne_nil c cs)
    · intro p s hps hs
      apply h (c :: p) s (congrArg (c :: ·) hps) hs
  · rintro ⟨hstart, hlater⟩ p s hps hs
    cases p with
    | nil =>
      obtain rfl : c :: cs = s := hps
      apply hstart
    | cons d p =>
      obtain ⟨rfl, rfl⟩ := List.cons.inj hps
      apply hlater p s rfl hs

/-- No match begins in `text`, and so its characters are left one by one. -/
theorem cutFrom_append_of_none {text rest : List Char}
    (h : ∀ p s, text = p ++ s → s ≠ [] → m (p.getLast?.or before) (s ++ rest) = none) :
  cutFrom m before 0 (text ++ rest)
    = text.map .plain ++ cutFrom m (text.getLast?.or before) 0 rest
  := by
  induction text generalizing before with
  | nil => rfl
  | cons c cs ih =>
    obtain ⟨hc, hcs⟩ := forall_place_cons_iff.1 h
    change m before (c :: (cs ++ rest)) = none at hc
    simp only [getLast?_cons_or] at hcs
    rw [List.cons_append, cutFrom, hc, ih hcs, getLast?_cons_or]
    rfl

/-- A text in which no match begins is left as it is. -/
theorem cutFrom_eq_map_plain {text : List Char}
    (h : ∀ p s, text = p ++ s → s ≠ [] → m (p.getLast?.or before) s = none) :
  cutFrom m before 0 text = text.map .plain
  := by
  have hcut := @cutFrom_append_of_none m before text [] fun p s hps hs => by
    rw [List.append_nil]
    apply h p s hps hs
  rwa [List.append_nil, cutFrom, List.append_nil] at hcut

/-- Where no match in `text` depends on what comes after `text`, the text is cut as it is cut on
its own. -/
theorem cutFrom_append_of_eq {text rest : List Char} {skip : Nat} (hs : skip ≤ text.length)
    (h : ∀ p s, text = p ++ s → s ≠ [] →
      m (p.getLast?.or before) (s ++ rest) = m (p.getLast?.or before) s)
    (hl : ∀ before s n, m before s = some n → n ≤ s.length) :
  cutFrom m before skip (text ++ rest)
    = cutFrom m before skip text ++ cutFrom m (text.getLast?.or before) 0 rest
  := by
  induction text generalizing before skip with
  | nil =>
    obtain rfl := Nat.le_zero.1 hs
    rfl
  | cons c cs ih =>
    obtain ⟨hc, hlater⟩ := forall_place_cons_iff.1 h
    change m before (c :: (cs ++ rest)) = m before (c :: cs) at hc
    simp only [getLast?_cons_or] at hlater
    have hcs : ∀ skip ≤ cs.length, cutFrom m (some c) skip (cs ++ rest)
        = cutFrom m (some c) skip cs ++ cutFrom m ((c :: cs).getLast?.or before) 0 rest := by
      intro skip hs
      rw [getLast?_cons_or]
      apply ih hs hlater
    cases skip with
    | succ skip => exact hcs skip (Nat.le_of_succ_le_succ hs)
    | zero =>
      rw [List.cons_append, cutFrom, cutFrom, hc]
      split
      · next n hm =>
        have hn : n ≤ cs.length := Nat.le_of_succ_le_succ (hl before _ _ hm)
        rw [hcs n hn, List.take_succ_cons, List.take_succ_cons, List.take_append_of_le_length hn]
        rfl
      · rw [hcs 0 (Nat.zero_le _)]
        rfl

theorem cutFrom_length_append (text rest : List Char) :
  cutFrom m before text.length (text ++ rest)
    = cutFrom m (text.getLast?.or before) 0 rest
  := by
  induction text generalizing before with
  | nil => rfl
  | cons c cs ih =>
    rw [List.length_cons, List.cons_append, cutFrom, ih, getLast?_cons_or]

/-- A match that begins where the search starts is the first piece. -/
theorem cutFrom_append_of_some {text rest : List Char} (ht : text ≠ [])
    (h : m before (text ++ rest) = some text.length) :
  cutFrom m before 0 (text ++ rest)
    = .hit text :: cutFrom m (text.getLast?.or before) 0 rest
  := by
  obtain ⟨c, cs, rfl⟩ := List.exists_cons_of_ne_nil ht
  rw [List.cons_append, List.length_cons] at h
  rw [List.cons_append, cutFrom, h, getLast?_cons_or]
  simp only [cutFrom_length_append, List.take_succ_cons, List.take_left']

theorem filterMap_plain?_plain (text : List Char) :
  (text.map Segment.plain).filterMap Segment.plain? = text
  := by
  simp [List.filterMap_map, Function.comp_def, Segment.plain?]

theorem filterMap_hit?_plain (text : List Char) :
  (text.map Segment.plain).filterMap Segment.hit? = []
  := by
  simp [List.filterMap_map, Function.comp_def, Segment.hit?]

/-! ### What stands outside the matches -/

/-- The characters outside the matches stand in the pieces in the same order. -/
theorem filterMap_plain?_sublist (segments : List Segment) :
  (segments.filterMap Segment.plain?).Sublist (segments.flatMap Segment.chars)
  := by
  induction segments with
  | nil => exact List.Sublist.slnil
  | cons s segments ih =>
    cases s with
    | plain c => exact ih.cons_cons c
    | hit cs => exact ih.trans (List.sublist_append_right cs _)

theorem filterMap_plain?_cutFrom_sublist (skip : Nat) (text : List Char) :
  ((cutFrom m before skip text).filterMap Segment.plain?).Sublist (text.drop skip)
  := by
  rw [← flatMap_chars_cutFrom m before skip text]
  apply filterMap_plain?_sublist

/-- All characters stand outside the matches when no match begins anywhere. -/
theorem filterMap_plain?_cutFrom_eq_self_iff {text : List Char} :
  (cutFrom m before 0 text).filterMap Segment.plain? = text
    ↔ ∀ p s, text = p ++ s → s ≠ [] → ¬ ∃ n, m (p.getLast?.or before) s = some (n + 1)
  := by
  induction text generalizing before with
  | nil =>
    apply iff_of_true rfl
    intro p s hps hs
    apply absurd (List.append_eq_nil_iff.1 hps.symm).2 hs
  | cons c cs ih =>
    rw [forall_place_cons_iff, cutFrom]
    split
    · next n hm =>
      apply iff_of_false
      · -- the match takes a character away, and none comes in its place
        intro h
        have hlength := (@filterMap_plain?_cutFrom_sublist m (some c) n cs).length_le
        rw [List.filterMap_cons_none rfl] at h
        rw [h, List.length_drop, List.length_cons] at hlength
        omega
      · rintro ⟨hstart, -⟩
        apply hstart ⟨n, hm⟩
    · next hm =>
      have hstart : ¬ ∃ n, m before (c :: cs) = some (n + 1) := by
        rintro ⟨n, hn⟩
        apply hm n hn
      have hcons : (Segment.plain c :: cutFrom m (some c) 0 cs).filterMap Segment.plain?
          = c :: (cutFrom m (some c) 0 cs).filterMap Segment.plain? := rfl
      simp only [getLast?_cons_or]
      rw [hcons, List.cons.injEq, ih]
      apply and_congr_left'
      apply iff_of_true rfl hstart

end Localization.Text

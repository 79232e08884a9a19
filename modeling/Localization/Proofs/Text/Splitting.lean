import Localization.Proofs.Text.Cutting

/-!
# Splitting a text where something occurs

What can occur in a text is given by a predicate on its characters.  `Splits` says that a text
consists of gaps and of occurrences between them, and that no occurrence begins inside a gap: so
each of them is the first one that begins where the one before it has ended, or later.  When a
`Matcher` finds what occurs, a text is split in one way only, and is cut there
(`exists_splits`, `Splits.cut_eq`, `Splits.unique`).  Two texts in a row are cut each on their own
when nothing that begins in the first depends on the second (`Finds.cut_append`).
-/

namespace Localization.Text

/-- An occurrence, and the text in front of it. -/
structure Part where
  gap : List Char
  hit : List Char
  deriving DecidableEq, Repr

variable {Occurs : List Char → Prop}

/-- An occurrence begins at the start of the text. -/
def Begins (Occurs : List Char → Prop) (text : List Char) : Prop :=
  ∃ hit, Occurs hit ∧ hit <+: text

/-- The text consists of these gaps and occurrences and of a last gap, and no occurrence begins
inside a gap. -/
inductive Splits (Occurs : List Char → Prop) :
    (text : List Char) → List Part → (last : List Char) → Prop where
  | last {gap : List Char} (hg : ∀ s, s ≠ [] → s <:+ gap → ¬ Begins Occurs s) :
      Splits Occurs gap [] gap
  | part {gap hit rest last : List Char} {parts : List Part}
      (hg : ∀ s, s ≠ [] → s <:+ gap → ¬ Begins Occurs (s ++ (hit ++ rest))) (hh : Occurs hit)
      (hr : Splits Occurs rest parts last) :
      Splits Occurs (gap ++ (hit ++ rest)) (⟨gap, hit⟩ :: parts) last

/-- The matcher finds what occurs, and nothing else. -/
structure Finds (m : Matcher) (Occurs : List Char → Prop) : Prop where
  ne_nil : ∀ hit, Occurs hit → hit ≠ []
  eq_some_iff : ∀ before text n, m before text = some n
    ↔ ∃ hit, Occurs hit ∧ hit <+: text ∧ n = hit.length

/-- Between the gaps of a split text stands what occurs in it. -/
theorem Splits.occurs {text last : List Char} {parts : List Part}
    (h : Splits Occurs text parts last) :
  ∀ p ∈ parts, Occurs p.hit
  := by
  induction h with
  | last => exact List.forall_mem_nil _
  | part _ hh _ ih => exact List.forall_mem_cons.2 ⟨hh, ih⟩

/-! ### Every text can be split -/

/-- A character at which no occurrence begins belongs to the first gap. -/
theorem Splits.exists_cons {c : Char} {text last : List Char} {parts : List Part}
    (h : Splits Occurs text parts last) (hc : ¬ Begins Occurs (c :: text)) :
  ∃ parts last, Splits Occurs (c :: text) parts last
  := by
  cases h with
  | last hg =>
    refine ⟨[], c :: text, .last ?_⟩
    intro s hs ht
    obtain rfl | ht := List.suffix_cons_iff.1 ht
    · apply hc
    · apply hg s hs ht
  | @part gap hit rest _ parts hg hh hr =>
    refine ⟨⟨c :: gap, hit⟩ :: parts, last, @Splits.part Occurs (c :: gap) _ _ _ _ ?_ hh hr⟩
    intro s hs ht
    obtain rfl | ht := List.suffix_cons_iff.1 ht
    · apply hc
    · apply hg s hs ht

/-- Every text can be split. -/
theorem exists_splits (hne : ∀ hit, Occurs hit → hit ≠ []) (text : List Char) :
  ∃ parts last, Splits Occurs text parts last
  := by
  induction hn : text.length using Nat.strong_induction_on generalizing text with
  | _ n ih =>
    by_cases hb : Begins Occurs text
    · obtain ⟨hit, hh, rest, rfl⟩ := hb
      have hrest : rest.length < n := by
        have hlength := List.length_pos_iff.2 (hne hit hh)
        rw [← hn, List.length_append]
        omega
      obtain ⟨parts, last, hr⟩ := ih rest.length hrest rest rfl
      refine ⟨⟨[], hit⟩ :: parts, last, @Splits.part Occurs [] _ _ _ _ ?_ hh hr⟩
      intro s hs ht
      apply absurd (List.suffix_nil.1 ht) hs
    · cases text with
      | nil =>
        refine ⟨[], [], .last ?_⟩
        intro s hs ht
        apply absurd (List.suffix_nil.1 ht) hs
      | cons c cs =>
        have hcs : cs.length < n := by
          rw [← hn]
          apply Nat.lt_succ_self
        obtain ⟨parts, last, h⟩ := ih cs.length hcs cs rfl
        apply h.exists_cons hb

/-! ### A text is cut where it is split -/

/-- The pieces of a split text. -/
def segments (parts : List Part) (last : List Char) : List Segment :=
  parts.flatMap (fun p => p.gap.map .plain ++ [.hit p.hit]) ++ last.map .plain

theorem segments_cons (p : Part) (parts : List Part) (last : List Char) :
  segments (p :: parts) last = p.gap.map .plain ++ (.hit p.hit :: segments parts last)
  := by
  simp [segments]

theorem filterMap_hit?_segments (parts : List Part) (last : List Char) :
  (segments parts last).filterMap Segment.hit? = parts.map (·.hit)
  := by
  induction parts with
  | nil => apply filterMap_hit?_plain
  | cons p parts ih =>
    rw [segments_cons, List.filterMap_append, filterMap_hit?_plain, List.filterMap_cons, ih]
    rfl

variable {m : Matcher} {text last last' : List Char} {parts parts' : List Part}

theorem Finds.eq_none (hm : Finds m Occurs) {before : Option Char}
    (h : ¬ Begins Occurs text) :
  m before text = none
  := by
  rw [Option.eq_none_iff_forall_ne_some]
  intro n hn
  obtain ⟨hit, hh, hp, -⟩ := (hm.eq_some_iff before text n).1 hn
  exact h ⟨hit, hh, hp⟩

theorem Splits.cutFrom_eq (h : Splits Occurs text parts last) (hm : Finds m Occurs)
    (before : Option Char) :
  cutFrom m before 0 text = segments parts last
  := by
  induction h generalizing before with
  | last hg =>
    apply cutFrom_eq_map_plain
    rintro p s rfl hs
    apply hm.eq_none (hg s hs (List.suffix_append p s))
  | @part gap hit rest last parts hg hh hr ih =>
    rw [cutFrom_append_of_none, cutFrom_append_of_some (hm.ne_nil hit hh), ih]
    · simp [segments]
    · exact (hm.eq_some_iff _ _ _).2 ⟨hit, hh, List.prefix_append hit rest, rfl⟩
    · rintro p s rfl hs
      apply hm.eq_none (hg s hs (List.suffix_append p s))

theorem Splits.cut_eq (h : Splits Occurs text parts last) (hm : Finds m Occurs) :
  cut m text = segments parts last
  := h.cutFrom_eq hm none

/-! ### Cutting piece by piece -/

namespace Finds

variable {rest : List Char} (hm : Finds m Occurs)

include hm

theorem le_length {before : Option Char} {n : Nat} (h : m before text = some n) :
  n ≤ text.length
  := by
  obtain ⟨hit, -, hp, rfl⟩ := (hm.eq_some_iff before text n).1 h
  apply hp.length_le

/-- What stands in front of a text does not matter. -/
theorem cutFrom_eq_cut (before : Option Char) (text : List Char) :
  cutFrom m before 0 text = cut m text
  := by
  obtain ⟨parts, last, h⟩ := exists_splits hm.ne_nil text
  rw [h.cutFrom_eq hm, h.cut_eq hm]

/-- Where nothing that begins in a text depends on what comes after it, the two are cut each on
their own. -/
theorem cut_append
    (h : ∀ s, s ≠ [] → s <:+ text → ∀ before, m before (s ++ rest) = m before s) :
  cut m (text ++ rest) = cut m text ++ cut m rest
  := by
  rw [cut, cutFrom_append_of_eq (Nat.zero_le _) _ fun _ _ _ => hm.le_length, hm.cutFrom_eq_cut,
    hm.cutFrom_eq_cut]
  intro p s hps hs
  apply h s hs ⟨p, hps.symm⟩

/-- What occurs at the start of a text is cut off first. -/
theorem cut_hit_append {hit : List Char} (hh : Occurs hit) (rest : List Char) :
  cut m (hit ++ rest) = .hit hit :: cut m rest
  := by
  rw [cut, cutFrom_append_of_some (hm.ne_nil hit hh), hm.cutFrom_eq_cut]
  apply (hm.eq_some_iff _ _ _).2 ⟨hit, hh, List.prefix_append hit rest, rfl⟩

end Finds

/-! ### The pieces tell how a text is split -/

/-- The gaps and occurrences of which these are the pieces, and the last gap. -/
def ofSegments : List Segment → List Part × List Char
  | [] => ([], [])
  | .plain c :: ss =>
    match ofSegments ss with
    | ([], last) => ([], c :: last)
    | (p :: parts, last) => (⟨c :: p.gap, p.hit⟩ :: parts, last)
  | .hit cs :: ss => (⟨[], cs⟩ :: (ofSegments ss).1, (ofSegments ss).2)

theorem ofSegments_gap (gap hit : List Char) (ss : List Segment) :
  ofSegments (gap.map .plain ++ (.hit hit :: ss))
    = (⟨gap, hit⟩ :: (ofSegments ss).1, (ofSegments ss).2)
  := by
  induction gap with
  | nil => rfl
  | cons c gap ih => rw [List.map_cons, List.cons_append, ofSegments, ih]

theorem ofSegments_segments (parts : List Part) (last : List Char) :
  ofSegments (segments parts last) = (parts, last)
  := by
  induction parts with
  | nil =>
    induction last with
    | nil => rfl
    | cons c last ih =>
      change ofSegments (.plain c :: segments [] last) = _
      rw [ofSegments, ih]
  | cons p parts ih => rw [segments_cons, ofSegments_gap, ih]

/-- A text is split in one way only. -/
theorem Splits.unique (h : Splits Occurs text parts last) (h' : Splits Occurs text parts' last')
    (hm : Finds m Occurs) :
  parts = parts' ∧ last = last'
  := by
  have heq : segments parts last = segments parts' last' :=
    (h.cut_eq hm).symm.trans (h'.cut_eq hm)
  have hparts := congrArg ofSegments heq
  rw [ofSegments_segments, ofSegments_segments] at hparts
  apply Prod.mk.inj hparts

end Localization.Text

import Localization.Proofs.Marker.Occurrences

/-!
# Markers in their surroundings

A text `LeavesOpen` an element of the component when the element begins in it and no `/>` comes
after.  What follows such a text is drawn into the element, up to the next `/>`
(`exists_findAll_of_leavesOpen`).  After any other text a well-formed marker is found on its
own, and the text gives the markers that it gives by itself (`findAll_surrounded`).
-/

namespace Localization.Marker

/-- An element of the component begins in the text, with a blank after the name, and is not
closed in it. -/
def LeavesOpen (component : Component) (text : List Char) : Prop :=
  ∃ b s, Text.isBlank b ∧ opening component ++ b :: s <:+ text ∧ ¬ close <:+: s

instance (component : Component) (text : List Char) : Decidable (LeavesOpen component text) :=
  decidable_of_iff
    (∃ s ∈ text.tails, ∃ b ∈ text, Text.isBlank b ∧ opening component ++ b :: s <:+ text
      ∧ ¬ close <:+: s)
    ⟨fun ⟨s, _, b, _, h⟩ => ⟨b, s, h⟩, fun ⟨b, s, hb, hs, hc⟩ =>
      ⟨s, (List.mem_tails s text).2 (List.IsSuffix.trans ⟨opening component ++ [b], by simp⟩ hs),
        b, hs.subset (by simp), hb, hs, hc⟩⟩

variable {component : Component} {before : Option Char} {text rest : List Char}

/-- No element begins in a gap, and so none is left open. -/
theorem IsGap.not_leavesOpen (h : IsGap component text) : ¬ LeavesOpen component text := by
  rintro ⟨b, s, hb, hs, -⟩
  apply h.not_blank b hb
  rw [List.append_cons] at hs
  apply (List.prefix_append _ s).isInfix.trans hs.isInfix

/-! ### What comes after a text -/

/-- The end of a marker does not depend on what comes after a text in which it is closed. -/
theorem tailLength?_append (hr : ∀ c ∈ rest.head?, c = '<')
    (ht : ∀ b s, Text.isBlank b → text = b :: s → close <:+: s) :
  tailLength? (text ++ rest) = tailLength? text
  := by
  cases text with
  | nil =>
    cases rest with
    | nil => rfl
    | cons c cs =>
      obtain rfl := hr c rfl
      rfl
  | cons c cs =>
    rw [List.cons_append, tailLength?, tailLength?]
    by_cases hc : Text.isBlank c
    · rw [if_pos hc, if_pos hc, Text.indexOf?_append_of_infix (by simp [close]) (ht c cs hc rfl)]
    · rw [if_neg hc, if_neg hc]
      have hp : close <+: c :: cs ++ rest ↔ close <+: c :: cs := by
        apply Text.prefix_append_iff _ (List.cons_ne_nil c cs)
        intro d hd
        obtain rfl := hr d hd
        decide
      simp only [List.isPrefixOf_iff_prefix, ← hp, List.cons_append]

/-- The beginning of a text holds no `<` but its own. -/
theorem not_mem_tail_opening (hc : component.IsPlain) :
  '<' ∉ (opening component).tail
  := fun h => (hc '<' h).2 rfl

/-- A match in a text that leaves no element open does not depend on what comes after. -/
theorem length?_append (hc : component.IsPlain) (hr : ∀ c ∈ rest.head?, c = '<')
    (ho : ¬ LeavesOpen component text) {s : List Char} (hs : s ≠ []) (ht : s <:+ text) :
  length? component before (s ++ rest) = length? component before s
  := by
  have hp : opening component <+: s ++ rest ↔ opening component <+: s := by
    apply Text.prefix_append_iff _ hs
    intro d hd
    obtain rfl := hr d hd
    apply not_mem_tail_opening hc
  by_cases h : opening component <+: s
  · obtain ⟨t, rfl⟩ := h
    rw [List.append_assoc, length?_opening_append, length?_opening_append,
      tailLength?_append hr]
    rintro b u hb rfl
    by_contra hu
    exact ho ⟨b, u, hb, ht, hu⟩
  · rw [length?_eq_none_of_not_begins h, length?_eq_none_of_not_begins (mt hp.1 h)]

/-! ### Finding markers piece by piece -/

/-- A text that leaves no element open gives its own markers, and then come those of the rest. -/
theorem findAll_append (hc : component.IsPlain) (hr : ∀ c ∈ rest.head?, c = '<')
    (ho : ¬ LeavesOpen component text) :
  findAll component (text ++ rest) = findAll component text ++ findAll component rest
  := by
  rw [findAll, (finds_isMarker component).cut_append, List.filterMap_append]
  · rfl
  · intro s hs ht before
    apply length?_append hc hr ho hs ht

theorem findAll_append_of_length? {marker : List Char} (hm : marker ≠ [])
    (h : length? component none (marker ++ rest) = some marker.length) :
  findAll component (marker ++ rest) = marker :: findAll component rest
  := by
  rw [findAll, Text.cut, Text.cutFrom_append_of_some hm h, List.filterMap_cons,
    (finds_isMarker component).cutFrom_eq_cut]
  rfl

variable {m : Spelling}

theorem chars_ne_nil :
  m.chars component ≠ []
  := by
  simp [Spelling.chars, opening]

theorem head?_chars_append :
  ∀ c ∈ (m.chars component ++ rest).head?, c = '<'
  := by
  intro c hm
  exact (Option.some.inj hm).symm

/-- The marker at the start of a text is found first. -/
theorem findAll_chars_append (hm : m.IsWellFormed) (rest : List Char) :
  findAll component (m.chars component ++ rest)
    = m.chars component :: findAll component rest
  := findAll_append_of_length? chars_ne_nil (Spelling.length?_chars_append hm rest)

/-! ### Elements left open -/

theorem not_close_append {s t : List Char} (hs : ¬ close <:+: s) (ht : ¬ close <:+: t)
    (hh : ∀ c ∈ t.head?, c ≠ '>') :
  ¬ close <:+: s ++ t
  := by
  intro h
  obtain h | h | ⟨-, h⟩ := Text.pair_infix_append_iff.1 h
  · exact hs h
  · exact ht h
  · exact hh '>' h rfl

/-- The beginning of an element closes nothing, if the name of the component does not. -/
theorem not_close_opening_append {s t : List Char} (hn : ¬ close <:+: component.name.toList)
    (hs : ¬ close <:+: s) (ht : ¬ close <:+: t) (hh : ∀ c ∈ t.head?, c ≠ '>') :
  ¬ close <:+: s ++ (opening component ++ t)
  := by
  have ho : ¬ close <:+: opening component :=
    not_close_append_of_notMem (s := ['<']) (by decide) hn
  apply not_close_append hs (not_close_append ho ht hh)
  intro c hc
  obtain rfl := Option.some.inj hc
  decide

theorem ne_of_isBlank {b : Char} (hb : Text.isBlank b) :
  b ≠ '/' ∧ b ≠ '>'
  := by
  constructor
  · exact slash_ne_of_isBlank hb
  · rintro rfl
    revert hb
    decide

/-- An element that is left open runs on through the next marker. -/
theorem findAll_open_append {b : Char} {s : List Char} (hn : ¬ close <:+: component.name.toList)
    (hb : Text.isBlank b) (hs : ¬ close <:+: s) (hm : m.IsWellFormed) (rest : List Char) :
  findAll component (opening component ++ b :: s ++ (m.chars component ++ rest))
    = (opening component ++ b :: s ++ m.chars component) :: findAll component rest
  := by
  have ht : ¬ close <:+: s ++ (opening component ++ m.inner) := by
    apply not_close_opening_append hn hs (Spelling.not_close_inner hm)
    obtain hi | ⟨c, cs, hc, hi⟩ := Spelling.inner_eq hm
    · simp [hi]
    · simpa [hi] using (ne_of_isBlank hc).2
  have hl := tailLength?_blank_append hb ht rest
  rw [← List.append_assoc]
  apply findAll_append_of_length? (by simp [opening])
  simp only [Spelling.chars, List.append_assoc, List.cons_append] at hl ⊢
  rw [length?_opening_append, hl]
  simp only [Option.map_some, List.length_append, List.length_cons]
  congr 1
  omega

/-- A text that leaves an element open leaves a first one open. -/
theorem exists_first_open (hn : ¬ close <:+: component.name.toList)
    (ho : LeavesOpen component text) :
  ∃ front b s, text = front ++ (opening component ++ b :: s) ∧ Text.isBlank b
    ∧ ¬ close <:+: s ∧ ¬ LeavesOpen component front
  := by
  induction hlen : text.length using Nat.strong_induction_on generalizing text with
  | _ n ih =>
    obtain ⟨b, s, hb, ⟨front, rfl⟩, hs⟩ := ho
    by_cases hf : LeavesOpen component front
    · have hlt : front.length < n := by
        simp only [← hlen, List.length_append, List.length_cons]
        omega
      obtain ⟨front', b', s', rfl, hb', hs', hf'⟩ := ih front.length hlt hf rfl
      refine ⟨front', b', s' ++ (opening component ++ b :: s), by simp, hb', ?_, hf'⟩
      apply not_close_opening_append hn hs'
      · exact not_close_append_of_notMem (s := [b])
          (by simpa using (ne_of_isBlank hb).1.symm) hs
      · simpa using (ne_of_isBlank hb).2
    · exact ⟨front, b, s, rfl, hb, hs, hf⟩

/-- When an element is left open before a marker, the first such element is found as one with
everything up to the end of the marker. -/
theorem exists_findAll_of_leavesOpen (hc : component.IsPlain)
    (hn : ¬ close <:+: component.name.toList) (ho : LeavesOpen component text)
    (hm : m.IsWellFormed) (rest : List Char) :
  ∃ front element, text = front ++ element ∧ opening component <+: element
    ∧ ¬ LeavesOpen component front
    ∧ findAll component (text ++ (m.chars component ++ rest))
      = findAll component front
        ++ (element ++ m.chars component) :: findAll component rest
  := by
  obtain ⟨front, b, s, rfl, hb, hs, hf⟩ := exists_first_open hn ho
  refine ⟨front, opening component ++ b :: s, rfl, List.prefix_append _ _, hf, ?_⟩
  rw [List.append_assoc, findAll_append hc _ hf, findAll_open_append hn hb hs hm]
  intro c hm
  exact (Option.some.inj hm).symm

/-! ### Markers in their surroundings -/

/-- Markers that stand one after the other, each after a text of its own, before a last text. -/
def surrounded (component : Component) (parts : List (List Char × Spelling))
    (last : List Char) : List Char :=
  parts.flatMap (fun part => part.1 ++ part.2.chars component) ++ last

theorem surrounded_cons (part : List Char × Spelling) (parts : List (List Char × Spelling))
    (last : List Char) :
  surrounded component (part :: parts) last
    = part.1 ++ (part.2.chars component ++ surrounded component parts last)
  := by
  simp [surrounded]

theorem findAll_surrounded_of_not_leavesOpen (hc : component.IsPlain)
    {parts : List (List Char × Spelling)} (hm : ∀ part ∈ parts, part.2.IsWellFormed)
    (ho : ∀ part ∈ parts, ¬ LeavesOpen component part.1) (last : List Char) :
  findAll component (surrounded component parts last)
    = parts.flatMap (fun part => findAll component part.1 ++ [part.2.chars component])
      ++ findAll component last
  := by
  induction parts with
  | nil => rfl
  | cons part parts ih =>
    rw [List.forall_mem_cons] at hm ho
    rw [surrounded_cons, findAll_append hc head?_chars_append ho.1, findAll_chars_append hm.1,
      ih hm.2 ho.2]
    simp

theorem findAll_eq_nil_of_notMem (h : '<' ∉ text) :
  findAll component text = []
  := by
  rw [findAll, Text.cut, Text.cutFrom_eq_map_plain, Text.filterMap_hit?_plain]
  intro p s hps _
  apply length?_eq_none_of_not_begins
  intro hp
  apply h
  rw [hps]
  apply List.mem_append_right p (hp.subset List.mem_cons_self)

theorem IsGap.findAll_eq_nil (hc : component.IsPlain) (h : IsGap component text) :
  findAll component text = []
  := by
  rw [findAll, Text.cut, Text.cutFrom_eq_map_plain, Text.filterMap_hit?_plain]
  intro p s hps hs
  rw [← List.append_nil s]
  apply length?_gap_append hc h (by simp) hs ⟨p, hps.symm⟩

/-- Where no element is left open before a marker, the markers that stand in a text are found,
each on its own and in order, and between them exactly what each of the texts around them gives
by itself: nothing, if it is a gap.  Where an element is left open, the first such element is
found as one with the marker, and what comes after the marker is found as before. -/
theorem findAll_surrounded (hc : component.IsPlain) {parts : List (List Char × Spelling)}
    (hm : ∀ part ∈ parts, part.2.IsWellFormed)
    (ho : ∀ part ∈ parts, ¬ LeavesOpen component part.1) (last : List Char) :
  findAll component (surrounded component parts last)
      = parts.flatMap (fun part => findAll component part.1 ++ [part.2.chars component])
        ++ findAll component last
    ∧ ((∀ part ∈ parts, IsGap component part.1) → IsGap component last →
      findAll component (surrounded component parts last)
        = parts.map fun part => part.2.chars component)
    ∧ ∀ (text : List Char) (m : Spelling) (rest : List Char), m.IsWellFormed →
      ¬ close <:+: component.name.toList → LeavesOpen component text →
      ∃ front element, text = front ++ element ∧ opening component <+: element
        ∧ ¬ LeavesOpen component front
        ∧ findAll component (text ++ (m.chars component ++ rest))
          = findAll component front
            ++ (element ++ m.chars component) :: findAll component rest
  := by
  have hfound := findAll_surrounded_of_not_leavesOpen hc hm ho last
  refine ⟨hfound, ?_, ?_⟩
  · intro hgaps hlast
    have hparts : parts.flatMap (fun part => findAll component part.1 ++ [part.2.chars component])
        = parts.flatMap fun part => [part.2.chars component] := by
      apply List.flatMap_congr
      intro part hp
      rw [(hgaps part hp).findAll_eq_nil hc, List.nil_append]
    rw [hfound, hparts, hlast.findAll_eq_nil hc, List.append_nil, List.map_eq_flatMap]
  · intro text m rest hm hn ho
    exact exists_findAll_of_leavesOpen hc hn ho hm rest

/-- Elements with content, left open or not, stand around the markers of this page. -/
theorem findAll_surrounded_page :
  findAll .default ("<LocalizeText >A</LocalizeText><LocalizeText id='a'/><br /><LocalizeText\n id="
      ++ "\"<b>\n\" /><LocalizeText/><LocalizeText id='c'>").toList
    = ["<LocalizeText >A</LocalizeText><LocalizeText id='a'/>".toList,
      "<LocalizeText\n id=\"<b>\n\" />".toList, "<LocalizeText/>".toList]
  := by
  let marker : Spelling := ⟨[⟨"\n ".toList, "id".toList, '"', "<b>\n".toList⟩], [' ']⟩
  let parts : List (List Char × Spelling) :=
    [("<LocalizeText >A</LocalizeText><LocalizeText id='a'/><br />".toList, marker),
      ([], ⟨[], []⟩)]
  have hm : ∀ part ∈ parts, part.2.IsWellFormed := by decide
  have h := (@findAll_surrounded .default (by decide) parts hm (by decide +kernel)
    "<LocalizeText id='c'>".toList).1
  convert h using 1
  · decide +kernel
  · decide +kernel

/-- A marker is not found on its own where an element with content stands before it. -/
theorem not_forall_mem_findAll :
  ¬ ∀ (component : Component) (m : Spelling) (before after : List Char), component.IsPlain →
    m.IsValid → (∀ a ∈ m.attributes, '<' ∉ a.value) →
    m.chars component ∈ findAll component (before ++ (m.chars component ++ after))
  := by
  intro h
  let marker : Spelling := ⟨[⟨[' '], "id".toList, '"', "b".toList⟩], [' ']⟩
  have hmem := h .default marker "<LocalizeText id=\"a\">A</LocalizeText>".toList [] (by decide)
    (by decide) (by decide)
  revert hmem
  decide +kernel

end Localization.Marker

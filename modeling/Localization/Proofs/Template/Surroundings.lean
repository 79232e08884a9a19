import Localization.Proofs.Template.Filling
import Mathlib.Data.List.DropRight

/-!
# Placeholders in their surroundings

A text `LeavesOpen` a placeholder when it ends with `{`, or when `{{` stands in it and no `}`
comes after.  A well-formed placeholder that follows such a text is drawn into one with what is
left open.  This one has a blank in its name, and so nothing is put in its place
(`exists_fill_append_of_leavesOpen`).  After any other text a well-formed placeholder is filled on
its own, and the text is filled as it is by itself (`fill_append_named`).
-/

namespace Localization

/-! ### Trimming -/

namespace Text

theorem dropWhile_append_cons {p : Char → Bool} {c : Char} (hc : p c = false) (s t : List Char) :
  (s ++ c :: t).dropWhile p = s.dropWhile p ++ c :: t
  := by
  rw [List.dropWhile_append, List.dropWhile_cons_of_neg (by simp [hc])]
  split
  · next h => rw [List.isEmpty_iff.1 h, List.nil_append]
  · rfl

/-- Trimming stops at both ends of a text that neither begins nor ends with a blank. -/
theorem trim_append {text : List Char} (hn : text ≠ [])
    (hh : ∀ c ∈ text.head?, isBlank c = false) (hl : ∀ c ∈ text.getLast?, isBlank c = false)
    (front back : List Char) :
  trim (front ++ (text ++ back))
    = front.dropWhile isBlank ++ (text ++ back.rdropWhile isBlank)
  := by
  have hfront : (front ++ (text ++ back)).dropWhile isBlank
      = front.dropWhile isBlank ++ (text ++ back) := by
    obtain ⟨c, cs, rfl⟩ := List.exists_cons_of_ne_nil hn
    apply dropWhile_append_cons (hh c rfl)
  have hback : (back.reverse ++ (front.dropWhile isBlank ++ text).reverse).dropWhile isBlank
      = back.reverse.dropWhile isBlank ++ (front.dropWhile isBlank ++ text).reverse := by
    obtain ⟨ds, d, rfl⟩ := (List.eq_nil_or_concat' text).resolve_left hn
    rw [← List.append_assoc, List.reverse_concat]
    apply dropWhile_append_cons (hl d (by simp))
  rw [trim, hfront, ← List.append_assoc, List.reverse_append, hback, List.reverse_append,
    List.reverse_reverse, List.append_assoc]
  rfl

end Text

namespace Template

/-! ### Placeholders that are left open -/

/-- The text is the beginning of a placeholder, up to a place where a brace may follow: `{`, or
`{{` and characters other than `}`. -/
def IsOpening (text : List Char) : Prop :=
  text = ['{'] ∨ ∃ run, '}' ∉ run ∧ text = '{' :: '{' :: run

/-- A placeholder is left open at the end of the text: the text ends with `{`, or `{{` stands in it
and no `}` comes after. -/
def LeavesOpen (text : List Char) : Prop :=
  ∃ opening, IsOpening opening ∧ opening <:+ text

/-- A placeholder stands somewhere in the text. -/
def HasPlaceholder (text : List Char) : Prop :=
  ∃ run, IsRun run ∧ placeholder run <:+: text

instance (text : List Char) : Decidable (IsKey text) :=
  inferInstanceAs (Decidable (_ ∧ _))

instance (text : List Char) : Decidable (IsOpening text) :=
  decidable_of_iff (text = ['{'] ∨ (['{', '{'] <+: text ∧ '}' ∉ text.drop 2)) <| by
    apply or_congr Iff.rfl
    constructor
    · rintro ⟨⟨run, rfl⟩, hr⟩
      use run, hr
      rfl
    · rintro ⟨run, hr, rfl⟩
      use ⟨run, rfl⟩, hr

instance (text : List Char) : Decidable (LeavesOpen text) :=
  decidable_of_iff (∃ opening ∈ text.tails, IsOpening opening) <| by
    simp only [LeavesOpen, List.mem_tails, and_comm]

instance (text : List Char) : Decidable (HasPlaceholder text) :=
  decidable_of_iff (∃ s ∈ text.tails, (placeholderLength? none s).isSome) <| by
    simp only [Option.isSome_iff_exists, finds_isPlaceholder.eq_some_iff, List.mem_tails]
    constructor
    · rintro ⟨s, hs, _, _, ⟨run, hr, rfl⟩, hp, -⟩
      use run, hr
      apply hp.isInfix.trans hs.isInfix
    · rintro ⟨run, hr, hi⟩
      obtain ⟨s, hp, hs⟩ := List.infix_iff_prefix_suffix.1 hi
      use s, hs, (placeholder run).length, placeholder run, ⟨run, hr, rfl⟩, hp

variable {text rest opening run name : List Char}

/-- What begins inside a text and ends in what follows, if this begins with a brace, is left open
by the text. -/
theorem isOpening_of_prefix (hr : IsRun run) (hrest : ∀ c ∈ rest.head?, c = '{')
    (ht : text ≠ []) (h : placeholder run <+: text ++ rest) (hn : ¬ placeholder run <+: text) :
  IsOpening text
  := by
  obtain ⟨c, u, hu, hc⟩ := Text.exists_of_prefix_append h hn
  obtain rfl := hrest c hc
  -- The text ends inside the placeholder with a brace after it, and so before the final `}}`.
  obtain ⟨d, text, rfl⟩ := List.exists_cons_of_ne_nil ht
  rw [placeholder, List.cons_append, List.cons.injEq] at hu
  obtain ⟨rfl, hu⟩ := hu
  cases text with
  | nil =>
    left
    rfl
  | cons e s =>
    rw [List.cons_append, List.cons.injEq] at hu
    obtain ⟨rfl, hu⟩ := hu
    right
    refine ⟨s, ?_, rfl⟩
    obtain ⟨a, -, ha⟩ | ⟨a, hs, -⟩ := List.append_eq_append_iff.1 hu
    · have hm : '{' ∈ ['}', '}'] := by
        rw [ha]
        simp
      simp at hm
    · intro hm
      apply hr.2
      rw [hs]
      apply List.mem_append_left a hm

/-- Whether a placeholder begins inside a text that leaves none open does not depend on what
follows. -/
theorem begins_append_iff (ho : ¬ LeavesOpen text) (hrest : ∀ c ∈ rest.head?, c = '{')
    {s : List Char} (hs : s ≠ []) (ht : s <:+ text) {run : List Char} (hr : IsRun run) :
  placeholder run <+: s ++ rest ↔ placeholder run <+: s
  := by
  constructor
  · intro h
    by_contra hn
    apply ho ⟨s, isOpening_of_prefix hr hrest hs h hn, ht⟩
  · intro h
    apply h.trans (List.prefix_append s rest)

/-! ### Filling piece by piece -/

variable {tables : List Values}

/-- The characters of a filled template. -/
def filled (tables : List Values) (text : List Char) : List Char :=
  (Text.cut placeholderLength? text).flatMap (fillSegment tables)

theorem fill_eq (template : String) :
  fill tables template = .ofList (filled tables template.toList)
  := rfl

theorem placeholderLength?_append (ho : ¬ LeavesOpen text) (hrest : ∀ c ∈ rest.head?, c = '{')
    {s : List Char} (hs : s ≠ []) (ht : s <:+ text) (before : Option Char) :
  placeholderLength? before (s ++ rest) = placeholderLength? before s
  := by
  apply Option.ext
  intro n
  rw [finds_isPlaceholder.eq_some_iff, finds_isPlaceholder.eq_some_iff]
  apply exists_congr
  intro hit
  apply and_congr_right
  rintro ⟨run, hr, rfl⟩
  rw [begins_append_iff ho hrest hs ht hr]

/-- A text that leaves no placeholder open is filled as it is by itself. -/
theorem filled_append (ho : ¬ LeavesOpen text) (hrest : ∀ c ∈ rest.head?, c = '{') :
  filled tables (text ++ rest) = filled tables text ++ filled tables rest
  := by
  rw [filled, finds_isPlaceholder.cut_append, List.flatMap_append]
  · rfl
  · intro s hs ht
    apply placeholderLength?_append ho hrest hs ht

/-- A placeholder at the start of a text is filled first. -/
theorem filled_placeholder_append (hr : IsRun run) (rest : List Char) :
  filled tables (placeholder run ++ rest)
    = (valueOf tables (Text.trim run)).toList ++ filled tables rest
  := by
  rw [filled, finds_isPlaceholder.cut_hit_append ⟨run, hr, rfl⟩, List.flatMap_cons, fillSegment,
    nameOf_placeholder]
  rfl

/-- A text without placeholders is left as it is. -/
theorem filled_eq_self (h : ¬ HasPlaceholder text) :
  filled tables text = text
  := by
  have hg : ∀ s, s ≠ [] → s <:+ text → ¬ Text.Begins IsPlaceholder s := by
    rintro s _ hs ⟨_, ⟨run, hr, rfl⟩, hp⟩
    apply h ⟨run, hr, hp.isInfix.trans hs.isInfix⟩
  rw [filled, (Text.Splits.last hg).cut_eq finds_isPlaceholder, flatMap_fillSegment]
  rfl

/-! ### Names -/

/-- The placeholder with this name in it, and a space on each side. -/
def named (name : String) : String :=
  "\x7b\x7b " ++ name ++ " \x7d\x7d"

theorem toList_named (name : String) :
  (named name).toList = placeholder (' ' :: (name.toList ++ [' ']))
  := by
  simp [named, placeholder]

theorem trim_spaces (hn : IsKey name) :
  Text.trim (' ' :: (name ++ [' '])) = name ∧ Text.trim name = name
  := by
  have hblank : ∀ c ∈ name, Text.isBlank c = false := by simpa [IsKey] using hn.2
  have htrim := Text.trim_append hn.1 (fun c hc => hblank c (List.mem_of_mem_head? hc))
    fun c hc => hblank c (List.mem_of_mem_getLast? hc)
  constructor
  · exact (htrim [' '] [' ']).trans (List.append_nil name)
  · simpa using htrim [] []

/-- A brace in front of a name and a blank makes it no name. -/
theorem not_isKey_trim (hn : IsKey name) (front : List Char) :
  ¬ IsKey (Text.trim (front ++ '{' :: ' ' :: (name ++ [' '])))
  := by
  have hblank : ∀ c ∈ name.getLast?, Text.isBlank c = false := by
    intro c hc
    simpa using hn.2 c (List.mem_of_mem_getLast? hc)
  have hbrace : ∀ c ∈ ('{' :: ' ' :: name).head?, Text.isBlank c = false := by
    rintro _ ⟨⟩
    decide
  have htrim := Text.trim_append (List.cons_ne_nil _ _) hbrace
    (by simpa [List.getLast?_cons, List.getLast?_eq_some_getLast hn.1] using hblank) front [' ']
  intro h
  rw [List.cons_append, List.cons_append] at htrim
  rw [htrim] at h
  apply h.2 ' ' (by simp)
  decide

/-! ### What is left open -/

theorem IsOpening.exists_run (h : IsOpening opening) :
  ∃ run, '}' ∉ run ∧ ∀ rest, opening ++ '{' :: rest = '{' :: '{' :: (run ++ rest)
  := by
  obtain rfl | ⟨run, hr, rfl⟩ := h
  · use [], by simp
    intro rest
    rfl
  · use run ++ ['{'], by simp [hr]
    simp

theorem IsOpening.exists_cons (h : IsOpening opening) :
  ∃ rest, opening = '{' :: rest ∧ '}' ∉ rest
  := by
  obtain rfl | ⟨run, hr, rfl⟩ := h
  · use [], rfl
    simp
  · use '{' :: run, rfl
    simp [hr]

theorem IsOpening.append {opening' : List Char} (h : IsOpening opening)
    (h' : IsOpening opening') :
  IsOpening (opening ++ opening')
  := by
  obtain ⟨run, hr, happ⟩ := h.exists_run
  obtain ⟨rest, rfl, hrest⟩ := h'.exists_cons
  right
  use run ++ rest, by simp [hr, hrest]
  apply happ

/-- What leaves a placeholder open leaves a first one open. -/
theorem exists_first_opening (h : LeavesOpen text) :
  ∃ front opening, text = front ++ opening ∧ IsOpening opening ∧ ¬ LeavesOpen front
  := by
  induction hn : text.length using Nat.strong_induction_on generalizing text with
  | _ n ih =>
    obtain ⟨opening, ho, front, rfl⟩ := h
    -- What is left open before an opening goes on through it.
    by_cases hf : LeavesOpen front
    · have hlt : front.length < n := by
        obtain ⟨rest, rfl, -⟩ := ho.exists_cons
        rw [← hn, List.length_append, List.length_cons]
        omega
      obtain ⟨front', opening', rfl, ho', hf'⟩ := ih front.length hlt hf rfl
      use front', opening' ++ opening, List.append_assoc _ _ _, ho'.append ho
    · use front, opening, rfl, ho

/-- Nothing is put in the place of a placeholder that is drawn into one left open. -/
theorem filled_opening_append (ho : IsOpening opening) (hn : IsKey name) (hb : '}' ∉ name)
    (rest : List Char) :
  filled tables (opening ++ (placeholder (' ' :: (name ++ [' '])) ++ rest)) = filled tables rest
  := by
  obtain ⟨run, hr, happ⟩ := ho.exists_run
  have htext : opening ++ (placeholder (' ' :: (name ++ [' '])) ++ rest)
      = placeholder (run ++ '{' :: ' ' :: (name ++ [' '])) ++ rest := by
    rw [placeholder, List.cons_append, happ]
    simp [placeholder]
  rw [htext, filled_placeholder_append, valueOf_of_not_isKey (not_isKey_trim hn run)]
  · rfl
  · use by simp
    simp [hr, hb]

/-! ### Placeholders in their surroundings -/

variable {values : Values} {defaults : Option Values}

/-- After a text that leaves no placeholder open a well-formed placeholder is filled with the
value of its name. -/
theorem fill_append_named {before name after : String} (hn : IsKey name.toList)
    (hb : '}' ∉ name.toList) (ho : ¬ LeavesOpen before.toList) :
  ∃ value, Fills values defaults name.toList value
    ∧ fill (values :: defaults.toList) (before ++ (named name ++ after))
      = fill (values :: defaults.toList) before
        ++ (value ++ fill (values :: defaults.toList) after)
  := by
  have hrun : IsRun (' ' :: (name.toList ++ [' '])) := by
    use List.cons_ne_nil _ _
    simp [hb]
  use valueOf (values :: defaults.toList) name.toList
  constructor
  · rw [fills_iff, (trim_spaces hn).2]
  · rw [fill_eq, fill_eq, fill_eq, String.toList_append, String.toList_append, toList_named,
      filled_append ho _, filled_placeholder_append hrun, (trim_spaces hn).1]
    · simp
    · rintro _ ⟨⟩
      rfl

/-- A placeholder that a text leaves open is drawn together with the next well-formed one, and
nothing is put in their place. -/
theorem exists_fill_append_of_leavesOpen {tables : List Values} {before name after : String}
    (hn : IsKey name.toList) (hb : '}' ∉ name.toList) (ho : LeavesOpen before.toList) :
  ∃ front opening, before = front ++ opening ∧ IsOpening opening.toList
    ∧ ¬ LeavesOpen front.toList
    ∧ fill tables (before ++ (named name ++ after)) = fill tables front ++ fill tables after
  := by
  obtain ⟨front, opening, hbefore, hopening, hfront⟩ := exists_first_opening ho
  use .ofList front, .ofList opening
  rw [String.toList_ofList, String.toList_ofList]
  refine ⟨?_, hopening, hfront, ?_⟩
  · rw [← String.ofList_append, ← hbefore, String.ofList_toList]
  · rw [fill_eq, fill_eq, fill_eq, String.toList_append, String.toList_append, toList_named, hbefore,
      List.append_assoc, filled_append hfront, filled_opening_append hopening hn hb]
    · simp
    · obtain ⟨rest, rfl, -⟩ := hopening.exists_cons
      rintro _ ⟨⟩
      rfl

/-- A text without placeholders is left as it is.  When a well-formed placeholder follows it, the
value of the name is put in its place, unless the text leaves a placeholder open: then the first
one left open is drawn together with what follows, and both are left out. -/
theorem fill_surrounded {before name after : String} (hn : IsKey name.toList)
    (hb : '}' ∉ name.toList) (hp : ¬ HasPlaceholder before.toList) :
  fill (values :: defaults.toList) before = before
    ∧ (¬ LeavesOpen before.toList → ∃ value, Fills values defaults name.toList value
      ∧ fill (values :: defaults.toList) (before ++ (named name ++ after))
        = before ++ (value ++ fill (values :: defaults.toList) after))
    ∧ (LeavesOpen before.toList → ∃ front opening, before = front ++ opening
      ∧ IsOpening opening.toList ∧ ¬ LeavesOpen front.toList
      ∧ fill (values :: defaults.toList) (before ++ (named name ++ after))
        = front ++ fill (values :: defaults.toList) after)
  := by
  have hself : ∀ text : String, ¬ HasPlaceholder text.toList →
      fill (values :: defaults.toList) text = text := by
    intro text h
    rw [fill_eq, filled_eq_self h, String.ofList_toList]
  have hbefore := hself before hp
  refine ⟨hbefore, ?_, ?_⟩
  · intro ho
    have h := @fill_append_named values defaults before name after hn hb ho
    rwa [hbefore] at h
  · intro ho
    obtain ⟨front, opening, rfl, hopening, hfront, h⟩ := @exists_fill_append_of_leavesOpen
      (values :: defaults.toList) before name after hn hb ho
    use front, opening, rfl, hopening, hfront
    rw [h, hself]
    rintro ⟨run, hr, hi⟩
    apply hp ⟨run, hr, hi.trans (List.IsPrefix.isInfix _)⟩
    rw [String.toList_append]
    apply List.prefix_append

/-- Braces that open nothing stand before the placeholder of this template. -/
theorem fill_surrounded_closed :
  fill [.ofList [("user", "Sam")], .ofList [("user", "Guest")]]
      "\x7b\x7b a \x7d, \x7bb\x7d and \x7b\x7b user \x7d\x7d\x7b"
    = "\x7b\x7b a \x7d, \x7bb\x7d and Sam\x7b"
  := by
  have hp : ¬ HasPlaceholder "\x7b\x7b a \x7d, \x7bb\x7d and ".toList := by decide +kernel
  obtain ⟨value, hv, h⟩ := (@fill_surrounded (.ofList [("user", "Sam")])
    (some (.ofList [("user", "Guest")])) "\x7b\x7b a \x7d, \x7bb\x7d and " "user" "\x7b"
    (by decide +kernel) (by decide +kernel) hp).2.1 (by decide +kernel)
  obtain rfl := fills_iff.1 hv
  convert h using 1
  all_goals decide +kernel

/-- One brace before a placeholder keeps it from being filled. -/
theorem not_forall_fill_append_named :
  ¬ ∀ (values : Values) (defaults : Option Values) (before name after : String),
    IsKey name.toList → '{' ∉ name.toList → '}' ∉ name.toList → ¬ HasPlaceholder before.toList →
    ∃ value, Fills values defaults name.toList value
      ∧ fill (values :: defaults.toList) (before ++ (named name ++ after))
        = before ++ (value ++ fill (values :: defaults.toList) after)
  := by
  intro h
  obtain ⟨value, hv, hfill⟩ := h (.ofList [("name", "Sam")]) none "Set \x7b" "name" "\x7d"
    (by decide) (by decide) (by decide) (by decide +kernel)
  obtain rfl := fills_iff.1 hv
  revert hfill
  decide +kernel

end Template
end Localization

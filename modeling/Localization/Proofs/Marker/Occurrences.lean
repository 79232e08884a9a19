import Localization.Proofs.Marker.Spelling
import Localization.Proofs.Text.Splitting

/-!
# Where markers stand

`Marker.IsMarker` says which texts are markers: `<` and the name of the component, then nothing or
a blank and more, and then the first `/>` that comes.  A text is split at its markers in one way
only, and the markers that are found in it are those between the gaps (`findAll_splits`).
-/

namespace Localization.Marker

/-- The text stands between the name of the component and the `/>` of a marker: it is empty or
begins with a blank, and no `/>` is in it. -/
structure IsInner (inner : List Char) : Prop where
  isBlank : ∀ b ∈ inner.head?, Text.isBlank b
  not_close : ¬ close <:+: inner

/-- The text is a marker of the component. -/
def IsMarker (component : Component) (text : List Char) : Prop :=
  ∃ inner, IsInner inner ∧ text = opening component ++ (inner ++ close)

variable {component : Component} {rest text : List Char}

theorem IsInner.nil :
  IsInner []
  where
  isBlank := by simp
  not_close := by simp [close]

theorem IsInner.cons {b : Char} {s : List Char} (hb : Text.isBlank b) (hs : ¬ close <:+: s) :
  IsInner (b :: s)
  where
  isBlank := by
    rintro _ ⟨⟩
    apply hb
  not_close := by
    apply not_close_append_of_notMem _ hs (s := [b])
    rw [List.mem_singleton]
    apply (slash_ne_of_isBlank hb).symm

/-- What follows the name of the component in a marker is nothing or a blank and more, and ends
with the first `/>`. -/
theorem tailLength?_eq_some_iff {n : Nat} :
  tailLength? rest = some n ↔ ∃ inner, IsInner inner ∧ inner ++ close <+: rest
    ∧ n = (inner ++ close).length
  := by
  constructor
  · intro h
    cases rest with
    | nil => cases h
    | cons c cs =>
      rw [tailLength?] at h
      split at h
      · next hc =>
        obtain ⟨k, hk, rfl⟩ := Option.map_eq_some_iff.1 h
        obtain ⟨s, t, rfl, rfl, hs⟩ := Text.exists_of_indexOf?_eq_some close_ne_nil hk
        use c :: s, .cons hc fun hi => hs (hi.trans (List.prefix_append s _).isInfix), ⟨t, by simp⟩
        simp
        omega
      · split at h
        · next hp =>
          use [], .nil, List.isPrefixOf_iff_prefix.1 hp
          exact (Option.some.inj h).symm
        · cases h
  · rintro ⟨inner, hi, ⟨t, rfl⟩, rfl⟩
    rw [List.append_assoc]
    cases inner with
    | nil => apply tailLength?_close_append
    | cons b s =>
      have hs : ¬ close <:+: s := fun h => hi.not_close (h.trans (List.suffix_cons b s).isInfix)
      rw [List.cons_append, tailLength?_blank_append (hi.isBlank b rfl) hs, List.length_append,
        List.length_cons, Nat.add_comm 1]

/-- Markers are what is found in a text. -/
theorem finds_isMarker (component : Component) :
  Text.Finds (length? component) (IsMarker component)
  where
  ne_nil := by
    rintro _ ⟨inner, -, rfl⟩
    simp [opening]
  eq_some_iff before text n := by
    constructor
    · intro h
      by_cases hp : opening component <+: text
      · obtain ⟨rest, rfl⟩ := hp
        rw [length?_opening_append, Option.map_eq_some_iff] at h
        obtain ⟨k, hk, rfl⟩ := h
        obtain ⟨inner, hi, hp, rfl⟩ := tailLength?_eq_some_iff.1 hk
        use opening component ++ (inner ++ close), ⟨inner, hi, rfl⟩
        rw [List.prefix_append_right_inj]
        use hp
        simp
      · rw [length?_eq_none_of_not_begins hp] at h
        cases h
    · rintro ⟨_, ⟨inner, hi, rfl⟩, ⟨rest, rfl⟩, rfl⟩
      rw [List.append_assoc, length?_opening_append,
        tailLength?_eq_some_iff.2 ⟨inner, hi, List.prefix_append _ rest, rfl⟩]
      simp

/-- A marker begins where `<` and the name stand with `/>` directly after them, or with a blank
and `/>` somewhere after it. -/
theorem begins_isMarker_iff :
  Text.Begins (IsMarker component) text
    ↔ ∃ rest, text = opening component ++ rest
      ∧ (close <+: rest ∨ ∃ b s, rest = b :: s ∧ Text.isBlank b ∧ close <:+: s)
  := by
  constructor
  · rintro ⟨_, ⟨inner, hi, rfl⟩, t, rfl⟩
    use inner ++ (close ++ t), by simp
    cases inner with
    | nil =>
      left
      apply List.prefix_append
    | cons b s =>
      right
      use b, s ++ (close ++ t), rfl, hi.isBlank b rfl
      apply List.infix_append'
  · rintro ⟨rest, rfl, ⟨t, rfl⟩ | ⟨b, s, rfl, hb, hs⟩⟩
    · use opening component ++ close, ⟨[], .nil, rfl⟩
      rw [List.prefix_append_right_inj]
      apply List.prefix_append
    · obtain ⟨k, hk⟩ : ∃ k, Text.indexOf? close s = some k := by
        rw [← Option.ne_none_iff_exists', ne_eq, Text.indexOf?_eq_none_iff close_ne_nil, not_not]
        apply hs
      obtain ⟨s, t, rfl, -, hs⟩ := Text.exists_of_indexOf?_eq_some close_ne_nil hk
      use opening component ++ (b :: s ++ close), ⟨b :: s, ?_, rfl⟩, t, by simp
      apply IsInner.cons hb fun hi => hs (hi.trans (List.prefix_append s _).isInfix)

/-- A name that goes on after that of the component begins no marker. -/
theorem not_begins_isMarker {c : Char} (hb : Text.isBlank c = false)
    (hc : ¬ close <+: c :: rest) :
  ¬ Text.Begins (IsMarker component) (opening component ++ c :: rest)
  := by
  rw [begins_isMarker_iff]
  rintro ⟨_, ht, hp | ⟨b, s, rfl, hbb, -⟩⟩
  · apply hc
    rwa [List.append_cancel_left ht]
  · obtain ⟨rfl, -⟩ := List.cons.inj (List.append_cancel_left ht)
    rw [hb] at hbb
    cases hbb

/-- A text is split at its markers in one way only, and these are what is found, in order.  A
marker begins where the name of the component does not go on and `/>` comes, and nowhere else. -/
theorem findAll_splits (component : Component) (text : List Char) :
  (∃ parts last, Text.Splits (IsMarker component) text parts last
    ∧ (∀ parts' last', Text.Splits (IsMarker component) text parts' last' →
      parts' = parts ∧ last' = last)
    ∧ findAll component text = parts.map (·.hit))
  ∧ (∀ s, Text.Begins (IsMarker component) s ↔ ∃ rest, s = opening component ++ rest
    ∧ (close <+: rest ∨ ∃ b s, rest = b :: s ∧ Text.isBlank b ∧ close <:+: s))
  ∧ ∀ c rest, Text.isBlank c = false → ¬ close <+: c :: rest →
    ¬ Text.Begins (IsMarker component) (opening component ++ c :: rest)
  := by
  refine ⟨?_, fun _ => begins_isMarker_iff, fun _ _ => not_begins_isMarker⟩
  have hm := finds_isMarker component
  obtain ⟨parts, last, h⟩ := Text.exists_splits hm.ne_nil text
  use parts, last, h
  constructor
  · intro parts' last' h'
    apply h'.unique h hm
  · rw [findAll, h.cut_eq hm, Text.filterMap_hit?_segments]

/-- Every character of the name stands for itself. -/
example :
  findAll ⟨"Msg$", by decide⟩ "<Msg$ id='a' /><Msg$/><Msg$x/><Msg id='b' />".toList
    = ["<Msg$ id='a' />".toList, "<Msg$/>".toList]
  := by decide +kernel

end Localization.Marker

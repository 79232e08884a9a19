import Localization.Path
import Mathlib.Data.List.Basic
import Mathlib.Data.List.DropRight

/-!
# The way up from a path

The parent of a path is written with fewer characters (`length_parent?_lt`), and so every path
has only finitely many parents, one above the other: `ancestor? n p` is the path `n` parents
above `p`, if there are so many.  What holds of a path whenever it holds of its parent holds of
every path (`induction_parent`).
-/

namespace Localization.Path

/-! ### Lengths -/

/-- The number of characters of pieces, each with a separator after it. -/
def weight (pieces : List (List Char)) : Nat :=
  (pieces.flatMap (· ++ ['/'])).length

theorem weight_cons (piece : List Char) (rest : List (List Char)) :
  weight (piece :: rest) = piece.length + 1 + weight rest
  := by
  rw [weight, List.flatMap_cons, List.length_append, List.length_append]
  rfl

theorem weight_append (xs ys : List (List Char)) : weight (xs ++ ys) = weight xs + weight ys := by
  simp [weight]

theorem weight_singleton (piece : List Char) : weight [piece] = piece.length + 1 := by
  simp [weight]

theorem weight_le_of_prefix {xs ys : List (List Char)} (h : xs <+: ys) : weight xs ≤ weight ys := by
  obtain ⟨zs, rfl⟩ := h
  rw [weight_append]
  apply Nat.le_add_right

theorem length_intercalate (pieces : List (List Char)) :
  (['/'].intercalate pieces).length = weight pieces - 1
  := by
  induction pieces with
  | nil => rfl
  | cons piece rest ih =>
    by_cases hr : rest = []
    · subst hr
      simp [weight]
    · obtain ⟨q, qs, rfl⟩ := List.exists_cons_of_ne_nil hr
      rw [List.intercalate_cons_of_ne_nil hr, List.length_append, List.length_append, ih,
        List.length_singleton, weight_cons piece, weight_cons q]
      omega

theorem length_ofPieces (pieces : List (List Char)) :
  (ofPieces pieces).text.length = weight pieces - 1
  := by
  rw [ofPieces, String.length_ofList, length_intercalate]

/-- The pieces that stand for the start of a path. -/
def anchorPieces : Option Part → List (List Char)
  | some .root => [[]]
  | some .current => [['.']]
  | _ => []

theorem pieces_eq (p : Path) : p.pieces = anchorPieces p.anchor? ++ p.body := by
  rw [anchor?, body]
  split
  · next h => rw [h]; rfl
  · next h => rw [h]; rfl
  · rfl

theorem length_text (p : Path) :
  p.text.length = weight (anchorPieces p.anchor?) + weight p.body - 1
  := by
  rw [← weight_append, ← pieces_eq, ← length_ofPieces, ofPieces, pieces,
    List.intercalate_splitOn, String.ofList_toList]

theorem length_ofAnchor {anchor : Option Part} {rest : List (List Char)}
    (h : anchor = some .root → rest ≠ []) :
  (ofAnchor anchor rest).text.length = weight (anchorPieces anchor) + weight rest - 1
  := by
  rw [← weight_append, ← length_ofPieces]
  cases anchor with
  | none => rfl
  | some part =>
    cases part with
    | root =>
      obtain ⟨piece, rest, rfl⟩ := List.exists_cons_of_ne_nil (h rfl)
      rfl
    | current => rfl
    | up => rfl
    | name text => rfl

/-! ### Parents -/

theorem trimIdle_prefix_self (pieces : List (List Char)) : trimIdle pieces <+: pieces := by
  apply List.rdropWhile_prefix

/-- What is left after trimming ends with a piece that is not idle. -/
theorem exists_concat_of_trimIdle {pieces : List (List Char)} (h : trimIdle pieces ≠ []) :
  ∃ front piece, trimIdle pieces = front ++ [piece] ∧ piece ≠ []
  := by
  refine ⟨_, _, (List.dropLast_append_getLast h).symm, ?_⟩
  intro hnil
  have hlast : ¬ isIdle ((trimIdle pieces).getLast h) = true :=
    List.rdropWhile_last_not isIdle pieces h
  apply hlast
  rw [hnil]
  rfl

/-- A parent is written with fewer characters. -/
theorem length_parent?_lt {p q : Path} (h : p.parent? = some q) :
  q.text.length < p.text.length
  := by
  rw [parent?] at h
  split at h
  · split at h
    · next hcurrent =>
      obtain rfl := Option.some.inj h
      rw [length_text p, hcurrent, anchorPieces, weight_singleton]
      change 0 < _
      rw [List.length_singleton]
      omega
    · cases h
  · next hrest =>
    obtain ⟨front, piece, hfront, hpiece⟩ := exists_concat_of_trimIdle hrest
    obtain rfl := Option.some.inj h
    have hbody := weight_le_of_prefix (trimIdle_prefix_self p.body)
    have hfront' := weight_le_of_prefix (trimIdle_prefix_self front)
    have hlength := List.length_pos_iff.2 hpiece
    rw [hfront, weight_append, weight_singleton] at hbody
    rw [length_text p, hfront, List.dropLast_concat]
    by_cases hroot : p.anchor? = some .root ∧ trimIdle front = []
    · rw [hroot.1, hroot.2]
      change 1 < weight [[]] + _ - 1
      rw [weight_singleton, List.length_nil]
      omega
    · rw [length_ofAnchor (fun h hnil => hroot ⟨h, hnil⟩)]
      omega

/-- The paths with a parent end, on the way up, with one that has none. -/
theorem wellFounded_parent? : WellFounded fun q p : Path => p.parent? = some q := by
  apply Subrelation.wf _ (measure fun p : Path => p.text.length).wf
  intro q p h
  apply length_parent?_lt h

/-- What holds of every path whose parent it holds of, holds of every path. -/
@[elab_as_elim]
theorem induction_parent {motive : Path → Prop} (p : Path)
    (step : ∀ p, (∀ q, p.parent? = some q → motive q) → motive p) :
  motive p
  := wellFounded_parent?.induction p step

/-- The path this many parents above a path. -/
def ancestor? : Nat → Path → Option Path
  | 0, p => some p
  | n + 1, p => (ancestor? n p).bind parent?

theorem ancestor?_succ (n : Nat) (p : Path) :
  ancestor? (n + 1) p = p.parent?.bind (ancestor? n)
  := by
  induction n with
  | zero => cases h : p.parent? <;> simp [ancestor?, h]
  | succ n ih => rw [ancestor?, ih, Option.bind_assoc]; rfl

/-- What holds on the way up holds of the start, and on the way up from its parent. -/
theorem forall_ancestor?_succ_iff {P : Path → Prop} {n : Nat} {p r : Path}
    (hr : p.parent? = some r) :
  (∀ k < n + 1, ∀ q, ancestor? k p = some q → P q)
    ↔ P p ∧ ∀ k < n, ∀ q, ancestor? k r = some q → P q
  := by
  have hsucc : ∀ k, ancestor? (k + 1) p = ancestor? k r := by
    intro k
    rw [ancestor?_succ, hr]
    rfl
  constructor
  · intro h
    constructor
    · apply h 0 (Nat.succ_pos n) p rfl
    · intro k hk q hq
      apply h (k + 1) (Nat.succ_lt_succ hk)
      rw [hsucc, hq]
  · rintro ⟨hp, h⟩ k hk q hq
    cases k with
    | zero =>
      obtain rfl := Option.some.inj hq
      apply hp
    | succ k =>
      rw [hsucc] at hq
      apply h k (Nat.lt_of_succ_lt_succ hk) q hq

theorem length_ancestor?_add_le {n : Nat} {p q : Path} (h : ancestor? n p = some q) :
  q.text.length + n ≤ p.text.length
  := by
  induction n generalizing q with
  | zero =>
    obtain rfl := Option.some.inj h
    apply Nat.le_refl
  | succ n ih =>
    obtain ⟨r, hr, hq⟩ := Option.bind_eq_some_iff.1 h
    have hlength := length_parent?_lt hq
    have hle := ih hr
    omega

/-- The way up from a path ends. -/
theorem ancestor?_eq_none (p : Path) : ancestor? (p.text.length + 1) p = none := by
  cases h : ancestor? (p.text.length + 1) p with
  | none => rfl
  | some q =>
    have hle := length_ancestor?_add_le h
    omega

end Localization.Path

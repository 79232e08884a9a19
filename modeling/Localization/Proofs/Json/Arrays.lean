import Localization.Proofs.Json.Objects

/-!
# Written arrays are read back

The items of a written array are read one after the other.  A `Reader` that undoes the writing
of each item reads exactly the items that were written, and nothing of the text after the
closing bracket (`array_prettyAt`).  The comma between two items is told apart from the bracket
after them because no document begins with a bracket that closes (`exists_prettyAt_eq_cons`).
-/

namespace Localization.Json

/-- A written document begins with a character that is neither a space nor a closing bracket. -/
theorem exists_prettyAt_eq_cons (depth : Nat) (v : Value) :
  ∃ c cs, v.prettyAt depth = c :: cs ∧ isSpace c = false ∧ c ≠ ']'
  := by
  cases v with
  | null => exact ⟨'n', _, by rw [Value.prettyAt], by decide, by decide⟩
  | string text => exact ⟨'"', _, by rw [Value.prettyAt]; rfl, by decide, by decide⟩
  | array items =>
    cases items with
    | nil => exact ⟨'[', _, by rw [Value.prettyAt], by decide, by decide⟩
    | cons v vs => exact ⟨'[', _, by rw [Value.prettyAt]; rfl, by decide, by decide⟩
  | object members =>
    cases members with
    | nil => exact ⟨'{', _, by rw [Value.prettyAt], by decide, by decide⟩
    | cons m ms => exact ⟨'{', _, by rw [Value.prettyAt]; rfl, by decide, by decide⟩

/-! ### Brackets and commas -/

variable {spaces : List Char} (hs : ∀ c ∈ spaces, isSpace c)

include hs

theorem nextItem_bracket (first : Bool) (rest : List Char) :
  nextItem first (spaces ++ ']' :: rest) = .ok none
  := by
  rw [nextItem, skipSpace_append hs, skipSpace_cons (by decide)]
  rfl

theorem endItems_bracket (rest : List Char) :
  endItems (spaces ++ ']' :: rest) = .ok rest
  := by
  rw [endItems, skipSpace_append hs, skipSpace_cons (by decide)]
  rfl

theorem nextItem_first (depth : Nat) (v : Value) (rest : List Char) :
  nextItem true (spaces ++ (v.prettyAt depth ++ rest)) = .ok (some (v.prettyAt depth ++ rest))
  := by
  obtain ⟨c, cs, hv, hc, hb⟩ := exists_prettyAt_eq_cons depth v
  rw [nextItem, skipSpace_append hs, hv, List.cons_append, skipSpace_cons hc]
  split
  · next h => cases h
  · next h => exact absurd (List.cons.inj h).1 hb
  · next h => rw [h]; rfl

theorem nextItem_comma (depth : Nat) (v : Value) (rest : List Char) :
  nextItem false (',' :: (spaces ++ (v.prettyAt depth ++ rest)))
    = .ok (some (v.prettyAt depth ++ rest))
  := by
  obtain ⟨c, cs, hv, hc, hb⟩ := exists_prettyAt_eq_cons depth v
  have hskip : skipSpace (spaces ++ (v.prettyAt depth ++ rest)) = c :: (cs ++ rest) := by
    rw [skipSpace_append hs, hv, List.cons_append, skipSpace_cons hc]
  rw [nextItem, skipSpace_cons (by decide)]
  split
  · next h => cases h
  · next h => exact absurd (List.cons.inj h).1 (by decide)
  · next h =>
    obtain ⟨rfl, rfl⟩ := List.cons.inj h
    rw [if_neg (by decide), if_pos rfl, hskip, hv]
    split
    · next h => cases h
    · next h => exact absurd (List.cons.inj h).1 hb
    · rfl

omit hs

/-! ### Items -/

variable {α : Type} {read : Reader α} (rest : List Char)

/-- No more items are left, and the bracket is closed. -/
theorem itemsFrom_bracket (hs : ∀ c ∈ spaces, isSpace c) (fuel : Nat) (first : Bool) :
  itemsFrom read (fuel + 1) first (spaces ++ ']' :: rest) = .ok ([], rest)
  := by
  rw [itemsFrom, item?, nextItem_bracket hs, Outcome.ok_bind]
  change (endItems (spaces ++ ']' :: rest) >>= fun rest => pure ([], rest)) = _
  rw [endItems_bracket hs]
  rfl

/-- An item is read where it has been found. -/
theorem itemsFrom_item {fuel : Nat} {first : Bool} {text text' rest : List Char} {a : α}
    (hn : nextItem first text = .ok (some text')) (hr : read text' = .ok (a, rest)) :
  itemsFrom read (fuel + 1) first text
    = (itemsFrom read fuel false rest).map fun p => (a :: p.1, p.2)
  := by
  rw [itemsFrom, item?, hn, Outcome.ok_bind]
  dsimp only
  rw [hr]
  change (itemsFrom read fuel false rest >>= fun p => pure (a :: p.1, p.2)) = _
  cases itemsFrom read fuel false rest <;> rfl

variable {depth : Nat} {item : α → Value}

theorem length_le_prettyItems (items : List Value) :
  items.length ≤ (Value.prettyItems depth items).length
  := by
  induction items with
  | nil => simp
  | cons v vs ih =>
    simp only [Value.prettyItems, List.length_cons, List.length_append]
    omega

variable (hread : ∀ a rest, read ((item a).prettyAt depth ++ rest) = .ok (a, rest))

include hread

theorem itemsFrom_prettyItems (as : List α) (hs : ∀ c ∈ spaces, isSpace c) {fuel : Nat}
    (hf : as.length < fuel) :
  itemsFrom read fuel false (Value.prettyItems depth (as.map item) ++ (spaces ++ ']' :: rest))
    = .ok (as, rest)
  := by
  induction as generalizing fuel with
  | nil =>
    obtain ⟨fuel, rfl⟩ := Nat.exists_eq_succ_of_ne_zero (Nat.ne_zero_of_lt hf)
    apply itemsFrom_bracket rest hs fuel false
  | cons a as ih =>
    obtain ⟨fuel, rfl⟩ := Nat.exists_eq_succ_of_ne_zero (Nat.ne_zero_of_lt hf)
    have hfuel : as.length < fuel := Nat.lt_of_succ_lt_succ hf
    have htext : Value.prettyItems depth ((a :: as).map item) ++ (spaces ++ ']' :: rest)
        = ',' :: (newline depth ++ ((item a).prettyAt depth
          ++ (Value.prettyItems depth (as.map item) ++ (spaces ++ ']' :: rest)))) := by
      simp [Value.prettyItems]
    rw [htext, itemsFrom_item (nextItem_comma isSpace_of_mem_newline _ _ _) (hread a _),
      ih hfuel]
    rfl

omit hread

/-- Reading a written array gives its items in order. -/
theorem array_prettyAt
    (hread : ∀ a rest, read ((item a).prettyAt (depth + 1) ++ rest) = .ok (a, rest))
    (as : List α) (rest : List Char) :
  array read (Value.prettyAt depth (.array (as.map item)) ++ rest) = .ok (as, rest)
  := by
  cases as with
  | nil =>
    rw [List.map_nil, Value.prettyAt, array]
    exact @itemsFrom_bracket [] α read rest (by simp) _ true
  | cons a as =>
    have htext : Value.prettyAt depth (.array ((a :: as).map item)) ++ rest
        = '[' :: (newline (depth + 1) ++ ((item a).prettyAt (depth + 1)
          ++ (Value.prettyItems (depth + 1) (as.map item) ++ (newline depth ++ ']' :: rest)))) := by
      simp [Value.prettyAt]
    have hlength := @length_le_prettyItems (depth + 1) (as.map item)
    rw [List.length_map] at hlength
    rw [htext, array, skipSpace_cons (by decide)]
    change itemsFrom read _ true _ = _
    rw [itemsFrom_item (nextItem_first isSpace_of_mem_newline _ _ _) (hread a _),
      itemsFrom_prettyItems rest hread as isSpace_of_mem_newline]
    · rfl
    · simp only [List.length_append, List.length_cons]
      omega

end Localization.Json

/-!
# Tables in order of insertion

A `Table` maps keys to values and remembers the order in which its keys were first inserted.
Inserting at a key that is present replaces the value and leaves the key where it stands
(`keys_insert`), so of several values for one key the last wins.
-/

namespace Localization

universe u v w

/-- A list of entries with distinct keys. -/
structure Table (κ : Type u) (α : Type v) where
  entries : List (κ × α)
  nodup : (entries.map Prod.fst).Nodup

namespace Table

variable {κ : Type u} {α : Type v} {β : Type w}

/-- The table without entries. -/
def empty : Table κ α where
  entries := []
  nodup := List.nodup_nil

instance : Inhabited (Table κ α) := ⟨empty⟩

instance [DecidableEq κ] [DecidableEq α] : DecidableEq (Table κ α) :=
  fun s t => decidable_of_iff (s.entries = t.entries) <| by
    cases s
    cases t
    simp

/-- The keys, in the order of their first insertion. -/
def keys (t : Table κ α) : List κ :=
  t.entries.map Prod.fst

/-- The value at a key. -/
def get? [DecidableEq κ] (t : Table κ α) (key : κ) : Option α :=
  t.entries.lookup key

/-- The entries after an insertion. -/
def insertEntry [DecidableEq κ] (key : κ) (value : α) : List (κ × α) → List (κ × α)
  | [] => [(key, value)]
  | e :: es => if e.1 = key then (key, value) :: es else e :: insertEntry key value es

theorem map_fst_insertEntry [DecidableEq κ] (key : κ) (value : α) (es : List (κ × α)) :
  (insertEntry key value es).map Prod.fst
    = if key ∈ es.map Prod.fst then es.map Prod.fst else es.map Prod.fst ++ [key]
  := by
  induction es with
  | nil => rfl
  | cons e es ih =>
    by_cases h : e.1 = key
    · simp [insertEntry, h]
    · have h' : key ≠ e.1 := fun k => h k.symm
      by_cases hk : key ∈ es.map Prod.fst
      · simp only [insertEntry, if_neg h, List.map_cons, ih, List.mem_cons, hk, or_true,
          if_true]
      · simp only [insertEntry, if_neg h, List.map_cons, ih, List.mem_cons, h', hk,
          or_self, if_false, List.cons_append]

/-- The table with the value at the key: in the key's old place if it has one, else at the
end. -/
def insert [DecidableEq κ] (t : Table κ α) (key : κ) (value : α) : Table κ α where
  entries := insertEntry key value t.entries
  nodup := by
    rw [map_fst_insertEntry]
    split
    · exact t.nodup
    · next h =>
      refine List.nodup_append.2 ⟨t.nodup, by simp, ?_⟩
      intro a ha b hb
      obtain rfl := List.mem_singleton.1 hb
      exact fun e => h (e ▸ ha)

theorem keys_insert [DecidableEq κ] (t : Table κ α) (key : κ) (value : α) :
  (t.insert key value).keys = if key ∈ t.keys then t.keys else t.keys ++ [key]
  := map_fst_insertEntry key value t.entries

theorem mem_keys_insert [DecidableEq κ] (t : Table κ α) (key : κ) (value : α) (k : κ) :
  k ∈ (t.insert key value).keys ↔ k = key ∨ k ∈ t.keys
  := by
  rw [keys_insert]
  split
  · next h =>
    constructor
    · exact Or.inr
    · rintro (rfl | hk)
      · exact h
      · exact hk
  · rw [List.mem_append, List.mem_singleton]
    exact or_comm

theorem lookup_cons_eq [DecidableEq κ] (k : κ) (e : κ × α) (es : List (κ × α)) :
  (e :: es).lookup k = if k = e.1 then some e.2 else es.lookup k
  := by
  obtain ⟨key, value⟩ := e
  by_cases h : k = key
  · simp [h]
  · have hb : (k == key) = false := beq_false_of_ne h
    simp [List.lookup_cons, hb, h]

theorem lookup_insertEntry [DecidableEq κ] (key k : κ) (value : α) (es : List (κ × α)) :
  (insertEntry key value es).lookup k = if k = key then some value else es.lookup k
  := by
  induction es with
  | nil => simp [insertEntry, lookup_cons_eq]
  | cons e es ih =>
    by_cases he : e.1 = key
    · by_cases h : k = key
      · simp [insertEntry, he, h, lookup_cons_eq]
      · simp [insertEntry, he, h, lookup_cons_eq]
    · by_cases h : k = e.1
      · have hk : ¬ k = key := fun hk => he (h.symm.trans hk)
        simp [insertEntry, he, h, lookup_cons_eq]
      · simp [insertEntry, he, h, lookup_cons_eq, ih]

/-- The inserted value is found at its key, and other keys keep their values. -/
theorem get?_insert [DecidableEq κ] (t : Table κ α) (key k : κ) (value : α) :
  (t.insert key value).get? k = if k = key then some value else t.get? k
  := lookup_insertEntry key k value t.entries

theorem isSome_get?_iff [DecidableEq κ] (t : Table κ α) (key : κ) :
  (t.get? key).isSome ↔ key ∈ t.keys
  := by
  unfold get? keys
  induction t.entries with
  | nil => simp
  | cons e es ih =>
    rw [lookup_cons_eq, List.map_cons, List.mem_cons, ← ih]
    by_cases h : key = e.1
    · simp [h]
    · simp [h]

/-- The table of a list of entries, inserted from left to right. -/
def ofList [DecidableEq κ] (entries : List (κ × α)) : Table κ α :=
  entries.foldl (fun t e => t.insert e.1 e.2) empty

/-- The entries whose keys satisfy `p`. -/
def filterKeys (p : κ → Bool) (t : Table κ α) : Table κ α where
  entries := t.entries.filter (p ·.1)
  nodup := (List.filter_sublist.map Prod.fst).nodup t.nodup

theorem lookup_filter_fst [DecidableEq κ] (p : κ → Bool) (es : List (κ × α)) (key : κ) :
  (es.filter (p ·.1)).lookup key = if p key then es.lookup key else none
  := by
  induction es with
  | nil => simp
  | cons e es ih =>
    by_cases h : key = e.1
    · by_cases hp : p key
      · rw [h] at hp
        simp [hp, h, lookup_cons_eq]
      · rw [h] at hp ih
        simp [hp, h, ih]
    · by_cases hp : p e.1
      · simp [hp, h, lookup_cons_eq, ih]
      · simp [hp, h, lookup_cons_eq, ih]

theorem get?_filterKeys [DecidableEq κ] (p : κ → Bool) (t : Table κ α) (key : κ) :
  (t.filterKeys p).get? key = if p key then t.get? key else none
  := lookup_filter_fst p t.entries key

theorem mem_keys_filterKeys (p : κ → Bool) (t : Table κ α) (key : κ) :
  key ∈ (t.filterKeys p).keys ↔ key ∈ t.keys ∧ p key
  := by
  simp only [keys, filterKeys, List.mem_map, List.mem_filter]
  constructor
  · rintro ⟨e, ⟨he, hp⟩, rfl⟩
    exact ⟨⟨e, he, rfl⟩, hp⟩
  · rintro ⟨⟨e, he, rfl⟩, hp⟩
    exact ⟨e, ⟨he, hp⟩, rfl⟩

theorem map_fst_filterMap_sublist (f : α → Option β) (es : List (κ × α)) :
  ((es.filterMap fun e => (f e.2).map (e.1, ·)).map Prod.fst).Sublist (es.map Prod.fst)
  := by
  induction es with
  | nil => exact List.Sublist.refl []
  | cons e es ih =>
    cases h : f e.2 with
    | none => simpa [h] using ih.cons e.1
    | some b => simpa [h] using ih.cons_cons e.1

/-- The table of the values that `f` keeps, at their keys and in their order. -/
def filterMapValues (f : α → Option β) (t : Table κ α) : Table κ β where
  entries := t.entries.filterMap fun e => (f e.2).map (e.1, ·)
  nodup := (map_fst_filterMap_sublist f t.entries).nodup t.nodup

end Table
end Localization

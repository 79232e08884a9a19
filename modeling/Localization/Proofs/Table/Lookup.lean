import Localization.Table
import Mathlib.Data.List.Induction
import Mathlib.Data.List.Perm.Basic

/-!
# Looking up keys

In a list of entries with distinct keys an entry is a member exactly when its value is found at
its key (`lookup_eq_some_iff_mem`), and so the order of the entries does not matter for what is
found (`lookup_eq_of_perm`).  A table made from a list of entries holds the last value of each
key (`get?_ofList`), and its keys stand in the order in which they come first in the list
(`pairwise_keys_ofList`).
-/

namespace Localization.Table

universe u v w

variable {κ : Type u} {α : Type v} {β : Type w}

theorem lookup_eq_some_iff_mem [BEq κ] [LawfulBEq κ] {es : List (κ × α)}
    (h : (es.map Prod.fst).Nodup) {key : κ} {value : α} :
  es.lookup key = some value ↔ (key, value) ∈ es
  := by
  constructor
  · intro hl
    obtain ⟨before, after, rfl, -⟩ := List.lookup_eq_some_iff.1 hl
    simp
  · intro hm
    obtain ⟨before, after, rfl⟩ := List.append_of_mem hm
    apply List.lookup_eq_some_iff.2
    use before, after, rfl
    intro e he
    rw [List.map_append, List.map_cons] at h
    have hne := (List.nodup_append.1 h).2.2 e.1 (List.mem_map_of_mem he) key (by simp)
    simpa using hne.symm

theorem lookup_eq_of_perm [BEq κ] [LawfulBEq κ] {es fs : List (κ × α)} (hp : es.Perm fs)
    (h : (fs.map Prod.fst).Nodup) (key : κ) :
  es.lookup key = fs.lookup key
  := by
  apply Option.ext
  intro value
  rw [lookup_eq_some_iff_mem h, lookup_eq_some_iff_mem ((hp.map _).nodup_iff.2 h), hp.mem_iff]

/-! ### Tables of entries -/

variable [DecidableEq κ]

theorem get?_eq_some_iff_mem (t : Table κ α) (key : κ) (value : α) :
  t.get? key = some value ↔ (key, value) ∈ t.entries
  := lookup_eq_some_iff_mem t.nodup

theorem get?_foldl_insert (es : List (κ × α)) (t : Table κ α) (key : κ) :
  (es.foldl (fun t e => t.insert e.1 e.2) t).get? key
    = (es.reverse.lookup key).or (t.get? key)
  := by
  induction es generalizing t with
  | nil => rfl
  | cons e es ih =>
    rw [List.foldl_cons, ih, get?_insert, List.reverse_cons, List.lookup_append, Option.or_assoc]
    congr 1
    rw [lookup_cons_eq]
    split
    · rfl
    · rfl

/-- Of several values for one key the last is found. -/
theorem get?_ofList (es : List (κ × α)) (key : κ) :
  (ofList es).get? key = es.reverse.lookup key
  := by
  rw [ofList, get?_foldl_insert]
  apply Option.or_none

/-- Inserting the entries of a table into an empty one changes no value. -/
theorem get?_ofList_entries (t : Table κ α) (key : κ) :
  (ofList t.entries).get? key = t.get? key
  := by
  rw [get?_ofList]
  apply lookup_eq_of_perm (List.reverse_perm t.entries) t.nodup key

theorem get?_filterMapValues (f : α → Option β) (t : Table κ α) (key : κ) :
  (t.filterMapValues f).get? key = (t.get? key).bind f
  := by
  apply Option.ext
  intro value
  rw [get?_eq_some_iff_mem, Option.bind_eq_some_iff]
  simp only [get?_eq_some_iff_mem, filterMapValues, List.mem_filterMap, Option.map_eq_some_iff,
    Prod.mk.injEq]
  constructor
  · rintro ⟨⟨key, a⟩, he, b, hb, rfl, rfl⟩
    exact ⟨a, he, hb⟩
  · rintro ⟨a, he, hb⟩
    exact ⟨(key, a), he, value, hb, rfl, rfl⟩

/-- Looking up a key among keyed values finds the first value with that key. -/
theorem lookup_map (f : β → κ) (g : β → α) (bs : List β) (key : κ) :
  (bs.map fun b => (f b, g b)).lookup key = (bs.find? (f · = key)).map g
  := by
  induction bs with
  | nil => rfl
  | cons b bs ih =>
    rw [List.map_cons, lookup_cons_eq, ih]
    by_cases h : f b = key
    · simp [h]
    · have h' : ¬ key = f b := fun e => h e.symm
      simp [h, h']

/-! ### The order of the keys -/

theorem ofList_concat (es : List (κ × α)) (e : κ × α) :
  ofList (es ++ [e]) = (ofList es).insert e.1 e.2
  := by
  rw [ofList, List.foldl_append]
  rfl

theorem mem_keys_ofList (es : List (κ × α)) (key : κ) :
  key ∈ (ofList es).keys ↔ key ∈ es.map Prod.fst
  := by
  induction es using List.reverseRecOn with
  | nil => rfl
  | append_singleton es e ih =>
    rw [ofList_concat, mem_keys_insert, ih, List.map_append, List.mem_append, List.map_singleton,
      List.mem_singleton, or_comm]

/-- Of two keys that one stands first which comes first in the list of entries. -/
theorem pairwise_keys_ofList (es : List (κ × α)) :
  (ofList es).keys.Pairwise fun j k => (es.map Prod.fst).idxOf j < (es.map Prod.fst).idxOf k
  := by
  induction es using List.reverseRecOn with
  | nil => apply List.Pairwise.nil
  | append_singleton es e ih =>
    have hidx : ∀ k ∈ (ofList es).keys,
        ((es ++ [e]).map Prod.fst).idxOf k = (es.map Prod.fst).idxOf k := by
      intro k hk
      rw [List.map_append, List.idxOf_append_of_mem ((mem_keys_ofList es k).1 hk)]
    have hpair : (ofList es).keys.Pairwise fun j k =>
        ((es ++ [e]).map Prod.fst).idxOf j < ((es ++ [e]).map Prod.fst).idxOf k := by
      apply ih.imp_of_mem
      intro j k hj hk h
      rw [hidx j hj, hidx k hk]
      apply h
    rw [ofList_concat, keys_insert]
    split
    · apply hpair
    · next he =>
      apply List.pairwise_append.2
      use hpair, List.pairwise_singleton _ _
      intro j hj k hk
      obtain rfl := List.mem_singleton.1 hk
      rw [mem_keys_ofList] at he
      rw [hidx j hj, List.map_append, List.idxOf_append_of_notMem he]
      apply Nat.lt_add_right
      apply List.idxOf_lt_length_iff.2 ((mem_keys_ofList es j).1 hj)

end Localization.Table

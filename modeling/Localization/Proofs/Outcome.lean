import Mathlib.Data.List.Forall2

/-!
# Steps that can fail

Equations for the outcome of a chain of steps, and for the outcome of a step that is done for
each item of a list: it is `ok` exactly when each step is (`mapM_eq_ok_iff`), and a failure of
the list is the failure of the first of its items that fails (`mapM_eq_error_iff`).
-/

namespace Localization.Outcome

universe u v

variable {ε : Type u} {α β : Type v}

theorem ok_bind (a : α) (f : α → Except ε β) :
  (Except.ok a >>= f) = f a
  := rfl

theorem error_bind (e : ε) (f : α → Except ε β) :
  (Except.error e >>= f) = .error e
  := rfl

/-- A step has only one result. -/
theorem eq_of_eq_ok {x : Except ε α} {a b : α} (ha : x = .ok a) (hb : x = .ok b) : a = b := by
  rw [ha] at hb
  exact Except.ok.inj hb

/-- A step that gives a result does not fail. -/
theorem ne_error_of_eq_ok {x : Except ε α} {a : α} {e : ε} (ha : x = .ok a) : x ≠ .error e := by
  rw [ha]
  exact nofun

theorem bind_eq_ok_iff {x : Except ε α} {f : α → Except ε β} {b : β} :
  (x >>= f) = .ok b ↔ ∃ a, x = .ok a ∧ f a = .ok b
  := by
  cases x with
  | error e => simp [error_bind]
  | ok a => simp [ok_bind]

theorem bind_eq_error_iff {x : Except ε α} {f : α → Except ε β} {e : ε} :
  (x >>= f) = .error e ↔ x = .error e ∨ ∃ a, x = .ok a ∧ f a = .error e
  := by
  cases x with
  | error e' => simp [error_bind]
  | ok a => simp [ok_bind]

/-- When what comes after a step cannot fail, the failure is that of the step. -/
theorem bind_pure_eq_error_iff {x : Except ε α} {g : α → β} {e : ε} :
  (x >>= fun a => pure (g a)) = .error e ↔ x = .error e
  := by
  cases x with
  | error e' => simp
  | ok a => exact ⟨nofun, nofun⟩

variable {f : α → Except ε β}

theorem mapM_eq_ok_iff {as : List α} {bs : List β} :
  as.mapM f = .ok bs ↔ List.Forall₂ (fun a b => f a = .ok b) as bs
  := by
  induction as generalizing bs with
  | nil =>
    rw [List.mapM_nil, List.forall₂_nil_left_iff]
    exact ⟨fun h => (Except.ok.inj h).symm, fun h => congrArg _ h.symm⟩
  | cons a as ih =>
    rw [List.mapM_cons, bind_eq_ok_iff, List.forall₂_cons_left_iff]
    constructor
    · rintro ⟨b, hb, h⟩
      obtain ⟨bs', hbs, h⟩ := bind_eq_ok_iff.1 h
      exact ⟨b, bs', hb, ih.1 hbs, (Except.ok.inj h).symm⟩
    · rintro ⟨b, bs', hb, hbs, rfl⟩
      use b, hb
      rw [ih.2 hbs]
      rfl

theorem exists_append_of_mapM_eq_error {as : List α} {e : ε} (h : as.mapM f = .error e) :
  ∃ before a after, as = before ++ a :: after ∧ (∀ b ∈ before, ∃ c, f b = .ok c)
    ∧ f a = .error e
  := by
  induction as with
  | nil => cases h
  | cons a as ih =>
    rw [List.mapM_cons] at h
    cases ha : f a with
    | error e' =>
      rw [ha, error_bind] at h
      obtain rfl := Except.error.inj h
      exact ⟨[], a, as, rfl, List.forall_mem_nil _, ha⟩
    | ok b =>
      rw [ha, ok_bind] at h
      cases has : as.mapM f with
      | error e' =>
        rw [has, error_bind] at h
        obtain rfl := Except.error.inj h
        obtain ⟨before, x, after, rfl, hb, hx⟩ := ih has
        exact ⟨a :: before, x, after, rfl, List.forall_mem_cons.2 ⟨⟨b, ha⟩, hb⟩, hx⟩
      | ok bs =>
        rw [has, ok_bind] at h
        cases h

theorem exists_of_mapM_eq_error {as : List α} {e : ε} (h : as.mapM f = .error e) :
  ∃ a ∈ as, f a = .error e
  := by
  obtain ⟨before, a, after, rfl, -, ha⟩ := exists_append_of_mapM_eq_error h
  exact ⟨a, List.mem_append_right before List.mem_cons_self, ha⟩

/-- When the step can be done for each item, it can be done for all of them. -/
theorem exists_mapM_eq_ok {as : List α} (h : ∀ a ∈ as, ∃ b, f a = .ok b) :
  ∃ bs, as.mapM f = .ok bs
  := by
  cases has : as.mapM f with
  | ok bs => exact ⟨bs, rfl⟩
  | error e =>
    obtain ⟨a, ha, hfa⟩ := exists_of_mapM_eq_error has
    obtain ⟨b, hb⟩ := h a ha
    rw [hb] at hfa
    cases hfa

/-- A list of steps fails with the first step that fails. -/
theorem mapM_eq_error_iff {as : List α} {e : ε} :
  as.mapM f = .error e
    ↔ ∃ before a after, as = before ++ a :: after ∧ (∀ b ∈ before, ∃ c, f b = .ok c)
      ∧ f a = .error e
  := by
  constructor
  · apply exists_append_of_mapM_eq_error
  · rintro ⟨before, a, after, rfl, hb, ha⟩
    obtain ⟨bs, hbs⟩ := exists_mapM_eq_ok hb
    rw [List.mapM_append, hbs, ok_bind, List.mapM_cons, ha]
    rfl

theorem mem_iff_of_mapM_eq_ok {as : List α} {bs : List β} (h : as.mapM f = .ok bs) (b : β) :
  b ∈ bs ↔ ∃ a ∈ as, f a = .ok b
  := by
  have hall := mapM_eq_ok_iff.1 h
  clear h
  induction hall with
  | nil => simp
  | cons hab _ ih =>
    rw [List.mem_cons, List.exists_mem_cons_iff, hab, Except.ok.injEq]
    apply or_congr eq_comm ih

theorem exists_eq_ok_of_mapM_eq_ok {as : List α} {bs : List β} (h : as.mapM f = .ok bs) {a : α}
    (ha : a ∈ as) :
  ∃ b, f a = .ok b
  := by
  have hall := mapM_eq_ok_iff.1 h
  clear h
  induction hall with
  | nil => cases ha
  | @cons _ b _ _ hab _ ih =>
    obtain rfl | ha := List.mem_cons.1 ha
    · exact ⟨b, hab⟩
    · exact ih ha

universe w

theorem mapError_eq_ok_iff {δ : Type w} {x : Except ε α} {g : ε → δ} {a : α} :
  x.mapError g = .ok a ↔ x = .ok a
  := by
  cases x with
  | error e => simp [Except.mapError]
  | ok b => simp [Except.mapError]

theorem map_eq_ok_iff {x : Except ε α} {g : α → β} {b : β} :
  x.map g = .ok b ↔ ∃ a, x = .ok a ∧ g a = b
  := by
  cases x with
  | error e => simp [Except.map]
  | ok a => simp [Except.map]

theorem mapError_eq_error_iff {δ : Type w} {x : Except ε α} {g : ε → δ} {d : δ} :
  x.mapError g = .error d ↔ ∃ e, x = .error e ∧ g e = d
  := by
  cases x with
  | error e => simp [Except.mapError]
  | ok a => simp [Except.mapError]

theorem toOption_eq_some_iff {x : Except ε α} {a : α} :
  x.toOption = some a ↔ x = .ok a
  := by
  cases x with
  | error e => simp [Except.toOption]
  | ok b => simp [Except.toOption]

theorem toOption_map (f : α → β) (x : Except ε α) :
  (x.map f).toOption = x.toOption.map f
  := by
  cases x <;> rfl

theorem toOption_bind (x : Except ε α) (f : α → Except ε β) :
  (x >>= f).toOption = x.toOption.bind fun a => (f a).toOption
  := by
  cases x <;> rfl

end Localization.Outcome

import Localization.Arguments
import Localization.Proofs.Outcome

/-!
# Reading switches with attached values

A long switch with its value attached, `--name=value`, is accepted as soon as it is read, when
nothing is pending (`Grammar.step_attached`).  A switch that is given several times in this way
is accepted once for each value, in the order of the values (`Grammar.foldlM_attached`), and so it
can collect them (`Grammar.foldlM_accept`).
-/

namespace Localization.Arguments

namespace Grammar

variable {ι δ : Type} {g : Grammar ι δ} {i : ι} {s : State ι δ}

/-- A long switch with its value attached. -/
def attached (name value : String) : String :=
  "--" ++ name ++ "=" ++ value

theorem toList_attached (name value : String) :
  (attached name value).toList = '-' :: '-' :: (name.toList ++ '=' :: value.toList)
  := by
  simp [attached]

theorem step_long {argument : String} {text : List Char} (hs : s.ended = false)
    (ht : text ≠ []) (ha : argument.toList = '-' :: '-' :: text) :
  g.step s argument = g.readLong text s
  := by
  obtain ⟨c, cs, rfl⟩ := List.exists_cons_of_ne_nil ht
  rw [step, hs, if_neg Bool.false_ne_true, ha]
  rfl

theorem bne_of_mem {name : List Char} (hn : '=' ∉ name) :
  ∀ c ∈ name, (c != '=') = true
  := by
  intro c hc
  simp only [bne_iff_ne]
  rintro rfl
  exact hn hc

/-- The name of a long switch ends at the first `=`. -/
theorem readLong_append {name : List Char} (hn : '=' ∉ name) (hi : g.long? (.ofList name) = some i)
    (value : List Char) :
  g.readLong (name ++ '=' :: value) s = g.readSwitch i (some (.ofList value)) s
  := by
  have hall := bne_of_mem hn
  rw [readLong, List.takeWhile_append_of_pos hall, List.dropWhile_append_of_pos hall]
  simp [hi]

/-- A value that is attached to its switch counts at once. -/
theorem step_attached {name : String} (hs : s.ended = false) (hp : s.pending = none)
    (hn : '=' ∉ name.toList) (hi : g.long? name = some i) (hv : g.takesValue i) (value : String) :
  g.step s (attached name value)
    = (g.accept i value s.draft).map fun d => { s with draft := d }
  := by
  have hsettle : g.settle s = .ok s := by
    rw [settle, hp]
  rw [step_long hs (by simp) (toList_attached name value), readLong_append hn (by simpa using hi),
    readSwitch, if_pos hv, hsettle, Outcome.ok_bind, String.ofList_toList]
  cases g.accept i value s.draft with
  | error fault => rfl
  | ok d => rfl

/-- A switch that is given several times is accepted once for each of its values. -/
theorem foldlM_attached {name : String} (hs : s.ended = false) (hp : s.pending = none)
    (hn : '=' ∉ name.toList) (hi : g.long? name = some i) (hv : g.takesValue i)
    (values : List String) :
  (values.map (attached name)).foldlM g.step s
    = (values.foldlM (fun d value => g.accept i value d) s.draft).map
      fun d => { s with draft := d }
  := by
  induction values generalizing s with
  | nil => rfl
  | cons value values ih =>
    rw [List.map_cons, List.foldlM_cons, List.foldlM_cons, step_attached hs hp hn hi hv]
    cases g.accept i value s.draft with
    | error fault => rfl
    | ok d =>
      exact @ih { s with draft := d } hs hp

/-- A switch that puts what it reads into a list keeps the order of its values. -/
theorem foldlM_accept {α : Type} {read : String → Except Fault α} (put : δ → List α → δ)
    (hnil : ∀ d, put d [] = d) (hcons : ∀ d a as, put (put d [a]) as = put d (a :: as))
    (haccept : ∀ value d, g.accept i value d = do return put d [← read value])
    {values : List String} {as : List α} (h : values.mapM read = .ok as) (d : δ) :
  values.foldlM (fun d value => g.accept i value d) d = .ok (put d as)
  := by
  have hall := Outcome.mapM_eq_ok_iff.1 h
  clear h
  induction hall generalizing d with
  | nil => exact congrArg _ (hnil d).symm
  | cons ha _ ih =>
    rw [List.foldlM_cons, haccept, ha, ← hcons]
    apply ih

end Grammar
end Localization.Arguments

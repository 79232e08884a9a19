import Localization.Proofs.Arguments.Reading
import Mathlib.Data.List.TakeWhile

/-!
# Arguments as they are spelled

`Names` says how the switches of a command are called, and `Names.Spells` in which ways the
arguments can be written that give a switch a value.  `Names.Gives` is about a whole row of
arguments: switches and operands in some order, each spelled in one of its ways.  A reader that
knows the names accepts each of them with its value, in the same order, however they are spelled
(`Grammar.read_of_gives`).
-/

namespace Localization.Arguments

/-- The text can be an argument of its own that is not taken for a switch: it does not begin with
`-`, or it is nothing else. -/
def IsPlain (text : String) : Prop :=
  text.toList.head? ≠ some '-' ∨ text = "-"

instance (text : String) : Decidable (IsPlain text) :=
  inferInstanceAs (Decidable (_ ∨ _))

/-- How the switches of a command are called, which of them take a value, and what its operands
mean, in order. -/
structure Names (ι : Type) where
  long? : ι → Option String
  short? : ι → Option Char
  takesValue : ι → Bool
  operands : List ι

namespace Names

variable {ι : Type}

/-- The arguments that give a switch this value.  A switch that takes none is given with the
empty text. -/
inductive Spells (names : Names ι) (i : ι) : (value : String) → List String → Prop where
  | longAttached {name value : String} (hv : names.takesValue i = true)
      (hn : names.long? i = some name) : Spells names i value ["--" ++ name ++ "=" ++ value]
  | longSeparate {name value : String} (hv : names.takesValue i = true)
      (hn : names.long? i = some name) (hp : IsPlain value) :
      Spells names i value ["--" ++ name, value]
  | shortAttached {c : Char} {value : String} (hv : names.takesValue i = true)
      (hc : names.short? i = some c) (hne : value ≠ "") (he : value.toList.head? ≠ some '=') :
      Spells names i value ["-" ++ .singleton c ++ value]
  | shortEquals {c : Char} {value : String} (hv : names.takesValue i = true)
      (hc : names.short? i = some c) (hne : value ≠ "") :
      Spells names i value ["-" ++ .singleton c ++ "=" ++ value]
  | shortSeparate {c : Char} {value : String} (hv : names.takesValue i = true)
      (hc : names.short? i = some c) (hp : IsPlain value) :
      Spells names i value ["-" ++ .singleton c, value]
  | longAlone {name : String} (hv : names.takesValue i = false) (hn : names.long? i = some name) :
      Spells names i "" ["--" ++ name]
  | shortAlone {c : Char} (hv : names.takesValue i = false) (hc : names.short? i = some c) :
      Spells names i "" ["-" ++ .singleton c]

/-- The arguments give these switches and operands their values, in this order, and so many
operands come before them. -/
inductive Gives (names : Names ι) :
    (operands : Nat) → List (ι × String) → List String → Prop where
  | nil {n : Nat} : Gives names n [] []
  | switch {n : Nat} {i : ι} {value : String} {givens : List (ι × String)}
      {arguments rest : List String} (h : names.Spells i value arguments)
      (hr : Gives names n givens rest) : Gives names n ((i, value) :: givens) (arguments ++ rest)
  | operand {n : Nat} {i : ι} {value : String} {givens : List (ι × String)} {rest : List String}
      (hi : names.operands[n]? = some i) (hp : IsPlain value)
      (hr : Gives names (n + 1) givens rest) : Gives names n ((i, value) :: givens) (value :: rest)

end Names

/-- The values with which a switch or an operand is given, in order. -/
def valuesOf {ι : Type} [DecidableEq ι] (i : ι) (givens : List (ι × String)) : List String :=
  (givens.filter (·.1 = i)).map Prod.snd

namespace Grammar

variable {ι δ : Type} {g : Grammar ι δ} {i : ι} {s : State ι δ} {n : Nat} {d d' : δ}
  {value : String}

/-- The reader calls its switches and operands by these names. -/
structure Knows (g : Grammar ι δ) (names : Names ι) : Prop where
  long : ∀ i name, names.long? i = some name →
    name ≠ "" ∧ '=' ∉ name.toList ∧ g.long? name = some i
  short : ∀ i c, names.short? i = some c → c ≠ '-' ∧ g.short? c = some i
  takesValue : ∀ i, g.takesValue i = names.takesValue i
  operand : ∀ n i, names.operands[n]? = some i → g.operand? n = some i

/-- What has been read comes to this command when what is pending counts, and so many operands
have been read. -/
structure Comes (g : Grammar ι δ) (s : State ι δ) (n : Nat) (d : δ) : Prop where
  settle_eq : g.settle s = .ok { s with draft := d, pending := none }
  ended : s.ended = false
  operands : s.operands = n

theorem Comes.of_pending_eq_none (hp : s.pending = none) (he : s.ended = false) :
  g.Comes s s.operands s.draft
  where
  settle_eq := by
    rw [settle, hp]
    obtain ⟨draft, pending, operands, ended⟩ := s
    cases hp
    rfl
  ended := he
  operands := rfl

/-! ### Single arguments -/

theorem step_plain (hs : s.ended = false) (hp : IsPlain value) :
  g.step s value = g.readPlain value s
  := by
  rw [step, hs, if_neg Bool.false_ne_true]
  obtain hp | rfl := hp
  · split
    · next h => simp [h] at hp
    · next h => simp [h] at hp
    · next h => simp [h] at hp
    · rfl
  · rfl

theorem step_short {argument : String} {c : Char} {cs : List Char} (hs : s.ended = false)
    (hc : c ≠ '-') (ha : argument.toList = '-' :: c :: cs) :
  g.step s argument = g.readCluster (c :: cs) s
  := by
  rw [step, hs, if_neg Bool.false_ne_true, ha]
  split
  · next h => simp [hc] at h
  · next h => simp [hc] at h
  · next h =>
    obtain ⟨rfl, rfl⟩ : c = _ ∧ cs = _ := by simpa using h
    rfl
  · next h => exact absurd rfl (h c cs)

/-- A long switch without `=` has no value attached. -/
theorem readLong_of_not_mem {name : List Char} (hn : '=' ∉ name)
    (hi : g.long? (.ofList name) = some i) :
  g.readLong name s = g.readSwitch i none s
  := by
  have hall := bne_of_mem hn
  rw [readLong, List.takeWhile_eq_self_iff.2 hall, List.dropWhile_eq_nil_iff.2 hall, hi]

theorem attachedValue?_of_ne (hne : value ≠ "") (he : value.toList.head? ≠ some '=') :
  attachedValue? value.toList = some value
  := by
  have hlist : value.toList ≠ [] := by simpa using hne
  rw [attachedValue?.eq_def]
  split
  · next h => exact absurd h hlist
  · next h => simp [h] at he
  · rw [String.ofList_toList]

/-! ### Arguments that begin with a switch -/

section Switch

variable {names : Names ι} (hg : g.Knows names) (hs : s.ended = false)

include hg hs

theorem Knows.step_long_name {name : String} (hn : names.long? i = some name) :
  g.step s ("--" ++ name) = g.readSwitch i none s
  := by
  obtain ⟨hne, heq, hi⟩ := hg.long i name hn
  have htext : ("--" ++ name).toList = '-' :: '-' :: name.toList := by simp
  rw [step_long hs (by simpa using hne) htext, readLong_of_not_mem heq (by simpa using hi)]

theorem Knows.step_long_attached {name : String} (hn : names.long? i = some name)
    (value : String) :
  g.step s ("--" ++ name ++ "=" ++ value) = g.readSwitch i (some value) s
  := by
  obtain ⟨-, heq, hi⟩ := hg.long i name hn
  change g.step s (attached name value) = _
  rw [step_long hs (by simp) (toList_attached name value),
    readLong_append heq (by simpa using hi), String.ofList_toList]

theorem Knows.step_short_name {c : Char} (hc : names.short? i = some c) :
  g.step s ("-" ++ .singleton c) = g.readSwitch i none s
  := by
  obtain ⟨hne, hi⟩ := hg.short i c hc
  have htext : ("-" ++ String.singleton c).toList = '-' :: [c] := by simp
  rw [step_short hs hne htext, readCluster, hi]
  dsimp only
  split
  · rfl
  · cases g.readSwitch i none s <;> rfl

theorem Knows.step_short_value {c : Char} (hc : names.short? i = some c)
    (hv : names.takesValue i = true) (text : String) :
  g.step s ("-" ++ .singleton c ++ text) = g.readSwitch i (attachedValue? text.toList) s
  := by
  obtain ⟨hne, hi⟩ := hg.short i c hc
  have htext : ("-" ++ String.singleton c ++ text).toList = '-' :: c :: text.toList := by simp
  rw [step_short hs hne htext, readCluster, hi]
  apply if_pos ((hg.takesValue i).trans hv)

end Switch

/-! ### Switches and operands -/

/-- A switch with its value attached counts at once. -/
theorem Comes.foldlM_attached {argument : String} (hs : g.Comes s n d) (hv : g.takesValue i)
    (ha : g.accept i value d = .ok d')
    (h : g.step s argument = g.readSwitch i (some value) s) :
  ∃ s', [argument].foldlM g.step s = .ok s' ∧ g.Comes s' n d'
  := by
  refine ⟨{ s with draft := d', pending := none }, ?_, ⟨rfl, hs.ended, hs.operands⟩⟩
  rw [List.foldlM_cons, h, readSwitch, if_pos hv, hs.settle_eq, Outcome.ok_bind]
  dsimp only
  rw [ha]
  rfl

/-- A switch and its value in the next argument count when something comes after them. -/
theorem Comes.foldlM_separate {argument : String} (hs : g.Comes s n d) (hv : g.takesValue i)
    (ha : g.accept i value d = .ok d') (hp : IsPlain value)
    (h : g.step s argument = g.readSwitch i none s) :
  ∃ s', [argument, value].foldlM g.step s = .ok s' ∧ g.Comes s' n d'
  := by
  let s₁ : State ι δ := { s with draft := d, pending := some (i, none) }
  have hfirst : g.step s argument = .ok s₁ := by
    rw [h, readSwitch, if_pos hv, hs.settle_eq]
    rfl
  have hended : s₁.ended = false := hs.ended
  have hsecond : g.step s₁ value = .ok { s₁ with pending := some (i, some value) } :=
    step_plain hended hp
  refine ⟨{ s₁ with pending := some (i, some value) }, ?_, ⟨?_, hended, hs.operands⟩⟩
  · rw [List.foldlM_cons, hfirst, Outcome.ok_bind, List.foldlM_cons, hsecond]
    rfl
  · change (g.accept i value d >>= fun d => pure { s₁ with draft := d, pending := none }) = _
    rw [ha]
    rfl

/-- A switch that takes no value counts at once. -/
theorem Comes.foldlM_alone {argument : String} (hs : g.Comes s n d) (hv : g.takesValue i = false)
    (ha : g.accept i "" d = .ok d') (h : g.step s argument = g.readSwitch i none s) :
  ∃ s', [argument].foldlM g.step s = .ok s' ∧ g.Comes s' n d'
  := by
  refine ⟨{ s with draft := d', pending := none }, ?_, ⟨rfl, hs.ended, hs.operands⟩⟩
  rw [List.foldlM_cons, h, readSwitch, if_neg (by simp [hv]), hs.settle_eq]
  change ((g.accept i "" d >>= fun d => pure { s with draft := d, pending := none })
    >>= fun s => [].foldlM g.step s) = _
  rw [ha]
  rfl

/-- An operand counts when something comes after it. -/
theorem Comes.step_operand (hs : g.Comes s n d) (hi : g.operand? n = some i) (hp : IsPlain value)
    (ha : g.accept i value d = .ok d') :
  ∃ s', g.step s value = .ok s' ∧ g.Comes s' (n + 1) d'
  := by
  have hplain : g.readPlain value s = g.readOperand value s := by
    rw [readPlain]
    split
    · next h =>
      have hsettle := hs.settle_eq
      rw [settle, h] at hsettle
      cases hsettle
    · rfl
  let s' : State ι δ := { s with
    draft := d
    pending := some (i, some value)
    operands := s.operands + 1 }
  refine ⟨s', ?_, ⟨?_, hs.ended, congrArg (· + 1) hs.operands⟩⟩
  · rw [step_plain hs.ended hp, hplain, readOperand, hs.operands, hi]
    dsimp only
    rw [hs.settle_eq]
    rfl
  · change (g.accept i value d >>= fun d => pure { s' with draft := d, pending := none }) = _
    rw [ha]
    rfl

/-! ### Rows of arguments -/

variable {names : Names ι} {givens : List (ι × String)} {arguments : List String}

/-- In whichever way a switch is spelled, it is accepted with its value. -/
theorem Comes.foldlM_spells (hs : g.Comes s n d) (hg : g.Knows names)
    (h : names.Spells i value arguments) (ha : g.accept i value d = .ok d') :
  ∃ s', arguments.foldlM g.step s = .ok s' ∧ g.Comes s' n d'
  := by
  have hvalue : ∀ {b : Bool}, names.takesValue i = b → g.takesValue i = b :=
    fun h => (hg.takesValue i).trans h
  cases h with
  | longAttached hv hn =>
    apply hs.foldlM_attached (hvalue hv) ha
    apply hg.step_long_attached hs.ended hn
  | longSeparate hv hn hp =>
    apply hs.foldlM_separate (hvalue hv) ha hp
    apply hg.step_long_name hs.ended hn
  | shortAttached hv hc hne he =>
    apply hs.foldlM_attached (hvalue hv) ha
    rw [hg.step_short_value hs.ended hc hv, attachedValue?_of_ne hne he]
  | shortEquals hv hc hne =>
    apply hs.foldlM_attached (hvalue hv) ha
    rw [String.append_assoc, hg.step_short_value hs.ended hc hv]
    simp [attachedValue?]
  | shortSeparate hv hc hp =>
    apply hs.foldlM_separate (hvalue hv) ha hp
    apply hg.step_short_name hs.ended hc
  | longAlone hv hn =>
    apply hs.foldlM_alone (hvalue hv) ha
    apply hg.step_long_name hs.ended hn
  | shortAlone hv hc =>
    apply hs.foldlM_alone (hvalue hv) ha
    apply hg.step_short_name hs.ended hc

/-- Switches and operands are accepted in the order in which they are given. -/
theorem Comes.foldlM_gives (hs : g.Comes s n d) (hg : g.Knows names)
    (h : names.Gives n givens arguments)
    (ha : givens.foldlM (fun d e => g.accept e.1 e.2 d) d = .ok d') :
  ∃ s' n', arguments.foldlM g.step s = .ok s' ∧ g.Comes s' n' d'
  := by
  induction h generalizing s d with
  | nil =>
    obtain rfl := Except.ok.inj ha
    exact ⟨s, _, rfl, hs⟩
  | switch h hr ih =>
    rw [List.foldlM_cons] at ha
    obtain ⟨d₁, hd, ha⟩ := Outcome.bind_eq_ok_iff.1 ha
    obtain ⟨s₁, hs₁, hc⟩ := hs.foldlM_spells hg h hd
    rw [List.foldlM_append, hs₁]
    apply ih hc ha
  | operand hi hp hr ih =>
    rw [List.foldlM_cons] at ha
    obtain ⟨d₁, hd, ha⟩ := Outcome.bind_eq_ok_iff.1 ha
    obtain ⟨s₁, hs₁, hc⟩ := hs.step_operand (hg.operand _ _ hi) hp hd
    rw [List.foldlM_cons, hs₁]
    apply ih hc ha

/-- Arguments are read by accepting the switches and operands that they give, in order. -/
theorem read_of_gives (hg : g.Knows names) (h : names.Gives 0 givens arguments) {start : δ}
    (ha : givens.foldlM (fun d e => g.accept e.1 e.2 d) start = .ok d) :
  g.read start arguments = .ok d
  := by
  have hstart : g.Comes { draft := start } 0 start := .of_pending_eq_none rfl rfl
  obtain ⟨s, n, hfold, hs⟩ := hstart.foldlM_gives hg h ha
  rw [read, hfold, Outcome.ok_bind, hs.settle_eq]
  rfl

end Grammar
end Localization.Arguments

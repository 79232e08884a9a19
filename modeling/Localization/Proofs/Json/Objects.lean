import Localization.Proofs.Json.Strings

/-!
# Written objects are read back

The members of a written object are read one after the other, in order, and each may change
what the next ones are read with.  `Reads` says what a `MemberReader` comes to when it undoes the
writing of each value in turn.  It then meets exactly the members that were written
(`members_prettyAt_of_reads`), and nothing of the text after the closing bracket is read.  A
reader that undoes the writing of every member folds them up (`members_prettyAt`), also when the
object is all that a text holds (`document_object_pretty`).
-/

namespace Localization.Json

theorem isSpace_of_mem_newline {depth : Nat} :
  ∀ c ∈ newline depth, isSpace c
  := by
  intro c hc
  rw [newline, List.mem_cons] at hc
  obtain rfl | hc := hc
  · decide
  · obtain ⟨-, rfl⟩ := List.mem_replicate.1 hc
    decide

/-! ### Brackets, keys and colons -/

variable {spaces : List Char} (hs : ∀ c ∈ spaces, isSpace c) (rest : List Char)

include hs

theorem nextKey_brace (first : Bool) :
  nextKey first (spaces ++ '}' :: rest) = .ok none
  := by
  rw [nextKey, skipSpace_append hs, skipSpace_cons (by decide)]
  rfl

theorem endMembers_brace :
  endMembers (spaces ++ '}' :: rest) = .ok rest
  := by
  rw [endMembers, skipSpace_append hs, skipSpace_cons (by decide)]
  rfl

theorem nextKey_quote :
  nextKey true (spaces ++ '"' :: rest) = .ok (some rest)
  := by
  rw [nextKey, skipSpace_append hs, skipSpace_cons (by decide)]
  rfl

theorem nextKey_comma :
  nextKey false (',' :: (spaces ++ '"' :: rest)) = .ok (some rest)
  := by
  rw [nextKey, skipSpace_cons (by decide)]
  simp only [skipSpace_append hs, skipSpace_cons (show isSpace '"' = false by decide)]
  rfl

omit hs

theorem value_colon {α : Type} (read : Reader α) :
  value read (':' :: rest) = read rest
  := rfl

/-! ### Members -/

section Members

variable {ι σ : Type} {read : MemberReader σ}

/-- No more members are left, and the bracket is closed. -/
theorem membersFrom_brace (hs : ∀ c ∈ spaces, isSpace c) (fuel : Nat) (first : Bool) (s : σ) :
  membersFrom read (fuel + 1) first s (spaces ++ '}' :: rest) = .ok (s, rest)
  := by
  rw [membersFrom, nextKey_brace hs, Outcome.ok_bind]
  dsimp only
  rw [endMembers_brace hs]
  rfl

/-- A member is read after its key has been found. -/
theorem membersFrom_key {fuel : Nat} {first : Bool} {s s' : σ} {text text' rest : List Char}
    {key : String}
    (hk : nextKey first text = .ok (some (key.toList.flatMap escape ++ '"' :: text')))
    (hr : read key s text' = .ok (s', rest)) :
  membersFrom read (fuel + 1) first s text = membersFrom read fuel false s' rest
  := by
  rw [membersFrom, hk, Outcome.ok_bind]
  dsimp only
  rw [stringBody_flatMap_escape, Outcome.ok_bind]
  dsimp only
  rw [hr]
  rfl

variable (depth : Nat)

/-- What a member looks like after its key. -/
def afterKey (v : Value) (rest : List Char) : List Char :=
  ':' :: ' ' :: (v.prettyAt depth ++ rest)

theorem length_le_prettyMembers (members : List (String × Value)) :
  members.length ≤ (Value.prettyMembers depth members).length
  := by
  induction members with
  | nil => simp
  | cons m ms ih =>
    simp only [Value.prettyMembers, List.length_cons, List.length_append]
    omega

/-- Reading the values of the members in turn, each undoing how it was written, leads from one
state to another. -/
inductive Reads (read : MemberReader σ) (depth : Nat) : List (String × Value) → σ → σ → Prop where
  | nil (s : σ) : Reads read depth [] s s
  | cons {key : String} {v : Value} {members : List (String × Value)} {s s' s'' : σ}
      (h : ∀ rest, read key s (afterKey depth v rest) = .ok (s', rest))
      (hms : Reads read depth members s' s'') :
      Reads read depth ((key, v) :: members) s s''

variable {depth} {member : ι → String × Value} {step : σ → ι → σ} {s s' : σ}

/-- A field that has not been met before is read and set. -/
theorem once_none {α : Type} {field : Reader α} {a : α} {v : Value} {rest : List Char}
    (h : field ([' '] ++ (v.prettyAt depth ++ rest)) = .ok (a, rest)) (set : α → σ) :
  once none field set (afterKey depth v rest) = .ok (set a, rest)
  := by
  rw [once, if_neg (by simp), afterKey, value_colon]
  change (field ([' '] ++ (v.prettyAt depth ++ rest)) >>= fun p => pure (set p.1, p.2)) = _
  rw [h]
  rfl

theorem reads_foldl
    (hread : ∀ i s rest, read (member i).1 s (afterKey depth (member i).2 rest)
      = .ok (step s i, rest))
    (is : List ι) (s : σ) :
  Reads read depth (is.map member) s (is.foldl step s)
  := by
  induction is generalizing s with
  | nil => exact .nil s
  | cons i is ih => exact .cons (hread i s) (ih (step s i))

theorem membersFrom_prettyMembers {ms : List (String × Value)} (h : Reads read depth ms s s')
    (hs : ∀ c ∈ spaces, isSpace c) {fuel : Nat} (hf : ms.length < fuel) :
  membersFrom read fuel false s (Value.prettyMembers depth ms ++ (spaces ++ '}' :: rest))
    = .ok (s', rest)
  := by
  induction h generalizing fuel with
  | nil s =>
    obtain ⟨fuel, rfl⟩ := Nat.exists_eq_succ_of_ne_zero (Nat.ne_zero_of_lt hf)
    apply membersFrom_brace rest hs fuel false s
  | @cons key v ms s _ _ hv hms ih =>
    obtain ⟨fuel, rfl⟩ := Nat.exists_eq_succ_of_ne_zero (Nat.ne_zero_of_lt hf)
    have hfuel : ms.length < fuel := Nat.lt_of_succ_lt_succ hf
    have htext : Value.prettyMembers depth ((key, v) :: ms) ++ (spaces ++ '}' :: rest)
        = ',' :: (newline depth ++ '"' :: (key.toList.flatMap escape
          ++ '"' :: afterKey depth v
            (Value.prettyMembers depth ms ++ (spaces ++ '}' :: rest)))) := by
      simp [Value.prettyMembers, quote, afterKey]
    rw [htext, membersFrom_key (nextKey_comma isSpace_of_mem_newline _) (hv _), ih hfuel]

theorem prettyAt_object_cons (m : String × Value) (ms : List (String × Value))
    (rest : List Char) :
  Value.prettyAt depth (.object (m :: ms)) ++ rest
    = '{' :: (newline (depth + 1) ++ '"' :: (m.1.toList.flatMap escape
      ++ '"' :: afterKey (depth + 1) m.2
        (Value.prettyMembers (depth + 1) ms ++ (newline depth ++ '}' :: rest))))
  := by
  simp [Value.prettyAt, quote, afterKey]

/-- Reading the members of a written object meets them in order. -/
theorem members_prettyAt_of_reads {ms : List (String × Value)}
    (h : Reads read (depth + 1) ms s s') (rest : List Char) :
  ∃ text, Value.prettyAt depth (.object ms) ++ rest = '{' :: text
    ∧ members read s text = .ok (s', rest)
  := by
  cases h with
  | nil =>
    use '}' :: rest, rfl
    change membersFrom read _ true s ([] ++ '}' :: rest) = .ok (s, rest)
    apply membersFrom_brace rest (by simp) _ true s
  | @cons key v ms _ _ _ hv hms =>
    rw [prettyAt_object_cons]
    refine ⟨_, rfl, ?_⟩
    have hlength := length_le_prettyMembers (depth + 1) ms
    rw [members, membersFrom_key (nextKey_quote isSpace_of_mem_newline _) (hv _),
      membersFrom_prettyMembers rest hms isSpace_of_mem_newline]
    simp only [afterKey, List.length_append, List.length_cons]
    omega

/-- A reader that undoes the writing of every member folds up the members of a written object. -/
theorem members_prettyAt (depth : Nat) (member : ι → String × Value)
    (hread : ∀ i s rest, read (member i).1 s (afterKey (depth + 1) (member i).2 rest)
      = .ok (step s i, rest))
    (is : List ι) (start : σ) (rest : List Char) :
  ∃ text, Value.prettyAt depth (.object (is.map member)) ++ rest = '{' :: text
    ∧ members read start text = .ok (is.foldl step start, rest)
  := members_prettyAt_of_reads (reads_foldl hread is start) rest

/-- The reader of an object whose members are read one after the other, from a first state on. -/
def object (read : MemberReader σ) (start : σ) : Reader σ := fun text =>
  match skipSpace text with
  | '{' :: cs => members read start cs
  | cs => .error (misfit cs)

/-- A whole text that holds a written object is read by folding up the members. -/
theorem document_object_pretty (member : ι → String × Value)
    (hread : ∀ i s rest, read (member i).1 s (afterKey 1 (member i).2 rest) = .ok (step s i, rest))
    (is : List ι) (start : σ) :
  document (object read start) (Value.object (is.map member)).pretty = .ok (is.foldl step start)
  := by
  obtain ⟨text, htext, hmembers⟩ := members_prettyAt 0 member hread is start []
  rw [List.append_nil] at htext
  have hobject : object read start ('{' :: text) = .ok (is.foldl step start, []) := by
    rw [object, skipSpace_cons (by decide)]
    exact hmembers
  rw [document, Value.pretty, String.toList_ofList, htext, hobject, Outcome.ok_bind]
  rfl

end Members

/-- The value of a written member that is a string or `null` is read after its key. -/
theorem value_string?_afterKey (depth : Nat) (text : Option String) (rest : List Char) :
  value string? (afterKey depth (Value.ofString? text) rest) = .ok (text, rest)
  := by
  rw [afterKey, value_colon]
  apply string?_prettyAt [' '] (by simp [isSpace])

end Localization.Json

import Localization.Proofs.Json.Trees
import Localization.Proofs.Json.Objects
import Mathlib.Data.List.DropRight

/-!
# Written values are skipped

`Json.skipValue` goes over a written value of any kind and depth and stops right after it
(`skipValue_writes`).  What it does at a value is done by induction on how the value is written:
`Skips` says that it is done for the characters of one value, and `skipItemsFrom_row` and
`skipMembersFrom_row` go from the values in brackets to the closing bracket.  Each bracket and
each value takes a unit of fuel and a character of the text, so the fuel lasts.
-/

namespace Localization.Json

/-! ### Spaces in front -/

theorem skipSpace_skipSpace (text : List Char) :
  skipSpace (skipSpace text) = skipSpace text
  := List.dropWhile_idempotent _ text

theorem skipValueFrom_skipSpace (fuel : Nat) (text : List Char) :
  skipValueFrom fuel (skipSpace text) = skipValueFrom fuel text
  := by
  cases fuel with
  | zero => rfl
  | succ fuel => rw [skipValueFrom, skipValueFrom, skipSpace_skipSpace]

theorem skipItemsFrom_skipSpace (fuel : Nat) (text : List Char) :
  skipItemsFrom fuel (skipSpace text) = skipItemsFrom fuel text
  := by
  cases fuel with
  | zero => rfl
  | succ fuel => rw [skipItemsFrom, skipItemsFrom, skipValueFrom_skipSpace]

theorem skipMembersFrom_skipSpace (fuel : Nat) (text : List Char) :
  skipMembersFrom fuel (skipSpace text) = skipMembersFrom fuel text
  := by
  cases fuel with
  | zero => rfl
  | succ fuel => rw [skipMembersFrom, skipMembersFrom, skipSpace_skipSpace]

/-! ### What a row begins with -/

/-- A reader that skips spaces comes to the quote that opens a string. -/
theorem IsString.exists_skipSpace_eq {text : Option String} {chars spaces : List Char}
    (h : IsString text chars) (hs : IsSpaces spaces) :
  ∃ body, (∀ rest, skipSpace (spaces ++ (chars ++ rest)) = '"' :: (body ++ '"' :: rest))
    ∧ IsBody body ∧ ∀ rest, (stringBody (body ++ '"' :: rest)).toOption = text.map (·, rest)
  := by
  obtain ⟨body, rfl, hbody, hread⟩ := exists_of_isString h
  refine ⟨body, fun rest => ?_, hbody, hread⟩
  rw [skipSpace_append (isSpace_of_isSpaces hs), List.cons_append, skipSpace_cons (by decide),
    List.append_assoc]
  rfl

/-- A row of items begins like its first item, with no bracket that closes. -/
theorem exists_skipSpace_items {e : Element} (hw : Writes e.tree e.chars) (hs : e.IsSpaced)
    (spaces : List Char) (items : List Element) (rest : List Char) :
  ∃ c cs, skipSpace (row spaces ((e :: items).map Element.text) ++ rest) = c :: cs ∧ c ≠ ']'
  := by
  obtain ⟨text, htext⟩ := exists_row_append spaces e.text (items.map Element.text) rest
  obtain ⟨c, cs, hc, ho⟩ := exists_opens hw
  refine ⟨c, cs ++ (e.after ++ text), ?_, (Tree.not_close_of_mem ho).2⟩
  rw [List.map_cons, htext, Element.text_append, skipSpace_writes hw hs.before, hc]
  rfl

/-- A row of members begins like its first key. -/
theorem exists_skipSpace_members {m : Member} (hs : m.IsSpelled) (spaces : List Char)
    (members : List Member) (rest : List Char) :
  ∃ cs, skipSpace (row spaces ((m :: members).map Member.text) ++ rest) = '"' :: cs
  := by
  obtain ⟨text, htext⟩ := exists_row_append spaces m.text (members.map Member.text) rest
  obtain ⟨body, hkey, -⟩ := hs.key.exists_skipSpace_eq hs.before
  exact ⟨_, by rw [List.map_cons, htext, Member.text_append, hkey]⟩

theorem colon_append {spaces : List Char} (hs : IsSpaces spaces) (rest : List Char) :
  colon (spaces ++ ':' :: rest) = .ok rest
  := by
  rw [colon, skipSpace_append (isSpace_of_isSpaces hs)]
  rfl

/-! ### Values in brackets -/

/-- The characters are skipped wherever they stand, and nothing after them is. -/
def Skips (chars : List Char) : Prop :=
  ∀ ⦃spaces rest : List Char⦄ ⦃fuel : Nat⦄, IsSpaces spaces → Ends rest → chars.length ≤ fuel →
    skipValueFrom fuel (spaces ++ (chars ++ rest)) = .ok rest

section Items

variable {e : Element} (he : Skips e.chars) (hs : e.IsSpaced) {fuel : Nat}
  (hf : e.chars.length ≤ fuel)

include he hs hf

/-- The last item is skipped, and so is the bracket. -/
theorem skipItemsFrom_bracket (rest : List Char) :
  skipItemsFrom (fuel + 1) (e.text ++ ']' :: rest) = .ok rest
  := by
  have hskip := he hs.before (ends_close hs.after (.inr (.inl rfl)) rest) hf
  rw [Element.text_append, skipItemsFrom, hskip, Outcome.ok_bind,
    skipSpace_append (isSpace_of_isSpaces hs.after)]
  rfl

/-- An item is skipped, and so is the comma after it. -/
theorem skipItemsFrom_comma (rest : List Char) :
  skipItemsFrom (fuel + 1) (e.text ++ ',' :: rest) = skipItemsFrom fuel rest
  := by
  have hskip := he hs.before (ends_close hs.after (.inl rfl) rest) hf
  rw [Element.text_append, skipItemsFrom, hskip, Outcome.ok_bind,
    skipSpace_append (isSpace_of_isSpaces hs.after)]
  rfl

end Items

theorem skipItemsFrom_row {spaces : List Char} {e : Element} {items : List Element}
    (hs : ∀ i ∈ e :: items, i.IsSpaced) (h : ∀ i ∈ e :: items, Skips i.chars) (rest : List Char)
    {fuel : Nat} (hf : (row spaces ((e :: items).map Element.text)).length < fuel) :
  skipItemsFrom fuel (row spaces ((e :: items).map Element.text) ++ ']' :: rest) = .ok rest
  := by
  induction items generalizing e fuel with
  | nil =>
    obtain ⟨fuel, rfl⟩ := Nat.exists_eq_succ_of_ne_zero (Nat.ne_zero_of_lt hf)
    have hlength : e.chars.length ≤ fuel := by
      simp [row, Element.text] at hf
      omega
    exact skipItemsFrom_bracket (h e List.mem_cons_self) (hs e List.mem_cons_self) hlength rest
  | cons i items ih =>
    obtain ⟨fuel, rfl⟩ := Nat.exists_eq_succ_of_ne_zero (Nat.ne_zero_of_lt hf)
    obtain ⟨hes, hs⟩ := List.forall_mem_cons.1 hs
    obtain ⟨he, h⟩ := List.forall_mem_cons.1 h
    rw [List.map_cons, List.map_cons, row_cons_cons] at hf ⊢
    simp only [Element.text, List.length_append, List.length_cons] at hf
    rw [List.append_assoc, List.cons_append, skipItemsFrom_comma he hes (by omega)]
    apply ih hs h
    simp only [Element.text, List.map_cons]
    omega

section Members

variable {m : Member} (hm : Skips m.value.chars) (hs : m.IsSpelled) {fuel : Nat}
  (hf : m.value.chars.length ≤ fuel)

include hm hs hf

/-- The last member is skipped, and so is the bracket. -/
theorem skipMembersFrom_brace (rest : List Char) :
  skipMembersFrom (fuel + 1) (m.text ++ '}' :: rest) = .ok rest
  := by
  obtain ⟨hk, hb, ha, hv⟩ := hs
  obtain ⟨body, hkey, hbody, -⟩ := hk.exists_skipSpace_eq hb
  have hskip := hm hv.before (ends_close hv.after (.inr (.inr rfl)) rest) hf
  rw [Member.text_append, skipMembersFrom, hkey]
  change (skipStringFrom 0 (body ++ '"' :: _) >>= _) = _
  rw [skipStringFrom_body hbody, Outcome.ok_bind, colon_append ha, Outcome.ok_bind,
    Element.text_append, hskip, Outcome.ok_bind, skipSpace_append (isSpace_of_isSpaces hv.after)]
  rfl

/-- A member is skipped, and so is the comma after it. -/
theorem skipMembersFrom_comma (rest : List Char) :
  skipMembersFrom (fuel + 1) (m.text ++ ',' :: rest) = skipMembersFrom fuel rest
  := by
  obtain ⟨hk, hb, ha, hv⟩ := hs
  obtain ⟨body, hkey, hbody, -⟩ := hk.exists_skipSpace_eq hb
  have hskip := hm hv.before (ends_close hv.after (.inl rfl) rest) hf
  rw [Member.text_append, skipMembersFrom, hkey]
  change (skipStringFrom 0 (body ++ '"' :: _) >>= _) = _
  rw [skipStringFrom_body hbody, Outcome.ok_bind, colon_append ha, Outcome.ok_bind,
    Element.text_append, hskip, Outcome.ok_bind, skipSpace_append (isSpace_of_isSpaces hv.after)]
  rfl

end Members

theorem skipMembersFrom_row {spaces : List Char} {m : Member} {members : List Member}
    (hs : ∀ n ∈ m :: members, n.IsSpelled) (h : ∀ n ∈ m :: members, Skips n.value.chars)
    (rest : List Char) {fuel : Nat}
    (hf : (row spaces ((m :: members).map Member.text)).length < fuel) :
  skipMembersFrom fuel (row spaces ((m :: members).map Member.text) ++ '}' :: rest) = .ok rest
  := by
  induction members generalizing m fuel with
  | nil =>
    obtain ⟨fuel, rfl⟩ := Nat.exists_eq_succ_of_ne_zero (Nat.ne_zero_of_lt hf)
    have hlength : m.value.chars.length ≤ fuel := by
      simp [row, Member.text, Element.text] at hf
      omega
    exact skipMembersFrom_brace (h m List.mem_cons_self) (hs m List.mem_cons_self) hlength rest
  | cons n members ih =>
    obtain ⟨fuel, rfl⟩ := Nat.exists_eq_succ_of_ne_zero (Nat.ne_zero_of_lt hf)
    obtain ⟨hms, hs⟩ := List.forall_mem_cons.1 hs
    obtain ⟨hm, h⟩ := List.forall_mem_cons.1 h
    rw [List.map_cons, List.map_cons, row_cons_cons] at hf ⊢
    simp only [Member.text, Element.text, List.length_append, List.length_cons] at hf
    rw [List.append_assoc, List.cons_append, skipMembersFrom_comma hm hms (by omega)]
    apply ih hs h
    simp only [Member.text, Element.text, List.map_cons]
    omega

/-! ### Values -/

theorem skips_number {chars : List Char} (h : IsNumber chars) : Skips chars := by
  intro spaces rest fuel hs hr hf
  have hskip := skipSpace_writes (.number h) hs rest
  obtain ⟨c, cs, rfl, hc⟩ := exists_opens (.number h)
  have hc := of_mem_numberOpenings hc
  obtain ⟨fuel, rfl⟩ := Nat.exists_eq_succ_of_ne_zero (Nat.ne_zero_of_lt hf)
  obtain ⟨m, hm⟩ := Number.scan_append h hr
  rw [List.cons_append] at hm hskip
  rw [skipValueFrom, List.cons_append, hskip]
  split
  case h_8 =>
    next heq =>
    obtain ⟨rfl, rfl⟩ := List.cons.inj heq
    rw [if_pos hc, skipNumber, hm]
  -- the other characters that a value begins with are neither signs nor digits
  all_goals
    next heq =>
    cases heq
    all_goals exact absurd hc (by decide)

theorem skips_string {text : Option String} {chars : List Char} (h : IsString text chars) :
  Skips chars
  := by
  intro spaces rest fuel hs hr hf
  obtain ⟨body, rfl, hbody, -⟩ := exists_of_isString h
  obtain ⟨fuel, rfl⟩ := Nat.exists_eq_succ_of_ne_zero (Nat.ne_zero_of_lt hf)
  rw [skipValueFrom, skipSpace_append (isSpace_of_isSpaces hs), List.cons_append, List.append_assoc]
  apply skipStringFrom_body hbody

section Brackets

variable {before : List Char} (hb : IsSpaces before) {text : List Char} (fuel : Nat)

include hb

theorem skipValueFrom_bracket {rest : List Char} (h : skipSpace text = ']' :: rest) :
  skipValueFrom (fuel + 1) (before ++ '[' :: text) = .ok rest
  := by
  rw [skipValueFrom, skipSpace_append (isSpace_of_isSpaces hb), skipSpace_cons (by decide)]
  simp only [h]

theorem skipValueFrom_items {c : Char} {cs : List Char} (h : skipSpace text = c :: cs)
    (hc : c ≠ ']') :
  skipValueFrom (fuel + 1) (before ++ '[' :: text) = skipItemsFrom fuel text
  := by
  rw [skipValueFrom, skipSpace_append (isSpace_of_isSpaces hb), skipSpace_cons (by decide),
    ← skipItemsFrom_skipSpace fuel text]
  simp only [h]
  split
  · next heq => exact absurd (List.cons.inj heq).1 hc
  · rfl

theorem skipValueFrom_brace {rest : List Char} (h : skipSpace text = '}' :: rest) :
  skipValueFrom (fuel + 1) (before ++ '{' :: text) = .ok rest
  := by
  rw [skipValueFrom, skipSpace_append (isSpace_of_isSpaces hb), skipSpace_cons (by decide)]
  simp only [h]

theorem skipValueFrom_members {cs : List Char} (h : skipSpace text = '"' :: cs) :
  skipValueFrom (fuel + 1) (before ++ '{' :: text) = skipMembersFrom fuel text
  := by
  rw [skipValueFrom, skipSpace_append (isSpace_of_isSpaces hb), skipSpace_cons (by decide),
    ← skipMembersFrom_skipSpace fuel text]
  simp only [h]
  rfl

end Brackets

theorem skips_array {spaces : List Char} {items : List Element} (hs : IsSpaces spaces)
    (hi : ∀ e ∈ items, e.IsSpaced) (h : ∀ e ∈ items, Writes e.tree e.chars)
    (hskip : ∀ e ∈ items, Skips e.chars) :
  Skips ('[' :: (row spaces (items.map Element.text) ++ [']']))
  := by
  intro before rest fuel hb hr hf
  obtain ⟨fuel, rfl⟩ := Nat.exists_eq_succ_of_ne_zero (Nat.ne_zero_of_lt hf)
  rw [List.cons_append, List.append_assoc, List.singleton_append]
  cases items with
  | nil =>
    apply skipValueFrom_bracket hb fuel
    rw [List.map_nil, row, skipSpace_append (isSpace_of_isSpaces hs), skipSpace_cons (by decide)]
  | cons e items =>
    obtain ⟨c, cs, hc, hne⟩ := exists_skipSpace_items (h e List.mem_cons_self)
      (hi e List.mem_cons_self) spaces items (']' :: rest)
    rw [skipValueFrom_items hb fuel hc hne]
    apply skipItemsFrom_row hi hskip
    simp only [List.length_cons, List.length_append] at hf
    omega

theorem skips_object {spaces : List Char} {members : List Member} (hs : IsSpaces spaces)
    (hm : ∀ m ∈ members, m.IsSpelled) (hskip : ∀ m ∈ members, Skips m.value.chars) :
  Skips ('{' :: (row spaces (members.map Member.text) ++ ['}']))
  := by
  intro before rest fuel hb hr hf
  obtain ⟨fuel, rfl⟩ := Nat.exists_eq_succ_of_ne_zero (Nat.ne_zero_of_lt hf)
  rw [List.cons_append, List.append_assoc, List.singleton_append]
  cases members with
  | nil =>
    apply skipValueFrom_brace hb fuel
    rw [List.map_nil, row, skipSpace_append (isSpace_of_isSpaces hs), skipSpace_cons (by decide)]
  | cons m members =>
    obtain ⟨cs, hc⟩ :=
      exists_skipSpace_members (hm m List.mem_cons_self) spaces members ('}' :: rest)
    rw [skipValueFrom_members hb fuel hc]
    apply skipMembersFrom_row hm hskip
    simp only [List.length_cons, List.length_append] at hf
    omega

/-- Written values are skipped, whatever they hold. -/
theorem skips_writes {tree : Tree} {chars : List Char} (h : Writes tree chars) : Skips chars := by
  induction h with
  | number h => exact skips_number h
  | string h => exact skips_string h
  | array hs hi h ih => exact skips_array hs hi h ih
  | object hs hm _ ih => exact skips_object hs hm ih
  | _ =>
    intro spaces rest fuel hs hr hf
    obtain ⟨fuel, rfl⟩ := Nat.exists_eq_succ_of_ne_zero (Nat.ne_zero_of_lt hf)
    rw [skipValueFrom, skipSpace_append (isSpace_of_isSpaces hs)]
    rfl

/-- A written value is skipped, and nothing after it is. -/
theorem skipValue_writes {tree : Tree} {chars spaces rest : List Char} (h : Writes tree chars)
    (hs : IsSpaces spaces) (hr : Ends rest) :
  skipValue (spaces ++ (chars ++ rest)) = .ok ((), rest)
  := by
  have hskip := skips_writes h hs hr (show chars.length
      ≤ 2 * (spaces ++ (chars ++ rest)).length + 2 by
    simp only [List.length_append]
    omega)
  rw [skipValue, hskip]
  rfl

end Localization.Json

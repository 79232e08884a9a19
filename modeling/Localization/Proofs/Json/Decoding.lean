import Localization.Proofs.Json.Arrays
import Localization.Proofs.Json.Skipping

/-!
# Written values are decoded

What a reader makes of a text depends on the value that is written there and not on how it is
written.  `Decodes` says what a reader makes of a tree: a result, after which the rest of the text
is left, or else a failure.  A list of items is decoded item by item (`decodes_array`), and the
members of an object are folded up from left to right, by a step for each key (`decodes_object`);
the first item or member that is not decoded is the failure of the whole.  A text that holds a
tree is decoded like the tree (`toOption_document`).
-/

namespace Localization.Json

/-- However the tree is written, the reader makes this of it, and nothing of what stands after it;
without a result it fails. -/
def Decodes {α : Type} (read : Reader α) (tree : Tree) (result : Option α) : Prop :=
  ∀ ⦃chars spaces rest : List Char⦄, Writes tree chars → IsSpaces spaces → Ends rest →
    (read (spaces ++ (chars ++ rest))).toOption = result.map (·, rest)

/-- However the tree is written after the colon of a member, the reader makes this of the colon and
the tree, and nothing of what stands after it. -/
def DecodesValue {α : Type} (read : Reader α) (tree : Tree) (result : Option α) : Prop :=
  ∀ ⦃chars before spaces rest : List Char⦄, Writes tree chars → IsSpaces before → IsSpaces spaces →
    Ends rest →
    (read (before ++ ':' :: (spaces ++ (chars ++ rest)))).toOption = result.map (·, rest)

namespace Tree

/-- The text of a string. -/
def text? : Tree → Option String
  | string text => text
  | _ => none

/-- The text of a string, or no text for `null`. -/
def message? : Tree → Option (Option String)
  | null => some none
  | string text => text.map some
  | _ => none

/-- Nothing for `null`. -/
def null? : Tree → Option Unit
  | null => some ()
  | _ => none

/-- The items of an array, if each of them is decoded. -/
def items? {α : Type} (decode : Tree → Option α) : Tree → Option (List α)
  | array items => items.mapM decode
  | _ => none

/-- The step for a member, if its key has a text. -/
def accept {σ : Type} (step : String → σ → Tree → Option σ) (s : σ)
    (member : Option String × Tree) : Option σ :=
  member.1.bind fun key => step key s member.2

/-- The members of an object, folded up from left to right. -/
def fold? {σ : Type} (step : String → σ → Tree → Option σ) (start : σ) : Tree → Option σ
  | object members => members.foldlM (accept step) start
  | _ => none

end Tree

/-- One member that no step takes is enough for the whole object to fail. -/
theorem Tree.foldlM_accept_eq_none {σ : Type} {step : String → σ → Tree → Option σ}
    {members : List (Option String × Tree)} {m : Option String × Tree} (hm : m ∈ members)
    (h : ∀ key s, step key s m.2 = none) (s : σ) :
  members.foldlM (accept step) s = none
  := by
  induction members generalizing s with
  | nil => cases hm
  | cons n members ih =>
    rw [List.foldlM_cons]
    obtain rfl | hm := List.mem_cons.1 hm
    · have hnone : accept step s m = none := by
        rw [accept, Option.bind_eq_none_iff]
        intro key _
        apply h
      rw [hnone]
      rfl
    · cases accept step s n with
      | none => rfl
      | some s' => exact ih hm s'

/-! ### Strings -/

theorem toOption_string_of_ne {text : List Char} (h : ∀ cs, skipSpace text ≠ '"' :: cs) :
  (string text).toOption = none
  := by
  rw [string]
  split
  · next heq => exact absurd heq (h _)
  · rfl

theorem decodes_string (tree : Tree) : Decodes string tree tree.text? := by
  intro chars spaces rest h hs _
  have hskip := skipSpace_writes h hs rest
  cases tree with
  | string text =>
    cases h with
    | string h =>
      obtain ⟨body, rfl, -, hread⟩ := exists_of_isString h
      rw [string, hskip, List.cons_append, List.append_assoc]
      apply hread
  | _ =>
    apply toOption_string_of_ne
    rw [hskip]
    apply append_ne_cons h (by simp [Tree.openings, numberOpenings])

theorem toOption_string?_of_ne {text : List Char} (h : ∀ cs, skipSpace text ≠ 'n' :: cs) :
  (string? text).toOption = (string (skipSpace text)).toOption.map fun p => (some p.1, p.2)
  := by
  rw [string?]
  split
  · next heq => exact absurd heq (h _)
  · cases string (skipSpace text) <;> rfl

theorem decodes_string? (tree : Tree) : Decodes string? tree tree.message? := by
  intro chars spaces rest h hs hr
  have hskip := skipSpace_writes h hs rest
  cases tree with
  | null =>
    cases h with
    | null =>
      rw [string?, hskip]
      rfl
  | _ =>
    have hstring := decodes_string _ h (List.forall_mem_nil _) hr
    have hne := append_ne_cons h (show 'n' ∉ _ by simp [Tree.openings, numberOpenings]) rest
    rw [← hskip] at hne
    rw [toOption_string?_of_ne hne, hskip, ← List.nil_append (chars ++ rest), hstring]
    simp only [Tree.text?, Tree.message?, Option.map_map]
    rfl

theorem toOption_null_of_ne {text : List Char} (h : ∀ cs, skipSpace text ≠ 'n' :: cs) :
  (null text).toOption = none
  := by
  rw [null]
  split
  · next heq => exact absurd heq (h _)
  · rfl

theorem decodes_null (tree : Tree) : Decodes null tree tree.null? := by
  intro chars spaces rest h hs _
  have hskip := skipSpace_writes h hs rest
  cases tree with
  | null =>
    cases h with
    | null =>
      rw [null, hskip]
      rfl
  | _ =>
    apply toOption_null_of_ne
    rw [hskip]
    apply append_ne_cons h (by simp [Tree.openings, numberOpenings])

/-! ### Arrays -/

section Arrays

variable {α : Type} {read : Reader α} {decode : Tree → Option α}

/-- After an item, a comma leads to the next one. -/
theorem itemsFrom_comma {after : List Char} (ha : IsSpaces after) {text cs : List Char} {c : Char}
    (h : skipSpace text = c :: cs) (hc : c ≠ ']') (fuel : Nat) :
  itemsFrom read fuel false (after ++ ',' :: text) = itemsFrom read fuel true text
  := by
  have htrue : nextItem true text = .ok (some (c :: cs)) := by
    rw [nextItem, h]
    split
    · next heq => cases heq
    · next heq => exact absurd (List.cons.inj heq).1 hc
    · next heq => rw [heq]; rfl
  have hfalse : nextItem false (after ++ ',' :: text) = .ok (some (c :: cs)) := by
    rw [nextItem, skipSpace_append (isSpace_of_isSpaces ha), skipSpace_cons (by decide)]
    split
    · next heq => cases heq
    · next heq => exact absurd (List.cons.inj heq).1 (by decide)
    · next heq =>
      obtain ⟨rfl, rfl⟩ := List.cons.inj heq
      rw [if_neg (by decide), if_pos rfl, h]
      split
      · next heq => cases heq
      · next heq => exact absurd (List.cons.inj heq).1 hc
      · rfl
  cases fuel with
  | zero => rfl
  | succ fuel =>
    rw [itemsFrom, itemsFrom, item?, item?, htrue, hfalse]
    rfl

theorem toOption_itemsFrom {fuel : Nat} {first : Bool} {text text' : List Char}
    (h : nextItem first text = .ok (some text')) :
  (itemsFrom read (fuel + 1) first text).toOption
    = (read text').toOption.bind fun p =>
      (itemsFrom read fuel false p.2).toOption.map fun q => (p.1 :: q.1, q.2)
  := by
  cases hr : read text' with
  | ok p =>
    rw [itemsFrom_item h hr, Outcome.toOption_map]
    rfl
  | error fault =>
    rw [itemsFrom, item?, h, Outcome.ok_bind]
    dsimp only
    rw [hr]
    rfl

theorem toOption_array_of_ne {text : List Char} (h : ∀ cs, skipSpace text ≠ '[' :: cs) :
  (array read text).toOption = none
  := by
  rw [array]
  split
  · next heq => exact absurd heq (h _)
  · rfl

variable (hread : ∀ tree, Decodes read tree (decode tree))

include hread

/-- One item is decoded, and then the items after it are read. -/
theorem toOption_itemsFrom_text {e : Element} (hw : Writes e.tree e.chars) (hs : e.IsSpaced)
    {rest : List Char} (hr : Ends (e.after ++ rest)) (fuel : Nat) :
  (itemsFrom read (fuel + 1) true (e.text ++ rest)).toOption
    = (decode e.tree).bind fun a =>
      (itemsFrom read fuel false (e.after ++ rest)).toOption.map fun p => (a :: p.1, p.2)
  := by
  have hitem : nextItem true (e.text ++ rest) = .ok (some (e.chars ++ (e.after ++ rest))) := by
    obtain ⟨c, cs, hc, ho⟩ := exists_opens hw
    rw [Element.text_append, nextItem, skipSpace_writes hw hs.before, hc]
    split
    · next heq => cases heq
    · next heq => exact absurd (List.cons.inj heq).1 (Tree.not_close_of_mem ho).2
    · next heq => rw [heq]; rfl
  rw [toOption_itemsFrom hitem, ← List.nil_append (e.chars ++ _),
    hread _ hw (List.forall_mem_nil _) hr]
  cases decode e.tree <;> rfl

theorem toOption_itemsFrom_row {spaces : List Char} {e : Element} {items : List Element}
    (hs : ∀ i ∈ e :: items, i.IsSpaced) (hw : ∀ i ∈ e :: items, Writes i.tree i.chars)
    (rest : List Char) {fuel : Nat} (hf : items.length < fuel) :
  (itemsFrom read (fuel + 1) true
      (row spaces ((e :: items).map Element.text) ++ ']' :: rest)).toOption
    = (((e :: items).map Element.tree).mapM decode).map (·, rest)
  := by
  induction items generalizing e fuel with
  | nil =>
    obtain ⟨fuel, rfl⟩ := Nat.exists_eq_succ_of_ne_zero (Nat.ne_zero_of_lt hf)
    have hes := hs e List.mem_cons_self
    change (itemsFrom read _ true (e.text ++ ']' :: rest)).toOption = _
    rw [toOption_itemsFrom_text hread (hw e List.mem_cons_self) hes
        (ends_close hes.after (.inr (.inl rfl)) rest),
      itemsFrom_bracket rest (isSpace_of_isSpaces hes.after)]
    simp only [List.map_cons, List.map_nil, List.mapM_cons, List.mapM_nil]
    cases decode e.tree <;> rfl
  | cons i items ih =>
    obtain ⟨fuel, rfl⟩ := Nat.exists_eq_succ_of_ne_zero (Nat.ne_zero_of_lt hf)
    obtain ⟨hes, hs⟩ := List.forall_mem_cons.1 hs
    obtain ⟨hew, hw⟩ := List.forall_mem_cons.1 hw
    have hi := ih hs hw (Nat.lt_of_succ_lt_succ hf)
    obtain ⟨c, cs, hc, hne⟩ := exists_skipSpace_items (hw i List.mem_cons_self)
      (hs i List.mem_cons_self) spaces items (']' :: rest)
    have htrees : (e :: i :: items).map Element.tree
        = e.tree :: (i :: items).map Element.tree := rfl
    rw [List.map_cons, List.map_cons, row_cons_cons, List.append_assoc, List.cons_append,
      toOption_itemsFrom_text hread hew hes (ends_close hes.after (.inl rfl) _), ← List.map_cons,
      itemsFrom_comma hes.after hc hne, hi, htrees, List.mapM_cons]
    cases decode e.tree with
    | none => rfl
    | some a => cases ((i :: items).map Element.tree).mapM decode <;> rfl

theorem decodes_array (tree : Tree) : Decodes (array read) tree (tree.items? decode) := by
  intro chars spaces rest h hs hr
  have hskip := skipSpace_writes h hs rest
  cases tree with
  | array trees =>
    cases h with
    | @array inner items hinner hi hw =>
      rw [array, hskip, List.cons_append, List.append_assoc, List.singleton_append]
      change (itemsFrom read _ true _).toOption = _
      cases items with
      | nil =>
        rw [List.map_nil, row, itemsFrom_bracket rest (isSpace_of_isSpaces hinner)]
        rfl
      | cons e items =>
        have hlength := length_le_row inner ((e :: items).map Element.text)
        apply toOption_itemsFrom_row hread hi hw
        simp only [List.length_map, List.length_cons, List.length_append] at hlength ⊢
        omega
  | _ =>
    apply toOption_array_of_ne
    rw [hskip]
    apply append_ne_cons h (by simp [Tree.openings, numberOpenings])

end Arrays

/-! ### Objects -/

theorem decodesValue_value {α : Type} {read : Reader α} {tree : Tree} {result : Option α}
    (h : Decodes read tree result) :
  DecodesValue (value read) tree result
  := by
  intro chars before spaces rest hw hb hs hr
  rw [value, colon_append hb, Outcome.ok_bind]
  apply h hw hs hr

/-- What is set to a result that may come once, when there is no old one. -/
def once? {α σ : Type} (old result : Option α) (set : α → σ) : Option σ :=
  if old.isSome then none else result.map set

theorem once?_eq_some_iff {α σ : Type} {old result : Option α} {set : α → σ} {s : σ} :
  once? old result set = some s ↔ old = none ∧ ∃ a, result = some a ∧ set a = s
  := by
  rw [once?, Option.ite_none_left_eq_some, Option.not_isSome_iff_eq_none, Option.map_eq_some_iff]

/-- A member whose key may come once is decoded if it is the first with its key. -/
theorem decodesValue_once {α σ : Type} {read : Reader α} {tree : Tree} {result : Option α}
    (h : Decodes read tree result) (old : Option α) (set : α → σ) :
  DecodesValue (once old read set) tree (once? old result set)
  := by
  intro chars before spaces rest hw hb hs hr
  have hvalue := decodesValue_value h hw hb hs hr
  rw [once, once?]
  split
  · rfl
  · rw [Outcome.toOption_bind, hvalue]
    cases result <;> rfl

/-- The key of a member is found where the first member of an object is due. -/
theorem Member.IsSpelled.exists_nextKey_eq {m : Member} (hs : m.IsSpelled) (rest : List Char) :
  ∃ body, nextKey true (m.text ++ rest)
      = .ok (some (body ++ '"' :: (m.after ++ ':' :: (m.value.text ++ rest))))
    ∧ (stringBody (body ++ '"' :: (m.after ++ ':' :: (m.value.text ++ rest)))).toOption
      = m.key.map (·, m.after ++ ':' :: (m.value.text ++ rest))
  := by
  obtain ⟨body, hskip, -, hkey⟩ := hs.key.exists_skipSpace_eq hs.before
  use body
  constructor
  · rw [Member.text_append, nextKey, hskip]
    rfl
  · apply hkey

section Objects

variable {σ : Type} {read : MemberReader σ} {step : String → σ → Tree → Option σ}

/-- After a member, a comma leads to the next one. -/
theorem membersFrom_comma {after : List Char} (ha : IsSpaces after) {text cs : List Char}
    (h : skipSpace text = '"' :: cs) (fuel : Nat) (s : σ) :
  membersFrom read fuel false s (after ++ ',' :: text) = membersFrom read fuel true s text
  := by
  have htrue : nextKey true text = .ok (some cs) := by
    rw [nextKey, h]
    rfl
  have hfalse : nextKey false (after ++ ',' :: text) = .ok (some cs) := by
    rw [nextKey, skipSpace_append (isSpace_of_isSpaces ha), skipSpace_cons (by decide)]
    simp only [h]
    rfl
  cases fuel with
  | zero => rfl
  | succ fuel =>
    rw [membersFrom, membersFrom, htrue, hfalse]
    rfl

theorem endMembers_comma {after : List Char} (ha : IsSpaces after) (text : List Char) :
  endMembers (after ++ ',' :: text) = .error .malformed
  := by
  rw [endMembers, skipSpace_append (isSpace_of_isSpaces ha)]
  rfl

theorem toOption_membersFrom {fuel : Nat} {first : Bool} {text text' body : List Char} {s : σ}
    {key : Option String} (h : nextKey first text = .ok (some (body ++ '"' :: text')))
    (hkey : (stringBody (body ++ '"' :: text')).toOption = key.map (·, text')) :
  (membersFrom read (fuel + 1) first s text).toOption
    = key.bind fun key => (read key s text').toOption.bind fun p =>
      (membersFrom read fuel false p.1 p.2).toOption
  := by
  rw [membersFrom, h, Outcome.ok_bind]
  dsimp only
  rw [Outcome.toOption_bind, hkey]
  cases key with
  | none => rfl
  | some key => exact Outcome.toOption_bind _ _

theorem toOption_object_of_ne {text : List Char} (h : ∀ cs, skipSpace text ≠ '{' :: cs) (s : σ) :
  (object read s text).toOption = none
  := by
  rw [object]
  split
  · next heq => exact absurd heq (h _)
  · rfl

variable (hread : ∀ key s tree, DecodesValue (read key s) tree (step key s tree))

include hread

/-- One member is decoded, and then the members after it are read. -/
theorem toOption_membersFrom_text {m : Member} (hw : Writes m.value.tree m.value.chars)
    (hs : m.IsSpelled) {rest : List Char} (hr : Ends (m.value.after ++ rest)) (fuel : Nat) (s : σ) :
  (membersFrom read (fuel + 1) true s (m.text ++ rest)).toOption
    = (Tree.accept step s m.entry).bind fun s =>
      (membersFrom read fuel false s (m.value.after ++ rest)).toOption
  := by
  obtain ⟨body, hnext, hkey⟩ := hs.exists_nextKey_eq rest
  rw [toOption_membersFrom hnext hkey, Tree.accept, Option.bind_assoc]
  congr 1
  funext key
  rw [Element.text_append, hread key s _ hw hs.after hs.value.before hr, Option.bind_map]
  rfl

theorem toOption_membersFrom_row {spaces : List Char} {m : Member} {members : List Member}
    (hs : ∀ n ∈ m :: members, n.IsSpelled)
    (hw : ∀ n ∈ m :: members, Writes n.value.tree n.value.chars) (rest : List Char) {fuel : Nat}
    (hf : members.length < fuel) (s : σ) :
  (membersFrom read (fuel + 1) true s
      (row spaces ((m :: members).map Member.text) ++ '}' :: rest)).toOption
    = (((m :: members).map Member.entry).foldlM (Tree.accept step) s).map (·, rest)
  := by
  induction members generalizing m fuel s with
  | nil =>
    obtain ⟨fuel, rfl⟩ := Nat.exists_eq_succ_of_ne_zero (Nat.ne_zero_of_lt hf)
    have hms := hs m List.mem_cons_self
    change (membersFrom read _ true s (m.text ++ '}' :: rest)).toOption = _
    rw [toOption_membersFrom_text hread (hw m List.mem_cons_self) hms
      (ends_close hms.value.after (.inr (.inr rfl)) rest)]
    simp only [membersFrom_brace rest (isSpace_of_isSpaces hms.value.after), List.map_cons,
      List.map_nil, List.foldlM_cons, List.foldlM_nil]
    cases Tree.accept step s m.entry <;> rfl
  | cons n members ih =>
    obtain ⟨fuel, rfl⟩ := Nat.exists_eq_succ_of_ne_zero (Nat.ne_zero_of_lt hf)
    obtain ⟨hms, hs⟩ := List.forall_mem_cons.1 hs
    obtain ⟨hmw, hw⟩ := List.forall_mem_cons.1 hw
    obtain ⟨cs, hc⟩ :=
      exists_skipSpace_members (hs n List.mem_cons_self) spaces members ('}' :: rest)
    have hentries : (m :: n :: members).map Member.entry
        = m.entry :: (n :: members).map Member.entry := rfl
    rw [List.map_cons, List.map_cons, row_cons_cons, List.append_assoc, List.cons_append,
      toOption_membersFrom_text hread hmw hms (ends_close hms.value.after (.inl rfl) _),
      ← List.map_cons, hentries, List.foldlM_cons]
    cases Tree.accept step s m.entry with
    | none => rfl
    | some s' =>
      rw [Option.bind_some, membersFrom_comma hms.value.after hc,
        ih hs hw (Nat.lt_of_succ_lt_succ hf)]
      rfl

/-- The members of a written object are folded up. -/
theorem toOption_members {inner : List Char} {ms : List Member} (hinner : IsSpaces inner)
    (hs : ∀ m ∈ ms, m.IsSpelled) (hw : ∀ m ∈ ms, Writes m.value.tree m.value.chars)
    (start : σ) (rest : List Char) :
  (members read start (row inner (ms.map Member.text) ++ '}' :: rest)).toOption
    = ((Tree.object (ms.map Member.entry)).fold? step start).map (·, rest)
  := by
  cases ms with
  | nil =>
    rw [List.map_nil, row, members, membersFrom_brace rest (isSpace_of_isSpaces hinner)]
    rfl
  | cons m ms =>
    have hlength := length_le_row inner ((m :: ms).map Member.text)
    apply toOption_membersFrom_row hread hs hw
    simp only [List.length_map, List.length_cons, List.length_append] at hlength ⊢
    omega

theorem decodes_object (start : σ) (tree : Tree) :
  Decodes (object read start) tree (tree.fold? step start)
  := by
  intro chars spaces rest h hs hr
  have hskip := skipSpace_writes h hs rest
  cases tree with
  | object entries =>
    cases h with
    | @object inner ms hinner hms hw =>
      rw [object, hskip, List.cons_append, List.append_assoc, List.singleton_append]
      apply toOption_members hread hinner hms hw
  | _ =>
    apply toOption_object_of_ne
    rw [hskip]
    apply append_ne_cons h (by simp [Tree.openings, numberOpenings])

end Objects

/-! ### Whole texts -/

/-- A text that holds a tree is decoded like the tree. -/
theorem toOption_document {α : Type} {read : Reader α} {tree : Tree} {result : Option α}
    (h : Decodes read tree result) {text : String} (ht : Holds text tree) :
  (document read text).toOption = result
  := by
  obtain ⟨e, rfl, hs, hw, htext⟩ := ht
  have hread := h hw hs.before (ends_of_isSpaces hs.after)
  have hrest : skipSpace e.after = [] :=
    List.dropWhile_eq_nil_iff.2 (isSpace_of_isSpaces hs.after)
  rw [document, htext, Element.text, Outcome.toOption_bind, hread]
  cases result with
  | none => rfl
  | some a =>
    rw [Option.map_some, Option.bind_some]
    dsimp only
    rw [if_pos hrest]
    rfl

end Localization.Json

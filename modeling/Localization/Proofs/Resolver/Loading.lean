import Localization.Proofs.Json.Decoding
import Localization.Proofs.Table.Lookup
import Localization.Resolver.Reader

/-!
# Message tables are loaded exactly or not at all

A text that holds an object is read member by member: each value is a message, which may be
missing, and is inserted under its key (`decodes_readTable`).  Only then are the missing messages
left out, and so a key has a message exactly when the last member with that key is a string.  A
value that is no message makes the whole text fail, also when a later member repeats its key
(`ofJson_exactly`).
-/

namespace Localization.Resolver

open Json

/-- A message as a value: a string, or `null` when there is none. -/
def messageTree : Option String → Tree
  | none => .null
  | some message => .string (some message)

/-- The entries of a message table as an object. -/
def entriesTree (entries : List (String × Option String)) : Tree :=
  .object (entries.map fun e => (some e.1, messageTree e.2))

/-- The value can stand in a message table: it is `null` or a string. -/
def IsMessage (tree : Tree) : Prop :=
  tree = .null ∨ ∃ text, tree = .string text

/-- What a member does to the table. -/
def insertMessage (key : String) (table : Table String (Option String)) (tree : Tree) :
    Option (Table String (Option String)) :=
  tree.message?.map (table.insert key)

theorem decodesValue_readMember (key : String) (table : Table String (Option String))
    (tree : Tree) :
  DecodesValue (readMember key table) tree (insertMessage key table tree)
  := by
  intro chars before spaces rest h hb hs hr
  rw [readMember, Outcome.toOption_bind, decodesValue_value (decodes_string? tree) h hb hs hr,
    insertMessage]
  cases tree.message? <;> rfl

/-- A message table is read by inserting its members from left to right. -/
theorem decodes_readTable (tree : Tree) :
  Decodes readTable tree (tree.fold? insertMessage .empty)
  := decodes_object decodesValue_readMember .empty tree

/-- A text that holds a tree makes the table of the tree, the missing messages left out. -/
theorem toOption_messagesOfJson {text : String} {tree : Tree} (h : Holds text tree) :
  (messagesOfJson text).toOption
    = (tree.fold? insertMessage .empty).map fun table => table.filterMapValues id
  := by
  rw [messagesOfJson, Outcome.toOption_map, toOption_document (decodes_readTable tree) h]

/-! ### Tables of messages -/

theorem fold?_entriesTree (entries : List (String × Option String)) :
  (entriesTree entries).fold? insertMessage .empty = some (.ofList entries)
  := by
  have hstep : ∀ (table : Table String (Option String)) (e : String × Option String),
      Tree.accept insertMessage table (some e.1, messageTree e.2)
        = some (table.insert e.1 e.2) := by
    rintro table ⟨key, _ | message⟩
    · rfl
    · rfl
  rw [entriesTree, Tree.fold?, List.foldlM_map]
  simp only [hstep]
  apply List.foldlM_pure

/-- A message is found when the last entry with its key holds it. -/
theorem mem_entries_ofList_iff (entries : List (String × Option String)) (key message : String) :
  (key, message) ∈ ((Table.ofList entries).filterMapValues id).entries
    ↔ ∃ before after, entries = before ++ (key, some message) :: after ∧ ∀ e ∈ after, e.1 ≠ key
  := by
  rw [← Table.get?_eq_some_iff_mem, Table.get?_filterMapValues, Table.get?_ofList,
    Option.bind_eq_some_iff]
  simp only [id_eq, exists_eq_right, List.lookup_eq_some_iff]
  constructor
  · rintro ⟨after, before, h, hne⟩
    refine ⟨before.reverse, after.reverse, ?_, ?_⟩
    · rw [← List.reverse_reverse entries, h]
      simp
    · intro e he
      exact (bne_iff_ne.1 (hne e (List.mem_reverse.1 he))).symm
  · rintro ⟨before, after, rfl, hne⟩
    refine ⟨after.reverse, before.reverse, by simp, ?_⟩
    intro e he
    exact bne_iff_ne.2 (hne e (List.mem_reverse.1 he)).symm

/-! ### Other values -/

theorem message?_eq_none {tree : Tree} (h : ¬ IsMessage tree) : tree.message? = none := by
  cases tree with
  | null => exact absurd (.inl rfl) h
  | string text => exact absurd (.inr ⟨text, rfl⟩) h
  | _ => rfl

/-- What is not an object of messages has no table. -/
theorem fold?_eq_none {tree : Tree}
    (h : ∀ members, tree = .object members → ∃ m ∈ members, ¬ IsMessage m.2) :
  tree.fold? insertMessage .empty = none
  := by
  cases tree with
  | object members =>
    obtain ⟨m, hm, hmessage⟩ := h members rfl
    apply Tree.foldlM_accept_eq_none hm
    intro key table
    rw [insertMessage, message?_eq_none hmessage]
    rfl
  | _ => rfl

/-- A text that holds an object of messages makes a resolver with exactly the last message of each
key, and a text that holds anything else makes none. -/
theorem ofJson_exactly (text : String) :
  (∀ entries, Holds text (entriesTree entries) → ∃ resolver, ofJson text = .ok resolver
    ∧ ∀ key message, (key, message) ∈ resolver.messages.entries
      ↔ ∃ before after, entries = before ++ (key, some message) :: after
        ∧ ∀ e ∈ after, e.1 ≠ key)
  ∧ ∀ tree, Holds text tree
    → (∀ members, tree = .object members → ∃ m ∈ members, ¬ IsMessage m.2)
    → ∃ fault, ofJson text = .error (.badTable fault)
  := by
  constructor
  · intro entries h
    have hmessages := toOption_messagesOfJson h
    rw [fold?_entriesTree, Option.map_some, Outcome.toOption_eq_some_iff] at hmessages
    refine ⟨{ messages := (Table.ofList entries).filterMapValues id }, ?_, ?_⟩
    · rw [ofJson, hmessages]
    · apply mem_entries_ofList_iff
  · intro tree h hbad
    have hmessages := toOption_messagesOfJson h
    rw [fold?_eq_none hbad, Option.map_none] at hmessages
    cases hread : messagesOfJson text with
    | ok messages =>
      rw [hread] at hmessages
      cases hmessages
    | error fault => exact ⟨fault, by rw [ofJson, hread]⟩

/-- A later `null` takes a message away and a later message brings one back; a number is refused
although a string follows it under the same key. -/
theorem ofJson_exactly_repeated :
  let entries := [("a", some "x"), ("b", none), ("a", none), ("b", some "/n")]
  let text := "\x7b \"a\":\"x\",\"\\u0062\" : null,\n\"a\":null ,\"b\":\"\\/n\"\x7d"
  let bad := "\x7b\"a\":1,\"a\":\"x\"\x7d "
  Holds text (entriesTree entries)
    ∧ (∃ resolver, ofJson text = .ok resolver
      ∧ ∀ key message, (key, message) ∈ resolver.messages.entries
        ↔ ∃ before after, entries = before ++ (key, some message) :: after
          ∧ ∀ e ∈ after, e.1 ≠ key)
    ∧ ∃ fault, ofJson bad = .error (.badTable fault)
  := by
  intro entries text bad
  have hblank : IsSpaces [] := List.forall_mem_nil _
  have hspace : IsSpaces [' '] := by simp [IsSpaces]
  have hline : IsSpaces ['\n'] := by simp [IsSpaces]
  have ha := isString_self "a" rfl
  have hb := isString_self "b" rfl
  have hx := isString_self "x" rfl
  have hb' : IsString (some "b") "\"\\u0062\"".toList := by
    have hdigits : IsHex 'b'.toNat ['0', '0', '6', '2'] := by
      refine ⟨0, 0, 6, 2, ?_, rfl⟩
      exact .cons (.inl rfl) (.cons (.inl rfl) (.cons (.inl rfl) (.cons (.inl rfl) .nil)))
    have hspells : Spells "b".toList "\\u0062".toList := .cons (.number hdigits) .nil
    exact .text hspells
  have hn : IsString (some "/n") "\"\\/n\"".toList := by
    have hslash : ('/', '/') ∈ shortEscapes := by decide
    have hspells : Spells "/n".toList "\\/n".toList := .cons (.short hslash) (spells_self rfl)
    exact .text hspells
  have hentries : Holds text (entriesTree entries) := by
    let m₁ : Member := {
      before := [' ']
      key := some "a"
      chars := "\"a\"".toList
      value := { tree := messageTree (some "x"), chars := "\"x\"".toList } }
    let m₂ : Member := {
      key := some "b"
      chars := "\"\\u0062\"".toList
      after := [' ']
      value := { before := [' '], tree := .null, chars := "null".toList } }
    let m₃ : Member := {
      before := ['\n']
      key := some "a"
      chars := "\"a\"".toList
      value := { tree := .null, chars := "null".toList, after := [' '] } }
    let m₄ : Member := {
      key := some "b"
      chars := "\"b\"".toList
      value := { tree := messageTree (some "/n"), chars := "\"\\/n\"".toList } }
    have hs : ∀ m ∈ [m₁, m₂, m₃, m₄], m.IsSpelled := by
      simp only [List.forall_mem_cons]
      exact ⟨⟨ha, hspace, hblank, hblank, hblank⟩, ⟨hb', hblank, hspace, hspace, hblank⟩,
        ⟨ha, hline, hblank, hblank, hspace⟩, isSpelled_of_isString hb _ _, List.forall_mem_nil _⟩
    have hw : ∀ m ∈ [m₁, m₂, m₃, m₄], Writes m.value.tree m.value.chars := by
      simp only [List.forall_mem_cons]
      exact ⟨.string hx, .null, .null, .string hn, List.forall_mem_nil _⟩
    exact holds_object hblank hblank hblank hs hw (by decide +kernel)
  have hbad : Holds bad
      (.object [(some "a", .number ['1']), (some "a", messageTree (some "x"))]) := by
    let m₁ : Member := {
      key := some "a"
      chars := "\"a\"".toList
      value := { tree := .number ['1'], chars := ['1'] } }
    let m₂ : Member := {
      key := some "a"
      chars := "\"a\"".toList
      value := { tree := messageTree (some "x"), chars := "\"x\"".toList } }
    have hs : ∀ m ∈ [m₁, m₂], m.IsSpelled := by
      simp only [List.forall_mem_cons]
      exact ⟨isSpelled_of_isString ha _ _, isSpelled_of_isString ha _ _, List.forall_mem_nil _⟩
    have hone : IsNumber ['1'] :=
      @IsNumber.mk [] ['1'] [] [] (.inl rfl) ⟨⟨by decide, by simp⟩, by decide⟩ .missing .missing
    have hw : ∀ m ∈ [m₁, m₂], Writes m.value.tree m.value.chars := by
      simp only [List.forall_mem_cons]
      exact ⟨.number hone, .string hx, List.forall_mem_nil _⟩
    exact holds_object hblank hblank hspace hs hw (by decide +kernel)
  refine ⟨hentries, (ofJson_exactly text).1 entries hentries, (ofJson_exactly bad).2 _ hbad ?_⟩
  intro members h
  obtain rfl := Tree.object.inj h
  refine ⟨_, List.mem_cons_self, ?_⟩
  rintro (h | ⟨_, h⟩)
  · cases h
  · cases h

end Localization.Resolver

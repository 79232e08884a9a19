import Localization.Config.Reader
import Localization.Proofs.Json.Decoding

/-!
# Configurations are decoded member by member

A configuration is read from an object by setting a field for each member whose key is that of a
`Config.Field` and by skipping the value of any other member.  A field is set once
(`Draft.length_value?_set`), and its value does not depend on what was set before
(`Draft.exists_set`).  So the order of the members does not matter, nor do members with other keys,
and a field that no member sets has its default; a key that comes twice makes the text fail
(`ofJson_of_holds`).
-/

namespace Localization

open Json

/-! ### Formats -/

/-- The format that a tree names, as a string or as the only key of an object. -/
def Format.ofTree? : Tree → Option Format
  | .string text => text.bind ofName?
  | .object [m] =>
    m.1.bind fun name => (ofName? name).bind fun format => m.2.null?.map fun _ => format
  | _ => none

theorem Format.ofTree?_name (format : Format) :
  ofTree? (.string (some format.name)) = some format
  := by
  cases format <;> rfl

theorem Format.toOption_read_of_ne {text : List Char} (hq : ∀ cs, skipSpace text ≠ '"' :: cs)
    (hb : ∀ cs, skipSpace text ≠ '{' :: cs) :
  (read text).toOption = none
  := by
  rw [read]
  split
  · rfl
  · next heq => exact absurd heq (hq _)
  · next heq => exact absurd heq (hb _)
  · rfl

/-- The first member of an object names the format, and the object ends after it. -/
theorem Format.toOption_read_member {m : Member} (hw : Writes m.value.tree m.value.chars)
    (hs : m.IsSpelled) {text rest : List Char} (htext : skipSpace text = '{' :: (m.text ++ rest))
    (hr : Ends (m.value.after ++ rest)) :
  (read text).toOption
    = m.key.bind fun name => (ofName? name).bind fun format =>
      m.value.tree.null?.bind fun _ =>
        (endMembers (m.value.after ++ rest)).toOption.map (format, ·)
  := by
  obtain ⟨body, hnext, hkey⟩ := hs.exists_nextKey_eq rest
  rw [read, htext]
  change (nextKey true (m.text ++ rest) >>= _).toOption = _
  rw [hnext, Outcome.ok_bind]
  dsimp only
  rw [Outcome.toOption_bind, hkey]
  cases m.key with
  | none => rfl
  | some name =>
    rw [Option.map_some, Option.bind_some, Option.bind_some]
    dsimp only
    cases ofName? name with
    | none => rfl
    | some format =>
      have hnull := decodes_null _ hw hs.value.before hr
      dsimp only
      rw [Outcome.ok_bind, colon_append hs.after, Outcome.ok_bind, Element.text_append,
        Outcome.toOption_bind, hnull]
      cases m.value.tree.null? with
      | none => rfl
      | some _ =>
        dsimp only [Option.map_some, Option.bind_some]
        cases endMembers (m.value.after ++ rest) <;> rfl

theorem Format.toOption_read_name {text body rest : List Char} {name : Option String}
    (h : skipSpace text = '"' :: (body ++ '"' :: rest))
    (hname : (stringBody (body ++ '"' :: rest)).toOption = name.map (·, rest)) :
  (read text).toOption = (name.bind ofName?).map (·, rest)
  := by
  rw [read, h]
  change (stringBody (body ++ '"' :: rest) >>= _).toOption = _
  rw [Outcome.toOption_bind, hname]
  cases name with
  | none => rfl
  | some name =>
    rw [Option.map_some, Option.bind_some, Option.bind_some]
    dsimp only
    cases ofName? name <;> rfl

/-- An object is the name of a format when it has one member, with the name as its key. -/
theorem Format.toOption_read_members {inner : List Char} {ms : List Member}
    (hinner : IsSpaces inner) (hms : ∀ m ∈ ms, m.IsSpelled)
    (hw : ∀ m ∈ ms, Writes m.value.tree m.value.chars) {text rest : List Char}
    (h : skipSpace text = '{' :: (row inner (ms.map Member.text) ++ '}' :: rest)) :
  (read text).toOption = (ofTree? (.object (ms.map Member.entry))).map (·, rest)
  := by
  obtain _ | ⟨m, _ | ⟨n, ms⟩⟩ := ms
  · have hnext := nextKey_brace (isSpace_of_isSpaces hinner) rest true
    rw [List.map_nil, row] at h
    rw [read, h]
    change (nextKey true (inner ++ '}' :: rest) >>= _).toOption = _
    rw [hnext]
    rfl
  · have hm := hms m List.mem_cons_self
    rw [toOption_read_member (hw m List.mem_cons_self) hm h
        (ends_close hm.value.after (.inr (.inr rfl)) rest),
      endMembers_brace (isSpace_of_isSpaces hm.value.after)]
    simp only [List.map_cons, List.map_nil, Member.entry, ofTree?, Option.map_bind]
    congr 1
    funext name
    simp only [Function.comp_apply, Option.map_bind]
    congr 1
    funext format
    cases m.value.tree.null? <;> rfl
  · have hm := hms m List.mem_cons_self
    rw [List.map_cons, List.map_cons, row_cons_cons, List.append_assoc, List.cons_append] at h
    rw [toOption_read_member (hw m List.mem_cons_self) hm h
        (ends_close hm.value.after (.inl rfl) _)]
    rw [endMembers_comma hm.value.after]
    change _ = none
    simp [Except.toOption]

theorem Format.decodes_read (tree : Tree) : Decodes read tree (ofTree? tree) := by
  intro chars spaces rest h hs hr
  have hskip := skipSpace_writes h hs rest
  cases tree with
  | string text =>
    cases h with
    | string h =>
      obtain ⟨body, rfl, -, hread⟩ := exists_of_isString h
      rw [List.cons_append, List.append_assoc] at hskip ⊢
      apply toOption_read_name hskip (hread rest)
  | object entries =>
    cases h with
    | object hinner hms hw =>
      rw [List.cons_append, List.append_assoc, List.singleton_append] at hskip ⊢
      apply toOption_read_members hinner hms hw hskip
  | _ =>
    apply toOption_read_of_ne
    · rw [hskip]
      apply append_ne_cons h (by simp [Tree.openings, numberOpenings])
    · rw [hskip]
      apply append_ne_cons h (by simp [Tree.openings, numberOpenings])

namespace Config

/-! ### Fields -/

/-- The fields of a configuration. -/
inductive Field where
  | extensions
  | ignores
  | component
  | format
  deriving DecidableEq

namespace Field

/-- The key of a field. -/
def key : Field → String
  | extensions => "extensions"
  | ignores => "ignores"
  | component => "component"
  | format => "format"

/-- The field of a key. -/
def ofKey? (key : String) : Option Field :=
  [extensions, ignores, component, format].find? (·.key = key)

theorem ofKey?_key (f : Field) : ofKey? f.key = some f := by
  cases f <;> rfl

theorem key_of_ofKey? {key : String} {f : Field} (h : ofKey? key = some f) : f.key = key := by
  simpa using List.find?_some h

theorem ne_key_of_ofKey?_eq_none {key : String} (h : ofKey? key = none) (f : Field) :
  ¬ some key = some f.key
  := by
  intro heq
  rw [Option.some.inj heq, ofKey?_key] at h
  cases h

theorem key_ne {f g : Field} (h : g ≠ f) : g.key ≠ f.key := by
  intro hkey
  have hsome := ofKey?_key g
  rw [hkey, ofKey?_key] at hsome
  exact h (Option.some.inj hsome).symm

end Field

/-- A list of strings as a value. -/
def stringsTree (texts : List String) : Tree :=
  .array (texts.map fun text => .string (some text))

/-- The value of a field of the draft, as it stands in an object. -/
def Draft.value? (d : Draft) : Field → Option Tree
  | .extensions => d.extensions.map stringsTree
  | .ignores => d.ignores.map stringsTree
  | .component => d.component.map fun name => .string (some name)
  | .format => d.format.map fun format => .string (some format.name)

/-- The draft with a field set, if it is not set yet and the value is of the field's form. -/
def Draft.set (f : Field) (d : Draft) (tree : Tree) : Option Draft :=
  match f with
  | .extensions =>
    once? d.extensions (tree.items? Tree.text?) fun x => { d with extensions := some x }
  | .ignores => once? d.ignores (tree.items? Tree.text?) fun x => { d with ignores := some x }
  | .component => once? d.component tree.text? fun x => { d with component := some x }
  | .format => once? d.format (Format.ofTree? tree) fun x => { d with format := some x }

/-- What a member does to the draft. -/
def Draft.accept (key : String) (d : Draft) (tree : Tree) : Option Draft :=
  match Field.ofKey? key with
  | some f => d.set f tree
  | none => some d

/-- The values at a key, in order. -/
def valuesAt (key : String) (members : List (Option String × Tree)) : List Tree :=
  (members.filter fun m => m.1 = some key).map Prod.snd

/-! ### Reading the members -/

theorem decodesValue_readMember (key : String) (d : Draft) (tree : Tree) :
  DecodesValue (readMember key d) tree (d.accept key tree)
  := by
  have hstrings := decodes_array decodes_string tree
  unfold readMember
  split
  · exact decodesValue_once hstrings d.extensions _
  · exact decodesValue_once hstrings d.ignores _
  · exact decodesValue_once (decodes_string tree) d.component _
  · exact decodesValue_once (Format.decodes_read tree) d.format _
  · next he hi hc hf =>
    have hkey : Field.ofKey? key = none := by
      rw [Field.ofKey?, List.find?_eq_none]
      rintro (_ | _ | _ | _) - h
      all_goals
        have hkey := (of_decide_eq_true h).symm
        simp_all [Field.key]
    rw [Draft.accept, hkey]
    apply decodesValue_value
    intro chars spaces rest hw hs hr
    dsimp only
    rw [skipValue_writes hw hs hr]
    rfl

theorem toOption_draft_ofJson {text : String} {members : List (Option String × Tree)}
    (h : Holds text (.object members)) :
  (Draft.ofJson text).toOption = members.foldlM (Tree.accept Draft.accept) {}
  := by
  apply toOption_document _ h
  intro chars spaces rest hw hs hr
  have hskip := skipSpace_writes hw hs rest
  cases hw with
  | @object inner ms hinner hms hmw =>
    rw [List.cons_append, List.append_assoc, List.singleton_append] at hskip ⊢
    rw [Draft.read, hskip]
    apply toOption_members decodesValue_readMember hinner hms hmw

/-! ### Setting a field -/

theorem items?_stringsTree (texts : List String) :
  (stringsTree texts).items? Tree.text? = some texts
  := by
  rw [stringsTree, Tree.items?, List.mapM_map]
  induction texts with
  | nil => rfl
  | cons text texts ih =>
    rw [List.mapM_cons, ih]
    rfl

theorem eq_of_map_eq {α : Type} {write : α → Tree} {decode : Tree → Option α}
    (h : ∀ a, decode (write a) = some a) {a b : Option α} (hab : a.map write = b.map write) :
  a = b
  := by
  apply Option.map_injective _ hab
  intro x y hxy
  have hx := h x
  rw [hxy, h y] at hx
  exact (Option.some.inj hx).symm

theorem Draft.eq_of_value? {d d' : Draft} (h : ∀ f, d.value? f = d'.value? f) : d = d' := by
  obtain ⟨extensions, ignores, component, format⟩ := d
  obtain ⟨extensions', ignores', component', format'⟩ := d'
  obtain rfl := eq_of_map_eq items?_stringsTree (h .extensions)
  obtain rfl := eq_of_map_eq items?_stringsTree (h .ignores)
  obtain rfl := @eq_of_map_eq _ _ Tree.text? (fun _ => rfl) _ _ (h .component)
  obtain rfl := eq_of_map_eq Format.ofTree?_name (h .format)
  rfl

/-- What is not there yet is set to what is written in a tree. -/
theorem exists_once? {α σ : Type} {write : α → Tree} {decode : Tree → Option α}
    (h : ∀ a, decode (write a) = some a) {old new : Option α} {tree : Tree}
    (hold : old.map write = none) (hnew : new.map write = some tree) (set : α → σ) :
  ∃ a, once? old (decode tree) set = some (set a) ∧ write a = tree
  := by
  obtain ⟨a, -, rfl⟩ := Option.map_eq_some_iff.1 hnew
  use a
  rw [once?_eq_some_iff, h]
  exact ⟨⟨Option.map_eq_none_iff.1 hold, a, rfl, rfl⟩, rfl⟩

/-- A field that is not set yet is set to the value that another draft has there. -/
theorem Draft.exists_set {d d' : Draft} {f : Field} {tree : Tree} (hd : d.value? f = none)
    (hd' : d'.value? f = some tree) :
  ∃ e, d.set f tree = some e ∧ ∀ g, e.value? g = if g = f then some tree else d.value? g
  := by
  cases f with
  | extensions =>
    obtain ⟨x, hx, rfl⟩ := exists_once? items?_stringsTree hd hd' _
    refine ⟨_, hx, ?_⟩
    rintro (_ | _ | _ | _) <;> rfl
  | ignores =>
    obtain ⟨x, hx, rfl⟩ := exists_once? items?_stringsTree hd hd' _
    refine ⟨_, hx, ?_⟩
    rintro (_ | _ | _ | _) <;> rfl
  | component =>
    obtain ⟨x, hx, rfl⟩ := @exists_once? _ _ _ Tree.text? (fun _ => rfl) _ _ _ hd hd' _
    refine ⟨_, hx, ?_⟩
    rintro (_ | _ | _ | _) <;> rfl
  | format =>
    obtain ⟨x, hx, rfl⟩ := exists_once? Format.ofTree?_name hd hd' _
    refine ⟨_, hx, ?_⟩
    rintro (_ | _ | _ | _) <;> rfl

/-- A field is set once. -/
theorem Draft.length_value?_set {d d' : Draft} {f : Field} {tree : Tree}
    (h : d.set f tree = some d') (g : Field) :
  (d'.value? g).toList.length = (d.value? g).toList.length + if g = f then 1 else 0
  := by
  cases f with
  | _ =>
    obtain ⟨hnone, x, -, rfl⟩ := once?_eq_some_iff.1 h
    cases g <;> simp [value?, hnone]

/-! ### Folding the members -/

theorem valuesAt_cons (key : String) (m : Option String × Tree)
    (members : List (Option String × Tree)) :
  valuesAt key (m :: members)
    = (if m.1 = some key then [m.2] else []) ++ valuesAt key members
  := by
  rw [valuesAt, List.filter_cons]
  split
  · next h => rw [if_pos (of_decide_eq_true h)]; rfl
  · next h => rw [if_neg (by simpa using h)]; rfl

theorem eq_of_toList_append {α : Type} {a b : Option α} {x : α} {xs : List α}
    (h : a.toList ++ ([x] ++ xs) = b.toList) :
  a = none ∧ b = some x ∧ xs = []
  := by
  cases a with
  | some _ => cases b <;> simp at h
  | none =>
    cases b with
    | none => simp at h
    | some y => simpa [eq_comm] using h

/-- Members that give each field the value that a draft has there, if it is not set already, lead
to this draft. -/
theorem foldlM_accept_eq_some {members : List (Option String × Tree)} {d d' : Draft}
    (hkeys : ∀ m ∈ members, m.1 ≠ none)
    (h : ∀ f : Field, (d.value? f).toList ++ valuesAt f.key members = (d'.value? f).toList) :
  members.foldlM (Tree.accept Draft.accept) d = some d'
  := by
  induction members generalizing d with
  | nil =>
    obtain rfl : d = d' := by
      apply Draft.eq_of_value?
      intro f
      have hf := h f
      rw [valuesAt, List.filter_nil, List.map_nil, List.append_nil] at hf
      cases hd : d.value? f <;> cases hd' : d'.value? f <;> simp_all
    rfl
  | cons m members ih =>
    obtain ⟨hm, hms⟩ := List.forall_mem_cons.1 hkeys
    obtain ⟨_ | key, tree⟩ := m
    · exact absurd rfl hm
    rw [List.foldlM_cons, Tree.accept, Option.bind_some, Draft.accept]
    simp only [valuesAt_cons] at h
    cases hf : Field.ofKey? key with
    | none =>
      apply ih hms
      intro f
      have hff := h f
      rwa [if_neg (Field.ne_key_of_ofKey?_eq_none hf f)] at hff
    | some f =>
      obtain rfl := Field.key_of_ofKey? hf
      have hff := h f
      rw [if_pos rfl] at hff
      obtain ⟨hd, hd', hvalues⟩ := eq_of_toList_append hff
      obtain ⟨e, he, hvalue⟩ := Draft.exists_set hd hd'
      dsimp only
      rw [he]
      apply ih hms
      intro g
      rw [hvalue]
      by_cases hg : g = f
      · rw [if_pos hg, hg, hvalues, hd']
        rfl
      · have hne : ¬ some f.key = some g.key := fun heq =>
          Field.key_ne hg (Option.some.inj heq).symm
        have hgg := h g
        rw [if_neg hne] at hgg
        rwa [if_neg hg]

/-- Members that are all taken give each field as many values as it has at the end. -/
theorem length_valuesAt_of_foldlM {members : List (Option String × Tree)} {d d' : Draft}
    (h : members.foldlM (Tree.accept Draft.accept) d = some d') (f : Field) :
  (d'.value? f).toList.length = (d.value? f).toList.length + (valuesAt f.key members).length
  := by
  induction members generalizing d with
  | nil =>
    obtain rfl := Option.some.inj h
    rfl
  | cons m members ih =>
    rw [List.foldlM_cons] at h
    obtain ⟨e, he, h⟩ := Option.bind_eq_some_iff.1 h
    obtain ⟨key, hkey, he⟩ := Option.bind_eq_some_iff.1 he
    rw [ih h, valuesAt_cons, hkey, List.length_append, ← Nat.add_assoc]
    congr 1
    rw [Draft.accept] at he
    cases hf : Field.ofKey? key with
    | none =>
      rw [hf] at he
      obtain rfl := Option.some.inj he
      rw [if_neg (Field.ne_key_of_ofKey?_eq_none hf f)]
      rfl
    | some g =>
      rw [hf] at he
      obtain rfl := Field.key_of_ofKey? hf
      rw [Draft.length_value?_set he f]
      by_cases hg : f = g
      · rw [if_pos hg, hg, if_pos rfl]
        rfl
      · have hne : ¬ some g.key = some f.key := fun heq =>
          Field.key_ne hg (Option.some.inj heq).symm
        rw [if_neg hg, if_neg hne]
        rfl

/-- A text that holds an object, each key of which has a text, makes the configuration of its
members, whatever their order and whatever stands at other keys; a field without a member has its
default.  A key of a field that comes twice makes the text fail. -/
theorem ofJson_of_holds {text : String} {members : List (Option String × Tree)}
    (h : Holds text (.object members)) :
  (∀ d : Draft, (∀ m ∈ members, m.1 ≠ none)
    → (∀ f : Field, valuesAt f.key members = (d.value? f).toList)
    → ofJson text = .ok {
        extensions := d.extensions.getD ["jsx"]
        ignores := d.ignores.getD []
        component := d.component.getD "LocalizeText"
        format := d.format.getD .json })
  ∧ ∀ f : Field, 2 ≤ (valuesAt f.key members).length → ∃ fault, ofJson text = .error fault
  := by
  have hdraft := toOption_draft_ofJson h
  constructor
  · intro d hkeys hvalues
    have hempty : ∀ f : Field,
        (({} : Draft).value? f).toList ++ valuesAt f.key members = (d.value? f).toList := by
      intro f
      rw [← hvalues f]
      cases f <;> rfl
    rw [foldlM_accept_eq_some hkeys hempty, Outcome.toOption_eq_some_iff] at hdraft
    rw [ofJson, hdraft]
    rfl
  · intro f hf
    cases hread : Draft.ofJson text with
    | error fault => exact ⟨fault, by rw [ofJson, hread]; rfl⟩
    | ok d =>
      rw [hread] at hdraft
      have hlength := length_valuesAt_of_foldlM hdraft.symm f
      have hle : (d.value? f).toList.length ≤ 1 := by
        cases d.value? f <;> simp
      omega

/-- One of the four fields, after a member with another key that holds an array in an array; and one
field twice. -/
theorem ofJson_of_holds_nested :
  let text := "\x7b\"x\":[[] ],\"format\":\"csv\"\x7d"
  let twice := "\x7b\"format\":\"csv\",\"x\":[[] ],\"format\":\"csv\"\x7d"
  ofJson text
      = .ok { extensions := ["jsx"], ignores := [], component := "LocalizeText", format := .csv }
    ∧ ∃ fault, ofJson twice = .error fault
  := by
  intro text twice
  have hblank : IsSpaces [] := List.forall_mem_nil _
  have hspace : IsSpaces [' '] := by simp [IsSpaces]
  let inner : Element := { tree := .array [], chars := "[]".toList, after := [' '] }
  let other : Member := {
    key := some "x"
    chars := "\"x\"".toList
    value := {
      tree := .array ([inner].map Element.tree)
      chars := '[' :: (row [] ([inner].map Element.text) ++ [']']) } }
  let format : Member := {
    key := some "format"
    chars := "\"format\"".toList
    value := { tree := .string (some "csv"), chars := "\"csv\"".toList } }
  have hinner : Writes inner.tree inner.chars :=
    @Writes.array [] [] hblank (List.forall_mem_nil _) (List.forall_mem_nil _)
  have hother : other.IsSpelled ∧ Writes other.value.tree other.value.chars :=
    ⟨isSpelled_of_isString (isString_self "x" rfl) _ _,
      .array hblank (List.forall_mem_singleton.2 ⟨hblank, hspace⟩)
        (List.forall_mem_singleton.2 hinner)⟩
  have hformat : format.IsSpelled ∧ Writes format.value.tree format.value.chars :=
    ⟨isSpelled_of_isString (isString_self "format" rfl) _ _, .string (isString_self "csv" rfl)⟩
  have htext : Holds text (.object ([other, format].map Member.entry)) := by
    apply @holds_object text [] [] [] _ hblank hblank hblank _ _ (by decide +kernel)
    · simp only [List.forall_mem_cons]
      exact ⟨hother.1, hformat.1, List.forall_mem_nil _⟩
    · simp only [List.forall_mem_cons]
      exact ⟨hother.2, hformat.2, List.forall_mem_nil _⟩
  have htwice : Holds twice (.object ([format, other, format].map Member.entry)) := by
    apply @holds_object twice [] [] [] _ hblank hblank hblank _ _ (by decide +kernel)
    · simp only [List.forall_mem_cons]
      exact ⟨hformat.1, hother.1, hformat.1, List.forall_mem_nil _⟩
    · simp only [List.forall_mem_cons]
      exact ⟨hformat.2, hother.2, hformat.2, List.forall_mem_nil _⟩
  constructor
  · apply (ofJson_of_holds htext).1 { format := some .csv }
    · simp [other, format, Member.entry]
    · rintro (_ | _ | _ | _) <;> rfl
  · exact (ofJson_of_holds htwice).2 .format (by decide +kernel)

end Config
end Localization

import Localization.Proofs.Json.Numbers
import Localization.Proofs.Json.Spelling

/-!
# Texts that hold a value

A `Tree` is a JSON value of any kind and depth.  `Writes` says which characters are a way to write
it: spaces may stand around each item of an array, each key and each value, and a string may be
spelled in any way.  A text `Holds` a tree when it is written there between spaces.

A written tree begins with a character that tells its kind (`exists_opens`), and this is how a
reader knows whether it stands before a value, before a closing bracket or before a value of the
wrong kind.
-/

namespace Localization.Json

/-- A value.  A number keeps its characters, and a string keeps the text that is spelled in it, if
one is. -/
inductive Tree where
  | null
  | boolean (b : Bool)
  | number (chars : List Char)
  | string (text : Option String)
  | array (items : List Tree)
  | object (members : List (Option String × Tree))

/-- The characters may stand between tokens. -/
def IsSpaces (spaces : List Char) : Prop :=
  ∀ c ∈ spaces, c ∈ [' ', '\t', '\n', '\r']

/-- A value, the characters it is written with and the spaces around them. -/
structure Element where
  before : List Char := []
  tree : Tree
  chars : List Char
  after : List Char := []

/-- A key, the characters it is written with and the spaces around them, and its value. -/
structure Member where
  before : List Char := []
  key : Option String
  chars : List Char
  after : List Char := []
  value : Element

namespace Element

/-- The characters of an element. -/
def text (e : Element) : List Char :=
  e.before ++ (e.chars ++ e.after)

/-- What stands around the value is spaces. -/
structure IsSpaced (e : Element) : Prop where
  before : IsSpaces e.before
  after : IsSpaces e.after

end Element

namespace Member

/-- The key and the value. -/
def entry (m : Member) : Option String × Tree :=
  (m.key, m.value.tree)

/-- The characters of a member. -/
def text (m : Member) : List Char :=
  m.before ++ (m.chars ++ (m.after ++ ':' :: m.value.text))

/-- The key is a string, and what stands around it and around the value is spaces. -/
structure IsSpelled (m : Member) : Prop where
  key : IsString m.key m.chars
  before : IsSpaces m.before
  after : IsSpaces m.after
  value : m.value.IsSpaced

end Member

/-- The pieces with commas between them, or else only spaces. -/
def row (spaces : List Char) : (pieces : List (List Char)) → List Char
  | [] => spaces
  | [piece] => piece
  | piece :: pieces => piece ++ ',' :: row spaces pieces

/-- The characters are a way to write the tree. -/
inductive Writes : Tree → List Char → Prop where
  | null : Writes .null ['n', 'u', 'l', 'l']
  | true : Writes (.boolean true) ['t', 'r', 'u', 'e']
  | false : Writes (.boolean false) ['f', 'a', 'l', 's', 'e']
  | number {chars : List Char} (h : IsNumber chars) : Writes (.number chars) chars
  | string {text : Option String} {chars : List Char} (h : IsString text chars) :
      Writes (.string text) chars
  | array {spaces : List Char} {items : List Element} (hs : IsSpaces spaces)
      (hi : ∀ e ∈ items, e.IsSpaced) (h : ∀ e ∈ items, Writes e.tree e.chars) :
      Writes (.array (items.map Element.tree))
        ('[' :: (row spaces (items.map Element.text) ++ [']']))
  | object {spaces : List Char} {members : List Member} (hs : IsSpaces spaces)
      (hm : ∀ m ∈ members, m.IsSpelled) (h : ∀ m ∈ members, Writes m.value.tree m.value.chars) :
      Writes (.object (members.map Member.entry))
        ('{' :: (row spaces (members.map Member.text) ++ ['}']))

/-- The text holds the tree and nothing else. -/
def Holds (text : String) (tree : Tree) : Prop :=
  ∃ e : Element, e.tree = tree ∧ e.IsSpaced ∧ Writes e.tree e.chars ∧ text.toList = e.text

/-- A text of a written object, with or without spaces around it, holds the object. -/
theorem holds_object {text : String} {before inner after : List Char} {members : List Member}
    (hb : IsSpaces before) (hi : IsSpaces inner) (ha : IsSpaces after)
    (hs : ∀ m ∈ members, m.IsSpelled) (hw : ∀ m ∈ members, Writes m.value.tree m.value.chars)
    (ht : text.toList
      = before ++ ('{' :: (row inner (members.map Member.text) ++ ['}']) ++ after)) :
  Holds text (.object (members.map Member.entry))
  := ⟨{ before, tree := _, chars := _, after }, rfl, ⟨hb, ha⟩, .object hi hs hw, ht⟩

/-- No spaces need to stand anywhere. -/
theorem isSpelled_of_isString {key : Option String} {chars : List Char} (h : IsString key chars)
    (tree : Tree) (valueChars : List Char) :
  Member.IsSpelled { key, chars, value := { tree, chars := valueChars } }
  where
    key := h
    before := List.forall_mem_nil _
    after := List.forall_mem_nil _
    value := ⟨List.forall_mem_nil _, List.forall_mem_nil _⟩

/-! ### Pieces of a text -/

theorem Element.text_append (e : Element) (rest : List Char) :
  e.text ++ rest = e.before ++ (e.chars ++ (e.after ++ rest))
  := by
  simp [text]

theorem Member.text_append (m : Member) (rest : List Char) :
  m.text ++ rest = m.before ++ (m.chars ++ (m.after ++ ':' :: (m.value.text ++ rest)))
  := by
  simp [text]

theorem row_cons_cons (spaces p q : List Char) (ps : List (List Char)) :
  row spaces (p :: q :: ps) = p ++ ',' :: row spaces (q :: ps)
  := rfl

theorem length_le_row (spaces : List Char) (pieces : List (List Char)) :
  pieces.length ≤ (row spaces pieces).length + 1
  := by
  induction pieces with
  | nil => simp
  | cons p ps ih =>
    cases ps with
    | nil => simp
    | cons q ps =>
      simp only [row_cons_cons, List.length_append, List.length_cons] at ih ⊢
      omega

theorem exists_row_append (spaces p : List Char) (ps : List (List Char)) (rest : List Char) :
  ∃ text, row spaces (p :: ps) ++ rest = p ++ text
  := by
  cases ps with
  | nil => exact ⟨rest, rfl⟩
  | cons q ps => exact ⟨_, by rw [row_cons_cons, List.append_assoc]⟩

/-! ### First characters -/

theorem isSpace_of_isSpaces {spaces : List Char} (h : IsSpaces spaces) :
  ∀ c ∈ spaces, isSpace c
  := by
  intro c hc
  have hmem := h c hc
  simp only [List.mem_cons, List.not_mem_nil, or_false] at hmem
  obtain rfl | rfl | rfl | rfl := hmem
  all_goals rfl

theorem ends_of_isSpaces {spaces : List Char} (hs : IsSpaces spaces) :
  Ends spaces
  := by
  intro c hc
  have hmem := hs c (List.mem_of_mem_head? hc)
  simp only [List.mem_cons, List.not_mem_nil, or_false] at hmem ⊢
  obtain h | h | h | h := hmem
  all_goals simp [h]

/-- A value ends before spaces and a comma, and before spaces and a closing bracket. -/
theorem ends_close {spaces : List Char} (hs : IsSpaces spaces) {c : Char}
    (hc : c = ',' ∨ c = ']' ∨ c = '}') (rest : List Char) :
  Ends (spaces ++ c :: rest)
  := by
  cases spaces with
  | nil =>
    intro d hd
    obtain rfl := Option.some.inj hd
    simp only [List.mem_cons, List.not_mem_nil, or_false]
    obtain h | h | h := hc
    all_goals simp [h]
  | cons s spaces =>
    intro d hd
    exact ends_of_isSpaces hs d hd

/-- The characters that a number may begin with. -/
def numberOpenings : List Char :=
  ['-', '0', '1', '2', '3', '4', '5', '6', '7', '8', '9']

/-- The characters that a tree of this kind may be written with first. -/
def Tree.openings : Tree → List Char
  | null => ['n']
  | boolean _ => ['t', 'f']
  | number _ => numberOpenings
  | string _ => ['"']
  | array _ => ['[']
  | object _ => ['{']

theorem mem_numberOpenings_of_isDigit {c : Char} (hc : c.isDigit) :
  c ∈ numberOpenings
  := by
  simp only [Char.isDigit, Bool.and_eq_true, decide_eq_true_eq] at hc
  have hge : 48 ≤ c.toNat := hc.1
  have hle : c.toNat ≤ 57 := hc.2
  rw [← Char.ofNat_toNat c]
  generalize c.toNat = n at hge hle
  interval_cases n <;> decide

theorem of_mem_numberOpenings {c : Char} (h : c ∈ numberOpenings) :
  c = '-' ∨ c.isDigit
  := by
  have hall : (numberOpenings.all fun c => c == '-' || c.isDigit) = true := rfl
  simpa using List.all_eq_true.1 hall c h

/-- A written tree begins with a character that tells its kind. -/
theorem exists_opens {tree : Tree} {chars : List Char} (h : Writes tree chars) :
  ∃ c cs, chars = c :: cs ∧ c ∈ tree.openings
  := by
  cases h with
  | null => exact ⟨'n', _, rfl, by decide⟩
  | true => exact ⟨'t', _, rfl, by decide⟩
  | false => exact ⟨'f', _, rfl, by decide⟩
  | number h =>
    obtain @⟨sign, whole, part, power, hs, hw, -, -⟩ := h
    obtain rfl | rfl := hs
    · obtain ⟨c, cs, rfl⟩ := List.exists_cons_of_ne_nil hw.1.1
      exact ⟨c, _, rfl, mem_numberOpenings_of_isDigit (hw.1.2 c List.mem_cons_self)⟩
    · exact ⟨'-', _, rfl, List.mem_cons_self⟩
  | string h =>
    obtain ⟨body, rfl, -, -⟩ := exists_of_isString h
    exact ⟨'"', _, rfl, List.mem_cons_self⟩
  | array => exact ⟨'[', _, rfl, List.mem_cons_self⟩
  | object => exact ⟨'{', _, rfl, List.mem_cons_self⟩

theorem append_ne_cons {tree : Tree} {chars : List Char} (h : Writes tree chars) {c : Char}
    (hc : c ∉ tree.openings) (rest cs : List Char) :
  chars ++ rest ≠ c :: cs
  := by
  obtain ⟨d, ds, rfl, hd⟩ := exists_opens h
  intro heq
  obtain rfl := (List.cons.inj heq).1
  exact hc hd

/-- No tree begins with a space or with a bracket that closes. -/
theorem Tree.not_close_of_mem {tree : Tree} {c : Char} (h : c ∈ tree.openings) :
  isSpace c = false ∧ c ≠ ']'
  := by
  cases tree with
  | boolean _ =>
    have hall : (['t', 'f'].all fun c => !isSpace c && c != ']') = true := rfl
    simpa using List.all_eq_true.1 hall c h
  | number _ =>
    have hall : (numberOpenings.all fun c => !isSpace c && c != ']') = true := rfl
    simpa using List.all_eq_true.1 hall c h
  | _ =>
    obtain rfl := List.mem_singleton.1 h
    exact ⟨rfl, by decide⟩

/-- A reader that skips spaces comes to the first character of a written tree. -/
theorem skipSpace_writes {tree : Tree} {chars spaces : List Char} (h : Writes tree chars)
    (hs : IsSpaces spaces) (rest : List Char) :
  skipSpace (spaces ++ (chars ++ rest)) = chars ++ rest
  := by
  obtain ⟨c, cs, rfl, hc⟩ := exists_opens h
  rw [skipSpace_append (isSpace_of_isSpaces hs), List.cons_append, skipSpace_cons (Tree.not_close_of_mem hc).1]

end Localization.Json

import Localization.Catalog
import Localization.Proofs.Attribute.Entries
import Localization.Proofs.Comment.Absence
import Localization.Proofs.Marker.Surroundings

/-!
# Messages recovered from a source

`Marker.Spelling.Spells` says that a marker is spelled with the attributes of a message, in any
order, and `Source.Spells` that a source is made of such markers, one for each message of a
list, with gaps between them.  The records of the source are then the messages, in order
(`Record.ofSource_of_spells`).
-/

namespace Localization

namespace Marker.Spelling

/-- The marker is spelled with exactly the attributes that the message has, in any order.  No
value holds `/>`, or looks like the beginning of an attribute that describes a message. -/
structure Spells (m : Spelling) (a : Attributes) : Prop where
  perm : m.entries.Perm a.entries
  isBlank : ∀ c ∈ m.blanks, Text.isBlank c
  isValid : ∀ s ∈ m.attributes, s.IsValid
  not_close : ∀ s ∈ m.attributes, ¬ close <:+: s.value
  silent : ∀ s ∈ m.attributes, ∀ name ∈ Attributes.names, Attribute.Silent name s.value

variable {m : Spelling} {a : Attributes}

theorem Spells.mem_names (h : m.Spells a) {s : Attribute.Spelling} (hs : s ∈ m.attributes) :
  s.name ∈ Attributes.names
  := by
  apply a.map_fst_entries_sublist.subset
  apply ((h.perm.map Prod.fst).mem_iff).1
  rw [entries, List.map_map]
  apply List.mem_map_of_mem hs

theorem Spells.isValid_spelling (h : m.Spells a) :
  m.IsValid where
  isBlank := h.isBlank
  isName s hs := Attributes.isName_of_mem_names s.name (h.mem_names hs)
  isValid := h.isValid
  not_close := h.not_close

theorem Spells.value? {component : Component} (hc : component.IsPlain) (h : m.Spells a)
    {name : List Char} (hn : name ∈ Attributes.names) :
  Attribute.value? name (m.chars component) = a.entries.lookup name
  := by
  have hname := Attributes.isName_of_mem_names name hn
  rw [value?_chars (fun c hm => (hc c hm).1) hname h.isValid_spelling
    (undisturbed_of_silent hname h.isValid_spelling fun s hs => h.silent s hs name hn)]
  apply Table.lookup_eq_of_perm h.perm a.nodup_map_fst_entries name

/-- The attributes of a marker are those with which it is spelled. -/
theorem Spells.ofMarker_chars {component : Component} (hc : component.IsPlain) (h : m.Spells a) :
  Attributes.ofMarker (m.chars component) = a
  := by
  obtain ⟨hid, hdescription, hmessage⟩ := a.lookup_entries
  rw [Attributes.ofMarker, h.value? hc (by decide), h.value? hc (by decide),
    h.value? hc (by decide), hid, hdescription, hmessage]
  simp

end Marker.Spelling

/-! ### Sources -/

/-- A source in which the messages are written, one marker for each, between gaps. -/
inductive Source.Spells (component : Component) : List Attributes → List Char → Prop where
  | gap {gap : List Char} (hg : Marker.IsGap component gap) : Spells component [] gap
  | marker {gap rest : List Char} {m : Marker.Spelling} {a : Attributes}
      {messages : List Attributes} (hg : Marker.IsGap component gap) (hm : m.Spells a)
      (h : Spells component messages rest) :
      Spells component (a :: messages) (gap ++ (m.chars component ++ rest))

/-- Cutting such a source leaves the markers of the messages. -/
theorem Source.Spells.ofMarker_cutFrom {component : Component} (hc : component.IsPlain)
    {messages : List Attributes} {source : List Char} (h : Source.Spells component messages source)
    (before : Option Char) :
  ((Text.cutFrom (Marker.length? component) before 0 source).filterMap Text.Segment.hit?).map
      Attributes.ofMarker
    = messages
  := by
  rw [(Marker.finds_isMarker component).cutFrom_eq_cut]
  change (Marker.findAll component source).map Attributes.ofMarker = messages
  induction h with
  | gap hg =>
    rw [hg.findAll_eq_nil hc]
    rfl
  | marker hg hm h ih =>
    rw [Marker.findAll_append hc Marker.head?_chars_append hg.not_leavesOpen,
      hg.findAll_eq_nil hc, List.nil_append,
      Marker.findAll_chars_append hm.isValid_spelling.isWellFormed, List.map_cons,
      hm.ofMarker_chars hc, ih]

/-- A source in which no line begins with a comment gives back the messages that are written in
it, in order. -/
theorem Record.ofSource_of_spells {component : Component} (hc : component.IsPlain)
    {messages : List Attributes} {source : List Char} (h : Source.Spells component messages source)
    (hs : ∀ line ∈ source.splitOn '\n', ¬ Comment.Begins line) (file : String) :
  Record.ofSource component file (String.ofList source)
    = messages.map fun a => { a with file }
  := by
  rw [Record.ofSource, String.toList_ofList, Comment.strip_eq_self hs, Marker.findAll, Text.cut]
  conv_rhs => rw [← h.ofMarker_cutFrom hc none, List.map_map]
  rfl

/-- Attributes in either quotes, with escapes, line breaks and other elements around them. -/
theorem Record.ofSource_two_messages :
  Record.ofSource .default "App.jsx"
      ("if (a //b) <LocalizeTextBox> /* <LocalizeText\n  defaultMessage='It\\'s \\\\ \"id\"'"
        ++ "\n\tid=\"a.b\"\n/> */<LocalizeText/></LocalizeTextBox>")
    = [{ id := some "a.b", defaultMessage := some "It\\'s \\\\ \"id\"", file := "App.jsx" },
      { file := "App.jsx" }]
  := by
  let message : Attributes := { id := some "a.b", defaultMessage := some "It\\'s \\\\ \"id\"" }
  let m : Marker.Spelling := {
    attributes := [
      ⟨"\n  ".toList, "defaultMessage".toList, '\'', "It\\'s \\\\ \"id\"".toList⟩,
      ⟨"\n\t".toList, "id".toList, '"', "a.b".toList⟩]
    blanks := ['\n'] }
  have hm : m.Spells message := {
    perm := List.Perm.swap _ _ []
    isBlank := by decide
    isValid := by
      intro s hs
      simp only [m, List.mem_cons, List.not_mem_nil, or_false] at hs
      obtain rfl | rfl := hs
      · exact ⟨by decide, by decide, by decide, Attribute.units_of_unitsBefore?
          "It\\'s \\\\ \"id\"'".toList (by decide)⟩
      · exact ⟨by decide, by decide, by decide, Attribute.units_of_unitsBefore?
          "a.b\"".toList (by decide)⟩
    not_close := by decide
    silent := by decide }
  have hempty : (⟨[], []⟩ : Marker.Spelling).Spells {} :=
    ⟨List.Perm.nil, by decide, nofun, nofun, nofun⟩
  have h : Source.Spells .default [message, {}]
      ("if (a //b) <LocalizeTextBox> /* ".toList ++ (m.chars .default
        ++ (" */".toList ++ (Marker.Spelling.chars .default ⟨[], []⟩
          ++ "</LocalizeTextBox>".toList)))) :=
    .marker (by decide) hm (.marker (by decide) hempty (.gap (by decide)))
  have hrecords := Record.ofSource_of_spells (by decide) h (by decide) "App.jsx"
  convert hrecords using 2
  · decide +kernel
  · rfl

end Localization

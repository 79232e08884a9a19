import Localization.FileSystem.Access
import Localization.Proofs.FileSystem.Entries
import Localization.Proofs.Outcome
import Localization.Proofs.Path.Names

/-!
# Where paths lead

A path leads to an entry that is no link (`exists_entry_of_resolve`).  The absolute path of a
location spells out its names, and joined with a path of names it is the path of what is further
down (`join_pathOf`).  It leads to the entry at the location, unless that is a link
(`resolve_pathOf`).
-/

namespace Localization.FileSystem

/-! ### The text of an absolute path -/

theorem intercalate_nil_cons (pieces : List (List Char)) :
  ['/'].intercalate ([] :: pieces) = pieces.flatMap ('/' :: ·)
  := by
  induction pieces with
  | nil => rfl
  | cons piece rest ih =>
    rw [List.intercalate_cons_of_ne_nil (List.cons_ne_nil piece rest), List.flatMap_cons, ← ih]
    cases rest with
    | nil => simp
    | cons next rest =>
      rw [List.intercalate_cons_of_ne_nil (List.cons_ne_nil next rest),
        List.intercalate_cons_of_ne_nil (List.cons_ne_nil next rest)]
      simp

variable {fs : FileSystem} {base l names : Location} {e : Entry}

theorem pathOf_eq (hne : l ≠ []) :
  pathOf l = .ofPieces ([] :: l.map String.toList)
  := by
  obtain ⟨name, l, rfl⟩ := List.exists_cons_of_ne_nil hne
  rfl

/-- There is a separator before each name. -/
theorem toList_text_pathOf (hne : l ≠ []) :
  (pathOf l).text.toList = (l.map String.toList).flatMap ('/' :: ·)
  := by
  rw [pathOf_eq hne, Path.ofPieces, String.toList_ofList, intercalate_nil_cons]

theorem toList_text_ofNames (hne : names ≠ []) :
  '/' :: (Path.ofNames names).text.toList = (names.map String.toList).flatMap ('/' :: ·)
  := by
  rw [← intercalate_nil_cons, List.intercalate_cons_of_ne_nil, Path.ofNames, Path.ofPieces,
    String.toList_ofList]
  · rfl
  · simpa using hne

/-- An absolute path does not end with a separator, unless it is the root. -/
theorem getLast?_text_pathOf (h : ∀ name ∈ l, IsName name) (hne : l ≠ []) :
  (pathOf l).text.toList.getLast? ≠ some '/'
  := by
  obtain ⟨above, name, rfl⟩ := (List.eq_nil_or_concat' l).resolve_left hne
  have hname : IsName name := h name (List.mem_append_right above List.mem_cons_self)
  have hlast : (pathOf (above ++ [name])).text.toList.getLast? = name.toList.getLast? := by
    rw [toList_text_pathOf hne, List.map_append, List.flatMap_append, List.map_singleton,
      List.flatMap_singleton, List.getLast?_append_of_ne_nil _ (List.cons_ne_nil _ _),
      List.getLast?_cons_of_ne_nil (Path.toList_ne_of_isName hname).1]
  rw [hlast]
  intro hslash
  exact hname.2.2.2 (List.mem_of_getLast? hslash)

/-! ### Joining -/

/-- A path is its text. -/
theorem eq_of_toList_text {p q : Path} (h : p.text.toList = q.text.toList) : p = q := by
  cases p
  cases q
  rw [Path.mk.injEq]
  apply String.toList_inj.1 h

theorem isAbsolute_ofNames (h : ∀ name ∈ names, IsName name) :
  (Path.ofNames names).isAbsolute = false
  := by
  rw [Path.isAbsolute, Path.anchor?_ofNames h]
  rfl

theorem toList_text_pathOf_append (hne : names ≠ []) :
  (pathOf (base ++ names)).text.toList
    = (base.map String.toList).flatMap ('/' :: ·) ++ '/' :: (Path.ofNames names).text.toList
  := by
  rw [toList_text_pathOf (List.append_ne_nil_of_right_ne_nil base hne), List.map_append,
    List.flatMap_append, toList_text_ofNames hne]

/-- To go on from a directory by names is to go to the location below it. -/
theorem join_pathOf (hbase : ∀ name ∈ base, IsName name) (hnames : ∀ name ∈ names, IsName name)
    (hne : names ≠ []) :
  (pathOf base).join (.ofNames names) = pathOf (base ++ names)
  := by
  rw [Path.join, isAbsolute_ofNames hnames, if_neg Bool.false_ne_true]
  by_cases hb : base = []
  · subst hb
    have hroot : (pathOf []).text.toList.getLast? = some '/' := rfl
    rw [if_pos (Or.inr hroot)]
    apply eq_of_toList_text
    rw [toList_text_pathOf_append hne, String.toList_append]
    rfl
  · have htext := toList_text_pathOf hb
    rw [if_neg]
    · apply eq_of_toList_text
      rw [toList_text_pathOf_append hne, String.toList_append, String.toList_append, htext,
        List.append_assoc]
      rfl
    · rintro (hempty | hslash)
      · obtain ⟨name, base, rfl⟩ := List.exists_cons_of_ne_nil hb
        rw [hempty] at htext
        cases htext
      · exact getLast?_text_pathOf hbase hb hslash

/-! ### Where a path leads -/

theorem exists_iff {p : Path} : fs.exists p ↔ ∃ l, fs.resolve p = .ok l := by
  rw [«exists», Option.isSome_iff_exists]
  simp only [Outcome.toOption_eq_some_iff]

theorem isDirectory_iff {p : Path} :
  fs.isDirectory p ↔ ∃ l, fs.resolve p = .ok l ∧ fs.get? l = some .directory
  := by
  rw [isDirectory, decide_eq_true_iff, Option.bind_eq_some_iff]
  simp only [Outcome.toOption_eq_some_iff]

theorem read_eq_ok_iff {p : Path} {bytes : ByteArray} :
  fs.read p = .ok bytes ↔ ∃ l, fs.resolve p = .ok l ∧ fs.get? l = some (.file bytes)
  := by
  rw [read, Outcome.bind_eq_ok_iff]
  apply exists_congr
  intro l
  apply and_congr_right
  intro _
  cases fs.get? l with
  | none => simp
  | some e => cases e <;> simp [pure, Except.pure]

theorem fromUTF8?_toUTF8 (text : String) : String.fromUTF8? text.toUTF8 = some text := by
  rw [String.fromUTF8?]
  apply dif_pos text.isValidUTF8

/-- Text that has been encoded is read as it was. -/
theorem readText_of_read {p : Path} {text : String} (h : fs.read p = .ok text.toUTF8) :
  fs.readText p = .ok text
  := by
  rw [readText, h, Outcome.ok_bind, fromUTF8?_toUTF8]
  rfl

/-- A walk from a directory ends at an entry that is no link. -/
theorem exists_entry_of_walkIn {directory m : Location} {pieces rest : List (List Char)}
    (hd : fs.get? directory = some .directory)
    (h : fs.walkIn directory pieces = .arrived (.occupied m rest)) :
  ∃ e, fs.get? m = some e ∧ ∀ target, e ≠ .link target
  := by
  fun_induction fs.walkIn directory pieces with
  | case1 directory =>
    cases h
    exact ⟨.directory, hd, nofun⟩
  | case2 directory piece rest' _ ih => exact ih hd h
  | case3 directory rest' _ ih =>
    apply ih _ h
    by_cases hne : directory = []
    · subst hne
      exact hd
    · apply fs.get?_parent (mem_keys_of_get? hne hd)
  | case4 => cases h
  | case5 directory piece rest' _ _ name content hfile =>
    cases h
    exact ⟨.file content, hfile, nofun⟩
  | case6 directory piece rest' _ _ name hdirectory ih => exact ih hdirectory h
  | case7 => cases h

theorem exists_entry_of_walk {m : Location} {pieces : List (List Char)} (hp : pieces ≠ [])
    (h : fs.walk l pieces = .arrived (.occupied m [])) :
  ∃ e, fs.get? m = some e ∧ ∀ target, e ≠ .link target
  := by
  rw [walk, if_neg hp] at h
  cases hl : fs.get? l with
  | none =>
    rw [hl] at h
    cases h
  | some e =>
    rw [hl] at h
    cases e with
    | directory => apply exists_entry_of_walkIn hl h
    | file content =>
      cases h
      exact absurd rfl hp
    | link target =>
      cases h
      exact absurd rfl hp

theorem exists_entry_of_follow {purpose : Purpose} {links : Nat} {m : Location}
    {pieces : List (List Char)} (hp : pieces ≠ [])
    (h : fs.follow purpose links l pieces = .ok (.occupied m [])) :
  ∃ e, fs.get? m = some e ∧ ∀ target, e ≠ .link target
  := by
  fun_induction fs.follow purpose links l pieces with
  | case1 links l pieces q hw =>
    cases h
    apply exists_entry_of_walk hp hw
  | case2 => cases h
  | case3 => cases h
  | case4 => cases h
  | case5 l pieces directory target rest hw hc links ih =>
    apply ih _ h
    apply List.append_ne_nil_of_left_ne_nil
    apply List.splitOn_ne_nil

/-- A path leads to an entry that is no link. -/
theorem exists_entry_of_resolve {p : Path} {m : Location} (h : fs.resolve p = .ok m) :
  ∃ e, fs.get? m = some e ∧ ∀ target, e ≠ .link target
  := by
  obtain ⟨q, hq, hm⟩ := Outcome.bind_eq_ok_iff.1 h
  rw [place] at hq
  split at hq
  · cases hq
  · cases q with
    | occupied m' rest =>
      cases rest with
      | nil =>
        cases hm
        apply exists_entry_of_follow _ hq
        apply List.splitOn_ne_nil
      | cons piece rest => cases hm
    | vacant directory name rest => cases hm

/-- Names lead down from a directory to an entry, unless it is a link. -/
theorem walkIn_names (h : fs.get? (base ++ names) = some e) (hlink : ∀ target, e ≠ .link target) :
  fs.walkIn base (names.map String.toList) = .arrived (.occupied (base ++ names) [])
  := by
  induction names generalizing base with
  | nil =>
    rw [List.append_nil]
    rfl
  | cons name rest ih =>
    have hname : IsName name := isName_of_get? h name (by simp)
    obtain ⟨hempty, hcurrent, hup⟩ := Path.toList_ne_of_isName hname
    rw [List.append_cons] at h ⊢
    rw [List.map_cons, walkIn, if_neg (by simp [Path.isIdle, hempty, hcurrent]), if_neg hup,
      String.ofList_toList]
    dsimp only
    by_cases hr : rest = []
    · subst hr
      rw [List.append_nil] at h ⊢
      rw [h]
      cases e with
      | file content => rfl
      | directory => rfl
      | link target => exact absurd rfl (hlink target)
    · have habove : fs.get? (base ++ [name]) = some .directory := by
        apply get?_prefix_eq h (List.prefix_append _ _)
        simpa using hr
      rw [habove]
      apply ih h

theorem pieces_pathOf (h : ∀ name ∈ l, IsName name) (hne : l ≠ []) :
  (pathOf l).pieces = [] :: l.map String.toList
  := by
  rw [Path.pieces, pathOf_eq hne, Path.ofPieces, String.toList_ofList, List.splitOn_intercalate]
  · intro piece hp
    obtain rfl | hp := List.mem_cons.1 hp
    · apply List.not_mem_nil
    · obtain ⟨name, hn, rfl⟩ := List.mem_map.1 hp
      exact (h name hn).2.2.2
  · apply List.cons_ne_nil

/-- The absolute path of an entry leads to the entry, unless it is a link. -/
theorem resolve_pathOf (h : fs.get? l = some e) (hlink : ∀ target, e ≠ .link target) :
  fs.resolve (pathOf l) = .ok l
  := by
  by_cases hl : l = []
  · subst hl
    rfl
  · have hpieces := pieces_pathOf (isName_of_get? h) hl
    have htext : (pathOf l).text ≠ "" := by
      intro hempty
      rw [Path.pieces, hempty] at hpieces
      obtain ⟨name, l, rfl⟩ := List.exists_cons_of_ne_nil hl
      cases hpieces
    have habsolute : (pathOf l).isAbsolute = true := by
      obtain ⟨name, l, rfl⟩ := List.exists_cons_of_ne_nil hl
      rw [Path.isAbsolute, Path.anchor?, hpieces]
      rfl
    have hwalk : fs.walk [] ([] :: l.map String.toList) = .arrived (.occupied l []) := by
      rw [walk, if_neg (List.cons_ne_nil _ _)]
      exact @walkIn_names fs [] l e h hlink
    rw [resolve, place, if_neg htext, start, if_pos habsolute, hpieces, maxLinks, follow, hwalk]
    rfl

/-- Where a path leads, the absolute path of that location leads as well. -/
theorem resolve_pathOf_of_resolve {p : Path} (h : fs.resolve p = .ok l) :
  fs.resolve (pathOf l) = .ok l
  := by
  obtain ⟨e, he, hlink⟩ := exists_entry_of_resolve h
  apply resolve_pathOf he hlink

end Localization.FileSystem

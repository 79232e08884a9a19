import Localization.Glob
import Localization.Proofs.Outcome
import Localization.Proofs.Text.Cutting

/-!
# Patterns for directories

Characters other than `*`, `?` and `[` stand for themselves, when a pattern is compiled
(`tokensFrom_plain_append`) and when it is matched (`describes_plain_append`).  So a directory
followed by `/*` or by `/**` describes all that begins with the directory and a separator, and a
directory between `**/` and `/**` describes all in which the directory and a separator stand at
the start or after a separator.
-/

namespace Localization.Glob

/-- The characters stand for themselves in a pattern. -/
def IsPlain (text : List Char) : Prop :=
  ∀ c ∈ text, c ≠ '*' ∧ c ≠ '?' ∧ c ≠ '['

instance (text : List Char) : Decidable (IsPlain text) :=
  inferInstanceAs (Decidable (∀ _ ∈ _, _))

/-- The tokens of characters that stand for themselves. -/
def plainTokens (text : List Char) : List Token :=
  text.map .char

variable {text rest : List Char} {tokens : List Token}

/-! ### Compiling -/

theorem tokenAt_plain {c : Char} (h : c ≠ '*' ∧ c ≠ '?' ∧ c ≠ '[') (position : Nat)
    (before : Option Char) (cs : List Char) :
  tokenAt position before c cs = .ok (.char c, 0)
  := by
  rw [tokenAt.eq_def]
  split
  · exact absurd rfl h.2.1
  · exact absurd rfl h.1
  · exact absurd rfl h.2.2
  · rfl

/-- Characters that stand for themselves are compiled one by one, and then what follows them. -/
theorem tokensFrom_plain_append (h : IsPlain text) {position : Nat} {before : Option Char}
    (hr : tokensFrom (position + text.length) (text.getLast?.or before) 0 rest = .ok tokens) :
  tokensFrom position before 0 (text ++ rest) = .ok (plainTokens text ++ tokens)
  := by
  induction text generalizing position before with
  | nil => exact hr
  | cons c cs ih =>
    obtain ⟨hc, hcs⟩ := List.forall_mem_cons.1 h
    rw [List.length_cons, Text.getLast?_cons_or, Nat.add_comm cs.length, ← Nat.add_assoc] at hr
    rw [List.cons_append, tokensFrom, tokenAt_plain hc, Outcome.ok_bind]
    dsimp only
    rw [ih hcs hr]
    rfl

/-- What follows a directory and a separator is compiled as after any other separator. -/
theorem tokensFrom_directory_append (h : IsPlain text) (position : Nat) (before : Option Char)
    (hr : ∀ n, tokensFrom n (some '/') 0 rest = .ok tokens) :
  tokensFrom position before 0 (text ++ '/' :: rest) = .ok (plainTokens (text ++ ['/']) ++ tokens)
  := by
  have hplain : IsPlain (text ++ ['/']) := by
    intro c hc
    obtain hc | hc := List.mem_append.1 hc
    · exact h c hc
    · obtain rfl := List.mem_singleton.1 hc
      decide
  rw [List.append_cons]
  apply tokensFrom_plain_append hplain
  rw [List.getLast?_concat]
  apply hr

/-- A directory, and any text after it. -/
theorem compile_sequence {directory : String} (h : IsPlain directory.toList) :
  compile (directory ++ "/*") = .ok ⟨plainTokens (directory.toList ++ ['/']) ++ [.sequence]⟩
  := by
  have htext : (directory ++ "/*").toList = directory.toList ++ '/' :: ['*'] := by simp
  rw [compile, htext, tokensFrom_directory_append h 0 none fun _ => rfl]
  rfl

/-- A directory, and anything below it. -/
theorem compile_directories {directory : String} (h : IsPlain directory.toList) :
  compile (directory ++ "/**")
    = .ok ⟨plainTokens (directory.toList ++ ['/']) ++ [.directories]⟩
  := by
  have htext : (directory ++ "/**").toList = directory.toList ++ '/' :: ['*', '*'] := by simp
  rw [compile, htext, tokensFrom_directory_append h 0 none fun _ => rfl]
  rfl

/-- A directory at any depth, and anything below it. -/
theorem compile_anywhere {directory : String} (h : IsPlain directory.toList) :
  compile ("**/" ++ (directory ++ "/**"))
    = .ok ⟨.directories :: (plainTokens (directory.toList ++ ['/']) ++ [.directories])⟩
  := by
  have htext : ("**/" ++ (directory ++ "/**")).toList
      = '*' :: '*' :: '/' :: (directory.toList ++ '/' :: ['*', '*']) := by simp
  have hrest := tokensFrom_directory_append h 3 (some '/') fun _ =>
    show tokensFrom _ (some '/') 0 ['*', '*'] = .ok [.directories] from rfl
  have hall : tokensFrom 0 none 0 ('*' :: '*' :: '/' :: (directory.toList ++ '/' :: ['*', '*']))
      = (do
        let tokens ← tokensFrom 3 (some '/') 0 (directory.toList ++ '/' :: ['*', '*'])
        return .directories :: tokens) := rfl
  rw [compile, htext, hall, hrest]
  rfl

/-! ### Matching -/

/-- Characters that stand for themselves are found at the start of the text. -/
theorem describes_plain_append {s : List Char} :
  describes (plainTokens text ++ tokens) s ↔ ∃ rest, s = text ++ rest ∧ describes tokens rest
  := by
  induction text generalizing s with
  | nil => simp [plainTokens]
  | cons c cs ih =>
    cases s with
    | nil => simp [plainTokens, describes, headAnd]
    | cons d s =>
      have hcons : describes (plainTokens (c :: cs) ++ tokens) (d :: s)
          = (d == c && describes (plainTokens cs ++ tokens) s) := rfl
      simp only [hcons, Bool.and_eq_true, beq_iff_eq, ih, List.cons_append, List.cons.injEq]
      constructor
      · rintro ⟨rfl, rest, rfl, hr⟩
        exact ⟨rest, ⟨rfl, rfl⟩, hr⟩
      · rintro ⟨rest, ⟨rfl, rfl⟩, hr⟩
        exact ⟨rfl, rest, rfl, hr⟩

theorem anyTail_iff {p : List Char → Bool} {s : List Char} :
  anyTail p s ↔ ∃ front rest, s = front ++ rest ∧ p rest
  := by
  induction s with
  | nil => simp [anyTail]
  | cons c cs ih =>
    rw [anyTail, Bool.or_eq_true, ih]
    constructor
    · rintro (h | ⟨front, rest, rfl, h⟩)
      · exact ⟨[], c :: cs, rfl, h⟩
      · exact ⟨c :: front, rest, rfl, h⟩
    · rintro ⟨front, rest, heq, h⟩
      cases front with
      | nil =>
        left
        rwa [heq]
      | cons d front =>
        right
        exact ⟨front, rest, (List.cons.inj heq).2, h⟩

theorem headAnd_iff {p : Char → Bool} {q : List Char → Bool} {s : List Char} :
  headAnd p q s ↔ ∃ c rest, s = c :: rest ∧ p c ∧ q rest
  := by
  cases s with
  | nil => simp [headAnd]
  | cons c cs => simp [headAnd]

/-- Any text is described by `*`. -/
theorem describes_sequence (s : List Char) : describes [.sequence] s := by
  rw [describes, anyTail_iff]
  use s, []
  simp [describes]

/-- Any text is described by a final `**`. -/
theorem describes_final_directories (s : List Char) : describes [.directories] s := by
  simp [describes]

/-- What follows `**/` is found at the start of the text or after a separator, unless it describes
the empty text. -/
theorem describes_directories {s : List Char} (h : describes tokens [] = false) :
  describes (.directories :: tokens) s
    ↔ describes tokens s ∨ ∃ front rest, s = front ++ '/' :: rest ∧ describes tokens rest
  := by
  have heq : describes (.directories :: tokens) s
      = (describes tokens s || anyTail (headAnd (· == '/') (describes tokens)) s
        || describes tokens []) := rfl
  rw [heq, h, Bool.or_false, Bool.or_eq_true, anyTail_iff]
  apply or_congr_right
  constructor
  · rintro ⟨front, rest, rfl, hrest⟩
    obtain ⟨c, rest, rfl, hc, hr⟩ := headAnd_iff.1 hrest
    obtain rfl := beq_iff_eq.1 hc
    exact ⟨front, rest, rfl, hr⟩
  · rintro ⟨front, rest, rfl, hr⟩
    use front, '/' :: rest, rfl
    apply headAnd_iff.2 ⟨'/', rest, rfl, rfl, hr⟩

end Localization.Glob

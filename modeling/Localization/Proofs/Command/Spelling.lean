import Localization.Command
import Localization.Proofs.Arguments.Spelling

/-!
# Spellings of an extract command

An `extract` command is spelled by arguments that give its switches and its directory the values
of the command, `ExtractDraft.values`, in any order and each in any of its ways
(`ExtractCommand.IsSpelled`).  Giving a value that is still due leads from one draft of the command
to the next (`exists_accept`), and so every spelling of a command is read as this command
(`ofArguments_of_isSpelled`).
-/

namespace Localization

open Arguments (Names valuesOf)

namespace Command

/-- How the switches and operands of `extract` are called. -/
def extractNames : Names ExtractSwitch where
  long?
    | .help => some "help"
    | .verbose => some "verbose"
    | .format => some "format"
    | .output => some "output"
    | .extension => some "extension"
    | .component => some "component"
    | .directory => none
  short?
    | .help => some 'h'
    | .verbose => some 'v'
    | .format => some 'f'
    | .output => some 'o'
    | .extension => some 'e'
    | .component => none
    | .directory => none
  takesValue
    | .help => false
    | .verbose => false
    | _ => true
  operands := [.directory]

theorem extractGrammar_knows : extractGrammar.Knows extractNames where
  long i name h := by
    cases i with
    | directory => cases h
    | _ =>
      obtain rfl := Option.some.inj h
      decide
  short i c h := by
    cases i with
    | component => cases h
    | directory => cases h
    | _ =>
      obtain rfl := Option.some.inj h
      decide
  takesValue i := by
    cases i <;> rfl
  operand n i h := by
    cases n with
    | zero =>
      obtain rfl := Option.some.inj h
      rfl
    | succ n => cases h

/-- The values with which the switches and the directory of `extract` have been given. -/
def ExtractDraft.values (d : ExtractDraft) : ExtractSwitch → List String
  | .help => []
  | .verbose => if d.verbose then [""] else []
  | .format => d.format.toList.map Format.name
  | .output => d.output.toList.map Path.text
  | .extension => d.extensions
  | .component => d.component.toList
  | .directory => d.directory.toList.map Path.text

/-- The draft that lacks nothing of a command. -/
def ExtractDraft.ofCommand (c : ExtractCommand) : ExtractDraft :=
  { c with directory := some c.directory }

end Command

open Command (ExtractSwitch ExtractDraft extractNames extractGrammar)

/-- The arguments give the switches of `extract` and its directory the values of the command, in any
order. -/
def ExtractCommand.IsSpelled (c : ExtractCommand) (arguments : List String) : Prop :=
  ∃ givens, extractNames.Gives 0 givens arguments
    ∧ ∀ i, valuesOf i givens = (ExtractDraft.ofCommand c).values i

namespace Command

/-! ### Drafts -/

/-- A value comes first that is due, and so it is that of the field. -/
theorem exists_eq_some_of_append {α : Type} {f : α → String} {a? b? : Option α} {value : String}
    {values : List String} (h : a?.toList.map f ++ value :: values = b?.toList.map f) :
  a? = none ∧ ∃ b, b? = some b ∧ f b = value
  := by
  cases a? with
  | none => cases b? with
    | none => cases h
    | some b => exact ⟨rfl, b, rfl, (List.cons.inj h).1.symm⟩
  | some a => cases b? with
    | none => cases h
    | some b => simp at h

theorem eq_of_map_toList_eq {α : Type} {f : α → String} (hf : Function.Injective f)
    {a? b? : Option α} (h : a?.toList.map f = b?.toList.map f) :
  a? = b?
  := by
  have hlist := List.map_injective_iff.2 hf h
  cases a? <;> cases b? <;> simp_all

theorem formatValue_name (format : Format) : formatValue format.name = .ok format := by
  cases format <;> rfl

theorem injective_name : Function.Injective Format.name := by
  intro a b h
  have hvalue := formatValue_name a
  rw [h, formatValue_name] at hvalue
  exact (Except.ok.inj hvalue).symm

theorem pathValue_text {path : Path} (h : path.text ≠ "") : pathValue path.text = .ok path :=
  if_neg h

theorem injective_text : Function.Injective Path.text := by
  rintro ⟨text⟩ ⟨_⟩ rfl
  rfl

/-- A draft is determined by the values that have been given. -/
theorem ExtractDraft.eq_of_values {d d' : ExtractDraft} (h : ∀ i, d.values i = d'.values i) :
  d = d'
  := by
  obtain ⟨directory, format, output, extensions, component, verbose⟩ := d
  obtain ⟨directory', format', output', extensions', component', verbose'⟩ := d'
  obtain rfl := eq_of_map_toList_eq injective_text (h .directory)
  obtain rfl := eq_of_map_toList_eq injective_name (h .format)
  obtain rfl := eq_of_map_toList_eq injective_text (h .output)
  obtain rfl : extensions = extensions' := h .extension
  obtain rfl : component = component' := by
    apply eq_of_map_toList_eq Function.injective_id
    simpa [values] using h .component
  obtain rfl : verbose = verbose' := by
    have hv := congrArg (· ≠ []) (h .verbose)
    simpa [values] using hv
  rfl

variable {c : ExtractCommand}

/-- A value that is due is accepted, and then counts as given. -/
theorem exists_accept (hd : c.directory.text ≠ "") (ho : ∀ path ∈ c.output, path.text ≠ "")
    {d : ExtractDraft} {i : ExtractSwitch} {value : String} {values : List String}
    (h : d.values i ++ value :: values = (ExtractDraft.ofCommand c).values i) :
  ∃ d', extractGrammar.accept i value d = .ok d'
    ∧ ∀ j, d'.values j = d.values j ++ if i = j then [value] else []
  := by
  cases i with
  | help => cases h
  | verbose =>
    obtain ⟨hf, rfl⟩ : d.verbose = false ∧ value = "" := by
      simp only [ExtractDraft.values, ExtractDraft.ofCommand] at h
      cases hv : d.verbose with
      | true => cases hc : c.verbose <;> simp [hv, hc] at h
      | false => cases hc : c.verbose <;> simp_all
    refine ⟨{ d with verbose := true }, ?_, ?_⟩
    · simp [extractGrammar, hf]
    · intro j
      cases j <;> simp [ExtractDraft.values, hf]
  | format =>
    obtain ⟨hf, f, -, rfl⟩ := exists_eq_some_of_append h
    refine ⟨{ d with format := some f }, ?_, ?_⟩
    · simp [extractGrammar, once, hf, formatValue_name, Outcome.ok_bind]
    · intro j
      cases j <;> simp [ExtractDraft.values, hf]
  | output =>
    obtain ⟨hf, path, hpath, rfl⟩ := exists_eq_some_of_append h
    refine ⟨{ d with output := some path }, ?_, ?_⟩
    · simp [extractGrammar, once, hf, pathValue_text (ho path hpath), Outcome.ok_bind]
    · intro j
      cases j <;> simp [ExtractDraft.values, hf]
  | extension =>
    refine ⟨{ d with extensions := d.extensions ++ [value] }, rfl, ?_⟩
    intro j
    cases j <;> simp [ExtractDraft.values]
  | component =>
    obtain ⟨hf, -⟩ : d.component = none ∧ _ := by
      apply @exists_eq_some_of_append String id
      simpa [ExtractDraft.values] using h
    refine ⟨{ d with component := some value }, ?_, ?_⟩
    · simp [extractGrammar, once, hf]
    · intro j
      cases j <;> simp [ExtractDraft.values, hf]
  | directory =>
    obtain ⟨hf, path, hpath, rfl⟩ := exists_eq_some_of_append h
    obtain rfl := Option.some.inj hpath
    refine ⟨{ d with directory := some c.directory }, ?_, ?_⟩
    · simp [extractGrammar, pathValue_text hd]
    · intro j
      cases j <;> simp [ExtractDraft.values, hf]

/-- Giving a draft all the values that are due completes the command. -/
theorem foldlM_accept_extract (hd : c.directory.text ≠ "")
    (ho : ∀ path ∈ c.output, path.text ≠ "") {givens : List (ExtractSwitch × String)}
    {d : ExtractDraft}
    (h : ∀ i, d.values i ++ valuesOf i givens = (ExtractDraft.ofCommand c).values i) :
  givens.foldlM (fun d e => extractGrammar.accept e.1 e.2 d) d = .ok (.ofCommand c)
  := by
  induction givens generalizing d with
  | nil =>
    apply congrArg Except.ok
    apply ExtractDraft.eq_of_values
    simpa [valuesOf] using h
  | cons e givens ih =>
    obtain ⟨i, value⟩ := e
    have hi : d.values i ++ value :: valuesOf i givens
        = (ExtractDraft.ofCommand c).values i := by
      rw [← h i]
      simp [valuesOf]
    obtain ⟨d', ha, hvalues⟩ := exists_accept hd ho hi
    rw [List.foldlM_cons, ha]
    apply ih
    intro j
    rw [hvalues, ← h j, List.append_assoc]
    by_cases hj : i = j
    · simp [valuesOf, hj]
    · simp [valuesOf, hj]

/-- Every spelling of an `extract` command is read as the command. -/
theorem ofArguments_of_isSpelled (hd : c.directory.text ≠ "")
    (ho : ∀ path ∈ c.output, path.text ≠ "") {arguments : List String}
    (h : c.IsSpelled arguments) :
  ofArguments ("extract" :: arguments) = .ok (some (.extract c))
  := by
  obtain ⟨givens, hgives, hvalues⟩ := h
  have hread : extractGrammar.read {} arguments = .ok (.ofCommand c) := by
    apply Arguments.Grammar.read_of_gives extractGrammar_knows hgives
    apply foldlM_accept_extract hd ho
    intro i
    rw [← hvalues i]
    cases i <;> rfl
  rw [ofArguments, readExtract, hread]
  rfl

/-- Values that look like switches, begin with `=` or are empty, around a directory that is named
like a command. -/
theorem ofArguments_of_isSpelled_mixed :
  let c : ExtractCommand := {
    directory := ⟨"extract"⟩
    format := some .keyValue
    output := some ⟨"--x=y"⟩
    extensions := ["=jsx", "a b", ""]
    component := some "-"
    verbose := true }
  let arguments := ["-v", "--component", "-", "-fkey-value", "extract", "-e==jsx",
    "--output=--x=y", "-e", "a b", "--extension="]
  c.IsSpelled arguments ∧ ofArguments ("extract" :: arguments) = .ok (some (.extract c))
  := by
  intro c arguments
  let short (c : Char) : String := "-" ++ .singleton c
  let long (name : String) : String := "--" ++ name
  have hspelled : c.IsSpelled ([short 'v'] ++ ([long "component", "-"] ++ ([short 'f' ++ "key-value"]
      ++ ("extract" :: ([short 'e' ++ "=" ++ "=jsx"] ++ ([long "output" ++ "=" ++ "--x=y"]
        ++ ([short 'e', "a b"] ++ ([long "extension" ++ "=" ++ ""] ++ [])))))))) := by
    refine ⟨[(.verbose, ""), (.component, "-"), (.format, "key-value"), (.directory, "extract"),
      (.extension, "=jsx"), (.output, "--x=y"), (.extension, "a b"), (.extension, "")], ?_, ?_⟩
    · exact .switch (.shortAlone rfl rfl) <|
        .switch (.longSeparate rfl rfl (by decide)) <|
        .switch (.shortAttached rfl rfl (by decide) (by decide)) <|
        .operand rfl (by decide) <|
        .switch (.shortEquals rfl rfl (by decide)) <|
        .switch (.longAttached rfl rfl) <|
        .switch (.shortSeparate rfl rfl (by decide)) <|
        .switch (.longAttached rfl rfl) .nil
    · intro i
      cases i <;> rfl
  have harguments : c.IsSpelled arguments := by
    convert hspelled
    decide +kernel
  exact ⟨harguments, ofArguments_of_isSpelled (by decide) (by decide) harguments⟩

end Command
end Localization

import Localization.Proofs.Config.Loading
import Localization.Proofs.FileSystem.Writing
import Localization.Proofs.Program.Actions

/-!
# How an extraction ends

`ExtractCommand.Renders` says which text is the catalog that a command asks for, and
`ExtractCommand.Fails` why there is none.  `ExtractCommand.Ends` says what each exit status means
for the files and for what is shown: the catalog is delivered and nothing else changes, or it
could not be written and nothing changes, or there is none and nothing changes.
`ExtractCommand.exists_run_conclude` says that every command ends so.
-/

namespace Localization

open FileSystem (pathOf Writes)

/-! ### Lines -/

namespace Report

theorem lines_singleton (text : String) : lines [text] = text ++ "\n" := by
  simp [lines, String.join]

theorem lines_append (texts texts' : List String) :
  lines (texts ++ texts') = lines texts ++ lines texts'
  := by
  simp [lines]

end Report

/-! ### Extracting -/

namespace ExtractCommand

/-- The options of an extraction: for each of them what the command says, otherwise what the
configuration says, and otherwise the default. -/
def optionsFrom (c : ExtractCommand) (draft : Config.Draft) : ExtractionOptions where
  extensions := if c.extensions = [] then draft.extensions.getD ["jsx"] else c.extensions
  ignores := draft.ignores.getD []
  component := (c.component.or draft.component).getD "LocalizeText"

/-- The format of a catalog, chosen in the same way. -/
def formatFrom (c : ExtractCommand) (draft : Config.Draft) : Format :=
  (c.format.or draft.format).getD .json

/-- The text is the catalog that the command asks for. -/
def Renders (c : ExtractCommand) (fs : FileSystem) (text : String) : Prop :=
  ∃ l draft extraction, fs.resolve c.directory = .ok l ∧ Config.Says fs (pathOf l) draft
    ∧ Extraction.run fs (pathOf l) (c.optionsFrom draft) = .ok extraction
    ∧ text = extraction.catalog.render (c.formatFrom draft)

/-- There is no catalog, for this reason. -/
inductive Fails (c : ExtractCommand) (fs : FileSystem) : Failure → Prop where
  | directory {fault : FileSystem.Fault} (hl : fs.resolve c.directory = .error fault) :
      Fails c fs (.unreachable c.directory fault)
  | config {l : Location} {failure : Failure} (hl : fs.resolve c.directory = .ok l)
      (hc : Config.load fs (pathOf l) = .error failure) : Fails c fs failure
  | extraction {l : Location} {draft : Config.Draft} {failure : Failure}
      (hl : fs.resolve c.directory = .ok l) (hc : Config.Says fs (pathOf l) draft)
      (he : Extraction.run fs (pathOf l) (c.optionsFrom draft) = .error failure) :
      Fails c fs failure

variable {c : ExtractCommand} {fs fs' : FileSystem} {text text' : String} {failure : Failure}

theorem options_complete (c : ExtractCommand) (draft : Config.Draft) :
  c.options draft.complete = c.optionsFrom draft
  := by
  rw [options, optionsFrom, Option.getD_or]
  rfl

theorem getD_format_complete (c : ExtractCommand) (draft : Config.Draft) :
  c.format.getD draft.complete.format = c.formatFrom draft
  := by
  rw [formatFrom, Option.getD_or]
  rfl

/-- A command asks for one catalog. -/
theorem Renders.eq (h : c.Renders fs text) (h' : c.Renders fs text') :
  text = text'
  := by
  obtain ⟨l, draft, extraction, hl, hc, he, rfl⟩ := h
  obtain ⟨l', draft', extraction', hl', hc', he', rfl⟩ := h'
  obtain rfl := Outcome.eq_of_eq_ok hl hl'
  obtain rfl := hc.eq hc'
  rw [Outcome.eq_of_eq_ok he he']

/-- Where there is a catalog, there is no reason for having none. -/
theorem Renders.not_fails (h : c.Renders fs text) : ¬ c.Fails fs failure := by
  obtain ⟨l, draft, extraction, hl, hc, he, rfl⟩ := h
  intro h
  cases h with
  | directory hl' => exact Outcome.ne_error_of_eq_ok hl hl'
  | config hl' hc' =>
    obtain rfl := Outcome.eq_of_eq_ok hl hl'
    obtain ⟨path, hload⟩ := hc.exists_load
    exact Outcome.ne_error_of_eq_ok hload hc'
  | extraction hl' hc' he' =>
    obtain rfl := Outcome.eq_of_eq_ok hl hl'
    obtain rfl := hc.eq hc'
    exact Outcome.ne_error_of_eq_ok he he'

/-! ### What is delivered -/

theorem run_deliver_none (h : c.output = none) (text : String) :
  (c.deliver text).run fs = (.shown text, fs)
  := by
  rw [deliver, h]
  rfl

theorem run_deliver_some {file : Path} (h : c.output = some file) (text : String) :
  (c.deliver text).run fs
    = match (Action.write file text).runIn fs with
      | (.ok (), fs') => (Delivery.written (fs'.canonical file), fs')
      | (.error failure, fs') => (Delivery.refused failure.fullMessage, fs')
  := by
  rw [deliver, h]
  dsimp only
  rw [StateT.run_bind, Action.runIn]
  generalize ((Action.write file text).run.run fs) = x
  obtain ⟨_ | _, fs'⟩ := x
  · rfl
  · rfl

theorem run_deliver_of_ok {file : Path} (h : c.output = some file)
    (hw : fs.write file text.toUTF8 = .ok fs') :
  (c.deliver text).run fs = (Delivery.written (fs'.canonical file), fs')
  := by
  rw [run_deliver_some h, Action.runIn_write_of_ok hw]

theorem run_deliver_of_error {file : Path} {fault : FileSystem.Fault} (h : c.output = some file)
    (hw : fs.write file text.toUTF8 = .error fault) :
  (c.deliver text).run fs = (Delivery.refused (Failure.unwritable file fault).fullMessage, fs)
  := by
  rw [run_deliver_some h, Action.runIn_write_of_error hw]

/-- An extraction fails and leaves everything as it is, or delivers its catalog. -/
theorem runIn_run (c : ExtractCommand) (fs : FileSystem) :
  (∃ failure, c.Fails fs failure ∧ c.run.runIn fs = (.error failure, fs))
    ∨ ∃ text summary, c.Renders fs text ∧ summary.delivery = ((c.deliver text).run fs).run.1
      ∧ c.run.runIn fs = (.ok summary, ((c.deliver text).run fs).run.2)
  := by
  -- the questions come one after the other, and only the delivery after them can change anything
  cases hl : fs.resolve c.directory with
  | error fault =>
    left
    refine ⟨_, .directory hl, Action.runIn_ask_bind_of_error ?_ _⟩
    rw [hl]
    rfl
  | ok l =>
    have hresolve :
        (fs.resolve c.directory).mapError (Failure.unreachable c.directory) = .ok l := by
      rw [hl]
      rfl
    rw [run, Action.runIn_ask_bind_of_ok hresolve]
    cases hc : Config.load fs (pathOf l) with
    | error failure =>
      left
      exact ⟨failure, .config hl hc, Action.runIn_ask_bind_of_error hc _⟩
    | ok loaded =>
      obtain ⟨draft, hs, hd⟩ := Config.exists_says_of_load hc
      have hoptions : c.options loaded.config = c.optionsFrom draft := by
        rw [hd, options_complete]
      have hformat : c.format.getD loaded.config.format = c.formatFrom draft := by
        rw [hd, getD_format_complete]
      dsimp only
      rw [Action.runIn_ask_bind_of_ok hc, hoptions, hformat]
      cases he : Extraction.run fs (pathOf l) (c.optionsFrom draft) with
      | error failure =>
        left
        exact ⟨failure, .extraction hl hs he, Action.runIn_ask_bind_of_error he _⟩
      | ok extraction =>
        right
        rw [Action.runIn_ask_bind_of_ok he]
        exact ⟨_, _, ⟨l, draft, extraction, hl, hs, he, rfl⟩, rfl, rfl⟩

/-! ### How an extraction ends -/

/-- What the exit status of an extraction says of the file systems before and after it, and of
what has been shown. -/
def Ends (c : ExtractCommand) (colors : Bool) (fs fs' : FileSystem) (report : Report) : Prop :=
  match report.status with
  | .success =>
    ∃ text, c.Renders fs text ∧
      match c.output with
      | none => fs' = fs ∧ report.stdout = text ++ "\n"
      | some file =>
        fs.write file text.toUTF8 = .ok fs' ∧ fs'.read file = .ok text.toUTF8
        ∧ ∃ l, fs'.resolve file = .ok l ∧ Writes l text.toUTF8 fs fs'
          ∧ (∀ p m, fs.resolve p = .ok m → m ≠ l → fs'.read p = fs.read p)
          ∧ report.stdout = Report.fileLine colors "Messages written to" (pathOf l) ++ "\n"
  | .failure =>
    ∃ text file fault, c.Renders fs text ∧ c.output = some file
      ∧ fs.write file text.toUTF8 = .error fault
      ∧ fs' = fs ∧ report.stdout = ""
      ∧ ∃ notes, report.stderr = notes ++ (Style.boldRed.paint colors "error:" ++ " "
          ++ (Failure.unwritable file fault).fullMessage ++ "\n")
  | .error =>
    ∃ failure, c.Fails fs failure ∧ fs' = fs ∧ report.stdout = ""
      ∧ report.stderr = "Error: " ++ failure.fullMessage ++ "\n"

theorem ends_of_fails (h : c.Fails fs failure) (colors : Bool) :
  c.Ends colors fs fs failure.report
  := ⟨failure, h, rfl, rfl, Report.lines_singleton _⟩

theorem ends_of_renders (h : c.Renders fs text) {summary : ExtractSummary}
    (hd : summary.delivery = ((c.deliver text).run fs).run.1) (verbose colors : Bool) :
  c.Ends colors fs ((c.deliver text).run fs).run.2 (summary.report verbose colors)
  := by
  cases ho : c.output with
  | none =>
    rw [run_deliver_none ho] at hd ⊢
    change summary.delivery = .shown text at hd
    rw [Ends, ExtractSummary.report, hd]
    use text, h
    rw [ho]
    exact ⟨rfl, Report.lines_singleton text⟩
  | some file =>
    cases hw : fs.write file text.toUTF8 with
    | ok fs' =>
      obtain ⟨l, hl, hwrites⟩ := FileSystem.exists_writes_of_write hw
      rw [run_deliver_of_ok ho hw] at hd ⊢
      change summary.delivery = .written (fs'.canonical file) at hd
      rw [Ends, ExtractSummary.report, hd]
      use text, h
      rw [ho]
      refine ⟨hw, FileSystem.read_of_write hw, l, hl, hwrites, fun p m => hwrites.read_eq, ?_⟩
      rw [FileSystem.canonical, hl]
      exact Report.lines_singleton _
    | error fault =>
      rw [run_deliver_of_error ho hw] at hd ⊢
      change summary.delivery = .refused (Failure.unwritable file fault).fullMessage at hd
      rw [Ends, ExtractSummary.report, hd]
      use text, file, fault, h, ho, hw, rfl, rfl,
        Report.lines (if verbose then summary.notes colors else [])
      exact (Report.lines_append _ _).trans (congrArg _ (Report.lines_singleton _))

end ExtractCommand

/-- Only the notes of a report depend on whether it is verbose. -/
theorem ExtractSummary.exists_report_eq (s : ExtractSummary) (verbose verbose' colors : Bool) :
  ∃ stderr, s.report verbose' colors = { s.report verbose colors with stderr }
  := by
  rw [report, report]
  cases s.delivery with
  | shown content => exact ⟨_, rfl⟩
  | written file => exact ⟨_, rfl⟩
  | refused reason => exact ⟨_, rfl⟩

namespace ExtractCommand

variable {c : ExtractCommand} {colors : Bool} {fs fs' : FileSystem} {report : Report}

theorem Ends.status_eq_error_iff (h : c.Ends colors fs fs' report) :
  report.status = .error ↔ ∃ failure, c.Fails fs failure
  := by
  rw [Ends] at h
  split at h
  · next hs =>
    obtain ⟨text, hr, -⟩ := h
    simp [hs, hr.not_fails]
  · next hs =>
    obtain ⟨text, file, fault, hr, -⟩ := h
    simp [hs, hr.not_fails]
  · next hs =>
    obtain ⟨failure, hf, -⟩ := h
    simp only [hs, true_iff]
    exact ⟨failure, hf⟩

theorem Ends.status_eq_failure_iff (h : c.Ends colors fs fs' report) :
  report.status = .failure ↔ ∃ text file fault, c.Renders fs text ∧ c.output = some file
    ∧ fs.write file text.toUTF8 = .error fault
  := by
  rw [Ends] at h
  split at h
  · next hs =>
    obtain ⟨text, hr, h⟩ := h
    rw [hs]
    constructor
    · intro hs
      cases hs
    · rintro ⟨text', file, fault, hr', ho, hw⟩
      obtain rfl := hr.eq hr'
      simp only [ho] at h
      exact absurd hw (Outcome.ne_error_of_eq_ok h.1)
  · next hs =>
    obtain ⟨text, file, fault, hr, ho, hw, -⟩ := h
    simp only [hs, true_iff]
    exact ⟨text, file, fault, hr, ho, hw⟩
  · next hs =>
    obtain ⟨failure, hf, -⟩ := h
    rw [hs]
    constructor
    · intro hs
      cases hs
    · rintro ⟨text, file, fault, hr, -⟩
      exact absurd hf hr.not_fails

theorem runIn_run_extract_of_ok {summary : ExtractSummary}
    (h : c.run.runIn fs = (.ok summary, fs')) :
  (Command.extract c).run.runIn fs = (.ok (.extracted summary), fs')
  := by
  rw [Command.run, Action.runIn_bind_of_ok h]
  rfl

theorem runIn_run_extract_of_error {failure : Failure}
    (h : c.run.runIn fs = (.error failure, fs')) :
  (Command.extract c).run.runIn fs = (.error failure, fs')
  := by
  rw [Command.run, Action.runIn_bind_of_error h]

/-- An extraction comes to an end in one of three ways, which its exit status tells, and neither
the way nor what is delivered depends on whether notes are asked for. -/
theorem exists_run_conclude (c : ExtractCommand) (colors : Bool) (fs : FileSystem) :
  ∃ report fs', ((Command.extract c).conclude colors).run fs = (report, fs')
    ∧ c.Ends colors fs fs' report
    ∧ (report.status = .error ↔ ∃ failure, c.Fails fs failure)
    ∧ (report.status = .failure ↔ ∃ text file fault, c.Renders fs text ∧ c.output = some file
      ∧ fs.write file text.toUTF8 = .error fault)
    ∧ ∀ verbose, ∃ stderr,
      ((Command.extract { c with verbose }).conclude colors).run fs = ({ report with stderr }, fs')
  := by
  obtain ⟨failure, hf, hrun⟩ | ⟨text, summary, hr, hd, hrun⟩ := runIn_run c fs
  · have h := ends_of_fails hf colors
    refine ⟨_, _, Command.run_conclude_of_error (runIn_run_extract_of_error hrun) colors, h,
      h.status_eq_error_iff, h.status_eq_failure_iff, ?_⟩
    intro verbose
    have hrun' : ({ c with verbose } : ExtractCommand).run.runIn fs = _ := hrun
    exact ⟨_, Command.run_conclude_of_error (runIn_run_extract_of_error hrun') colors⟩
  · have h := ends_of_renders hr hd c.verbose colors
    refine ⟨_, _, Command.run_conclude_of_ok (runIn_run_extract_of_ok hrun) colors, h,
      h.status_eq_error_iff, h.status_eq_failure_iff, ?_⟩
    intro verbose
    have hrun' : ({ c with verbose } : ExtractCommand).run.runIn fs = _ := hrun
    obtain ⟨stderr, hs⟩ := summary.exists_report_eq c.verbose verbose colors
    use stderr
    rw [Command.run_conclude_of_ok (runIn_run_extract_of_ok hrun') colors]
    exact congrArg (·, ((c.deliver text).run fs).run.2) hs

end ExtractCommand
end Localization

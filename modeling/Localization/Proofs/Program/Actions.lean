import Localization.Program

/-!
# What actions leave

Equations for the result of an action and the file system that it leaves.  A question leaves the
file system as it is, and so does a write that fails.  Of two actions in a row, the second is
done in what the first one leaves, unless that has failed (`runIn_bind_of_ok`,
`runIn_bind_of_error`).
-/

namespace Localization

namespace Action

variable {α β : Type} {fs fs' : FileSystem}

theorem runIn_get : (get : Action FileSystem).runIn fs = (.ok fs, fs) :=
  rfl

theorem runIn_ask (question : FileSystem → Except Failure α) :
  (ask question).runIn fs = (question fs, fs)
  := rfl

theorem runIn_bind_of_ok {action : Action α} {a : α} (h : action.runIn fs = (.ok a, fs'))
    (next : α → Action β) :
  (action >>= next).runIn fs = (next a).runIn fs'
  := by
  rw [runIn] at h
  simp [runIn, ExceptT.run_bind, StateT.run_bind, h]

theorem runIn_bind_of_error {action : Action α} {failure : Failure}
    (h : action.runIn fs = (.error failure, fs')) (next : α → Action β) :
  (action >>= next).runIn fs = (.error failure, fs')
  := by
  rw [runIn] at h
  simp [runIn, ExceptT.run_bind, StateT.run_bind, h]

/-- What is done after a question is done with its answer, in the same file system. -/
theorem runIn_ask_bind_of_ok {question : FileSystem → Except Failure α} {a : α}
    (h : question fs = .ok a) (next : α → Action β) :
  (ask question >>= next).runIn fs = (next a).runIn fs
  := runIn_bind_of_ok (by rw [runIn_ask, h]) next

theorem runIn_ask_bind_of_error {question : FileSystem → Except Failure α} {failure : Failure}
    (h : question fs = .error failure) (next : α → Action β) :
  (ask question >>= next).runIn fs = (.error failure, fs)
  := runIn_bind_of_error (by rw [runIn_ask, h]) next

theorem runIn_write_of_ok {file : Path} {content : String}
    (h : fs.write file content.toUTF8 = .ok fs') :
  (write file content).runIn fs = (.ok (), fs')
  := by
  rw [write, runIn_bind_of_ok runIn_get, h]
  rfl

/-- A write that fails leaves the file system as it is. -/
theorem runIn_write_of_error {file : Path} {content : String} {fault : FileSystem.Fault}
    (h : fs.write file content.toUTF8 = .error fault) :
  (write file content).runIn fs = (.error (.unwritable file fault), fs)
  := by
  rw [write, runIn_bind_of_ok runIn_get, h]
  rfl

end Action

/-! ### Commands -/

/-- A command ends with its report, or with the report on its failure. -/
theorem Command.run_conclude (colors : Bool) (c : Command) (fs : FileSystem) :
  (c.conclude colors).run fs
    = match (c.perform colors).runIn fs with
      | (.ok report, fs') => (report, fs')
      | (.error failure, fs') => (failure.report, fs')
  := by
  rw [conclude, StateT.run_bind, Action.runIn]
  generalize ((c.perform colors).run.run fs) = x
  obtain ⟨_ | _, fs'⟩ := x
  · rfl
  · rfl

theorem Command.run_conclude_of_ok {c : Command} {fs fs' : FileSystem} {summary : Summary}
    (h : c.run.runIn fs = (.ok summary, fs')) (colors : Bool) :
  (c.conclude colors).run fs = (summary.report c.isVerbose colors, fs')
  := by
  rw [run_conclude, perform, Action.runIn_bind_of_ok h]
  rfl

theorem Command.run_conclude_of_error {c : Command} {fs fs' : FileSystem} {failure : Failure}
    (h : c.run.runIn fs = (.error failure, fs')) (colors : Bool) :
  (c.conclude colors).run fs = (failure.report, fs')
  := by
  rw [run_conclude, perform, Action.runIn_bind_of_error h]

end Localization

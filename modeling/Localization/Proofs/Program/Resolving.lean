import Localization.Proofs.Arguments.Reading
import Localization.Proofs.Program.Actions
import Localization.Proofs.Template.Names

/-!
# Resolving with replacements

`Command.resolveArguments` asks for a message without a file of messages: it is the template,
filled with the replacements (`Program.shows_resolveArguments`).  A replacement that is read from an
argument is of use exactly when its name is one that a template can use
(`Program.shows_replacement`).
-/

namespace Localization

open Arguments (Grammar)
open Arguments.Grammar (attached)

namespace Command

/-- The arguments that ask for a message and give its template.  The values and the default values
are texts `NAME=VALUE`. -/
def resolveArguments (values defaults : List String) (template id : String) : List String :=
  "resolve" :: (values.map (attached "value") ++ (defaults.map (attached "default-value")
    ++ [attached "default" template, "--", id]))

variable {values defaults : List String} {vs ds : List (String × String)}

theorem foldlM_accept_value (h : values.mapM replacementValue = .ok vs) (d : ResolveDraft) :
  values.foldlM (fun d value => resolveGrammar.accept .value value d) d
    = .ok { d with values := d.values ++ vs }
  := by
  apply Grammar.foldlM_accept (fun (d : ResolveDraft) vs => { d with values := d.values ++ vs })
    _ _ (fun _ _ => rfl) h
  · simp
  · simp

theorem foldlM_accept_defaultValue (h : defaults.mapM replacementValue = .ok ds)
    (d : ResolveDraft) :
  defaults.foldlM (fun d value => resolveGrammar.accept .defaultValue value d) d
    = .ok { d with defaultValues := d.defaultValues ++ ds }
  := by
  apply Grammar.foldlM_accept
    (fun (d : ResolveDraft) ds => { d with defaultValues := d.defaultValues ++ ds })
    _ _ (fun _ _ => rfl) h
  · simp
  · simp

/-- The arguments are read as they are meant. -/
theorem ofArguments_resolveArguments (hv : values.mapM replacementValue = .ok vs)
    (hd : defaults.mapM replacementValue = .ok ds) (template id : String) :
  ofArguments (resolveArguments values defaults template id)
    = .ok (some (.resolve
      { id, values := vs, defaultValues := ds, defaultMessage := some template }))
  := by
  have hvalues : (values.map (attached "value")).foldlM resolveGrammar.step { draft := {} }
      = .ok { draft := { values := vs } } := by
    rw [Grammar.foldlM_attached rfl rfl (by decide) rfl rfl, foldlM_accept_value hv]
    rfl
  have hdefaults : (defaults.map (attached "default-value")).foldlM resolveGrammar.step
      { draft := { values := vs } } = .ok { draft := { values := vs, defaultValues := ds } } := by
    rw [Grammar.foldlM_attached rfl rfl (by decide) rfl rfl, foldlM_accept_defaultValue hd]
    rfl
  have htemplate : resolveGrammar.step { draft := { values := vs, defaultValues := ds } }
      (attached "default" template)
      = .ok { draft :=
        { values := vs, defaultValues := ds, defaultMessage := some template } } := by
    rw [Grammar.step_attached rfl rfl (by decide) rfl rfl]
    rfl
  rw [resolveArguments, ofArguments, readResolve, Grammar.read, List.foldlM_append, hvalues,
    Outcome.ok_bind, List.foldlM_append, hdefaults, Outcome.ok_bind, List.foldlM_cons, htemplate,
    Outcome.ok_bind]
  rfl

/-- The same command with its parts in another order and with separate values. -/
example :
  ofArguments ["resolve", "m", "--default-value", "a=b", "-d", "{{ a }}", "--value", "c = d"]
    = ofArguments (resolveArguments ["c = d"] ["a=b"] "{{ a }}" "m")
  := by decide +kernel

end Command

namespace Program

open Command (resolveArguments replacementValue)
open Template (IsUsable)

/-- The program shows the text and changes nothing, whatever there is in the file system and in
whichever way the command of these arguments is written. -/
def Shows (arguments : List String) (text : String) : Prop :=
  ∀ arguments', Command.ofArguments arguments' = Command.ofArguments arguments →
    ∀ colors fs, (conclude colors arguments').run fs = ({ stdout := Report.lines [text] }, fs)

variable {values defaults : List String} {vs ds : List (String × String)} {raw name value : String}

/-- A message that is in no file is its template, filled from the values and then from the default
values. -/
theorem shows_resolveArguments (hv : values.mapM replacementValue = .ok vs)
    (hd : defaults.mapM replacementValue = .ok ds) (template id : String) :
  Shows (resolveArguments values defaults template id)
    (Template.fill [.ofList vs, .ofList ds] template)
  := by
  intro arguments' h colors fs
  have hrun : Action.runIn (Command.resolve
      { id, values := vs, defaultValues := ds, defaultMessage := some template }).run fs
      = (.ok (.resolved (Template.fill [.ofList vs, .ofList ds] template)), fs) :=
    Action.runIn_ask_bind_of_ok rfl _
  rw [conclude, h, Command.ofArguments_resolveArguments hv hd]
  exact Command.run_conclude_of_ok hrun colors

/-- A replacement that is read from an argument is put in the place of its name, when the name can
be used: as a value, and as a default value when no value has the name.  Under a name that cannot
be used it has no effect: with any template the program shows what it shows without the
argument. -/
theorem shows_replacement (h : replacementValue raw = .ok (name, value)) (hvalue : value ≠ "")
    (hv : values.mapM replacementValue = .ok vs) (hname : ∀ v ∈ vs, v.1 ≠ name) (id : String) :
  (IsUsable name.toList →
    Shows (resolveArguments [raw] [] (Template.named name) id) value
      ∧ Shows (resolveArguments values [raw] (Template.named name) id) value)
    ∧ (¬ IsUsable name.toList → ∀ template,
      (∃ text, Shows (resolveArguments [raw] [] template id) text
        ∧ Shows (resolveArguments [] [] template id) text)
      ∧ ∃ text, Shows (resolveArguments values [raw] template id) text
        ∧ Shows (resolveArguments values [] template id) text)
  := by
  have hnone : [].mapM replacementValue = .ok [] := rfl
  have hraw : [raw].mapM replacementValue = .ok [(name, value)] := by
    rw [List.mapM_cons, h]
    rfl
  have hholds : Template.Holds (.ofList [(name, value)]) name.toList value := by
    refine ⟨?_, hvalue⟩
    simp [Table.get?_ofList]
  constructor
  · intro hu
    constructor
    · have hshows := shows_resolveArguments hraw hnone (Template.named name) id
      rwa [Template.fill_named_of_holds hu hholds] at hshows
    · have hshows := shows_resolveArguments hv hraw (Template.named name) id
      rwa [Template.fill_named_of_default hu (Template.not_holds_ofList hname) hholds] at hshows
  · intro hu template
    constructor
    · refine ⟨_, shows_resolveArguments hraw hnone template id, ?_⟩
      have hfill : Template.fill [.ofList [(name, value)], .ofList []] template
          = Template.fill [.ofList [], .ofList []] template :=
        Template.fill_of_not_isUsable hu [] [.ofList []] template
      rw [hfill]
      apply shows_resolveArguments hnone hnone
    · refine ⟨_, shows_resolveArguments hv hraw template id, ?_⟩
      have hfill : Template.fill [.ofList vs, .ofList [(name, value)]] template
          = Template.fill [.ofList vs, .ofList []] template :=
        Template.fill_of_not_isUsable hu [.ofList vs] [] template
      rw [hfill]
      apply shows_resolveArguments hv hnone

/-- A replacement text for `user` next to one for another name. -/
theorem shows_replacement_user :
  replacementValue " user = Sam=1" = .ok ("user", " Sam=1")
    ∧ Shows (resolveArguments [" user = Sam=1"] [] "{{ user }}" "-m") " Sam=1"
    ∧ Shows (resolveArguments ["users=2"] [" user = Sam=1"] "{{ user }}" "-m") " Sam=1"
  := by
  have hread : replacementValue " user = Sam=1" = .ok ("user", " Sam=1") := by decide +kernel
  have hother : ["users=2"].mapM replacementValue = .ok [("users", "2")] := by decide +kernel
  exact ⟨hread, (shows_replacement hread (by decide) hother (by decide) "-m").1 (by decide)⟩

/-- A replacement for a name of two words is read, and it is not put in the place of the name. -/
theorem not_forall_shows_replacement :
  ¬ ∀ (raw name value id : String) (values : List String) (vs : List (String × String)),
    replacementValue raw = .ok (name, value) → value ≠ "" →
    values.mapM replacementValue = .ok vs → (∀ v ∈ vs, v.1 ≠ name) →
    Shows (resolveArguments [raw] [] (Template.named name) id) value
      ∧ Shows (resolveArguments values [raw] (Template.named name) id) value
  := by
  intro h
  obtain ⟨hshows, -⟩ := h "first name=Ada" "first name" "Ada" "m" [] [] (by decide +kernel)
    (by decide) rfl (List.forall_mem_nil _)
  have hreport := congrArg Prod.fst (hshows _ rfl false .empty)
  revert hreport
  decide +kernel

end Program
end Localization

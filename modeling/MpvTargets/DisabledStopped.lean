import MpvTargets.Admissibility
import MpvTargets.TargetFlags

/-! Disabled targets are stopped, as long as no `disable` commits its entry while the target runs: the
stop of `disable` and its commit are two sections, and a `start` may come in between. -/

namespace MpvTargets

def Inner.DisabledStopped (inner : Inner) : Prop :=
  ∀ name target, inner.targets.get? name = some target → target.config.disabled = true →
    target.stopped = true

/-- The section disables an enabled entry whose target is not stopped. -/
def CriticalSection.disablesRunning (toml : Toml) (inner : Inner) : CriticalSection → Bool
  | persistTargetChange name .disable external =>
      (inner.config.target? name).any fun entry =>
        !entry.disabled &&
          (validateAndPersist toml external
            (inner.config.setEntry name { entry with disabled := true })).isOk &&
          (inner.targets.get? name).any fun target => !target.stopped
  | _ => false

/-- The step is such a section. -/
def System.disablesRunning (toml : Toml) (s : System) : Label → Bool
  | .task index external =>
      (s.tasks[index]?).any fun task =>
        (task.pc.critical external).any (CriticalSection.disablesRunning toml s.inner)
  | _ => false

namespace Inner.DisabledStopped

variable {inner : Inner} {name : String} {toml : Toml}

theorem insert (h : inner.DisabledStopped) {config : DaemonConfig} {target : RuntimeTarget}
    (htarget : target.config.disabled = true → target.stopped = true) :
    Inner.DisabledStopped { config, targets := inner.targets.insert name target } := by
  intro other found hfound
  rw [OrderedMap.get?_insert] at hfound
  split_ifs at hfound
  · cases hfound
    exact htarget
  · exact h other found hfound

theorem erase (h : inner.DisabledStopped) {config : DaemonConfig} :
    Inner.DisabledStopped { config, targets := inner.targets.erase name } := by
  intro other found hfound
  rw [OrderedMap.get?_erase] at hfound
  split_ifs at hfound
  exact h other found hfound

theorem onTarget (h : inner.DisabledStopped) (op : TargetOp) :
    (inner.onTarget name op).inner.DisabledStopped := by
  rw [Inner.onTarget]
  split
  · exact h
  · rename_i target htarget
    refine h.insert fun hdisabled => ?_
    rw [op.run_config] at hdisabled
    have hstopped := h name target htarget hdisabled
    rw [op.run_stopped]
    split <;> simp [hstopped, hdisabled]

/-- A change of the configuration, unless it disables a running target. -/
theorem persistTargetChange (h : inner.DisabledStopped) (hagrees : inner.Agrees) {external : External}
    {change : ConfigChange}
    (hrunning : (CriticalSection.persistTargetChange name change external).disablesRunning toml inner =
      false) :
    (persistTargetChange toml external name change inner).1.inner.DisabledStopped := by
  rcases persistTargetChange_cases toml external name change inner with
    ⟨_, he⟩ | ⟨entry, persisted, _, source, hentry, hmutate, hsource, hcommit⟩
  · rw [he]
    exact h
  · rcases hcommit with ⟨_, he⟩ | ⟨target, htarget, he⟩
    · rw [he]
      exact h
    · rw [he]
      have hconfig := hagrees.target?_of_get? htarget
      rw [hentry] at hconfig
      cases hconfig
      refine h.insert fun hdisabled => ?_
      have hold := h name target htarget
      cases change with
      | enable => grind [ConfigChange.mutate]
      | setChannel channel => grind [ConfigChange.mutate]
      | disable =>
          simp only [ConfigChange.mutate] at hmutate
          split_ifs at hmutate with henabled
          cases hmutate
          simpa [CriticalSection.disablesRunning, hentry, htarget, henabled, hsource, Except.isOk,
            Except.toBool] using hrunning

theorem run (h : inner.DisabledStopped) (hagrees : inner.Agrees) {critical : CriticalSection}
    (hrunning : critical.disablesRunning toml inner = false) :
    (critical.run toml inner).inner.DisabledStopped := by
  cases critical with
  | onTarget name op => exact h.onTarget op
  | persistTargetChange name change external => exact h.persistTargetChange hagrees hrunning
  | addCommit candidate target => exact h.insert fun _ => rfl
  | removeCommit candidate name => exact h.erase
  | renameCommit candidate name replacement =>
      rw [CriticalSection.run, renameCommit]
      split
      · exact h
      · rename_i target htarget
        have herased : Inner.DisabledStopped
            { config := candidate, targets := inner.targets.erase name } := h.erase
        exact herased.insert (h name target htarget)

end Inner.DisabledStopped

/-- The section that disables a running target leaves it disabled and running. -/
theorem CriticalSection.not_disabledStopped {toml : Toml} {inner : Inner} {critical : CriticalSection}
    (h : critical.disablesRunning toml inner = true) :
    ¬(critical.run toml inner).inner.DisabledStopped := by
  cases critical with
  | persistTargetChange name change external =>
      cases change with
      | disable =>
          simp only [disablesRunning, Option.any_eq_true, Bool.and_eq_true, Bool.not_eq_true'] at h
          obtain ⟨entry, hentry, ⟨henabled, hpersisted⟩, target, htarget, hrunning⟩ := h
          cases hsource : validateAndPersist toml external
              (inner.config.setEntry name { entry with disabled := true }) with
          | error error =>
              rw [hsource] at hpersisted
              cases hpersisted
          | ok source =>
              intro hstopped
              simp only [run, MpvTargets.persistTargetChange, hentry, ConfigChange.mutate, henabled,
                hsource, htarget, Bool.false_eq_true, if_false] at hstopped
              have hname := hstopped name _ (OrderedMap.get?_insert_self ..) rfl
              rw [hrunning] at hname
              cases hname
      | enable => cases h
      | setChannel channel => cases h
  | _ => cases h

theorem Inner.disabledStopped_new (config : DaemonConfig) : (Inner.new config).DisabledStopped := by
  intro name target htarget hdisabled
  obtain ⟨entry, _, hentry⟩ := List.mem_map.mp (OrderedMap.mem_of_get?_ofList htarget)
  cases hentry
  exact hdisabled

namespace System

variable {toml : Toml} {s s' : System} {label : Label}

/-- One step keeps disabled targets stopped exactly when it does not disable a running one. -/
theorem disabledStopped_step (h : s.inner.DisabledStopped) (hconfigured : s.Configured toml)
    (hstep : System.step toml s label = some s') :
    s'.inner.DisabledStopped ↔ s.disablesRunning toml label = false := by
  rcases step_cases hstep with
    ⟨index, external, task, turn, rfl, _, htask, hturn, rfl⟩ | ⟨_, rfl, _, rfl⟩ | ⟨rfl, _, rfl⟩
  · rw [apply_inner hturn, disablesRunning, htask, Option.any_some]
    cases task.pc.critical external with
    | none => exact ⟨fun _ => rfl, fun _ => h⟩
    | some critical =>
        refine ⟨fun hstopped => ?_, fun hrunning => h.run hconfigured.agrees hrunning⟩
        by_contra hrunning
        exact CriticalSection.not_disabledStopped (Bool.eq_true_of_not_eq_false hrunning) hstopped
  · exact ⟨fun _ => rfl, fun _ => h⟩
  · exact ⟨fun _ => rfl, fun _ => h⟩

/-- What holds in every state of a run that disables no running target. -/
structure DisabledOff (toml : Toml) (s : System) : Prop where
  configured : s.Configured toml
  stopped : s.inner.DisabledStopped

end System

/-- **Disabled implies stopped**: every disabled target is stopped in every state of a run exactly when
the run never disables a target that is not stopped. -/
theorem disabled_targets_stopped_iff {toml : Toml} {config : DaemonConfig} {file : String}
    {history : List (System × Label)} {s : System} (hparses : toml.ParsesBack)
    (hfile : DaemonConfig.parse toml file = .ok config)
    (hrun : System.Run toml config file history s) :
    ((∀ entry ∈ history, entry.1.inner.DisabledStopped) ∧ s.inner.DisabledStopped) ↔
      ∀ entry ∈ history, entry.1.disablesRunning toml entry.2 = false := by
  have hvalid := validate_of_parse hfile
  constructor
  · rintro ⟨hvisited, hlast⟩ entry hentry
    obtain ⟨next, hstep, hnext⟩ := Trace.next_visited hrun hentry
    have hconfigured := (hrun.configured hparses hvalid hfile).2 entry hentry
    refine (System.disabledStopped_step (hvisited entry hentry) hconfigured hstep).mp ?_
    rcases hnext with ⟨later, hlater, rfl⟩ | rfl
    · exact hvisited later hlater
    · exact hlast
  · intro hcond
    have hstart : (System.initial config file).DisabledOff toml :=
      ⟨System.configured_initial hvalid hfile, Inner.disabledStopped_new config⟩
    have hstep : ∀ t label u, System.DisabledOff toml t → t.disablesRunning toml label = false →
        System.step toml t label = some u → System.DisabledOff toml u :=
      fun t label u ht hlabel hu => ⟨ht.configured.step hparses hu,
        (System.disabledStopped_step ht.stopped ht.configured hu).mpr hlabel⟩
    exact ⟨fun entry hentry => (Trace.invariant_visited hstart hstep hrun hcond entry hentry).stopped,
      (Trace.invariant hstart hstep hrun hcond).stopped⟩

/-- A `disable` of the running `tv` up to its commit: `tv` is stopped and its configuration is about to be
persisted. -/
def disableBeforeCommit : List Label :=
  startAttached ++ .request (.disable "tv") :: List.replicate 8 (.task 2 .ok)

/-- An undisturbed `disable` leaves `tv` disabled and stopped. -/
theorem disabled_targets_stopped_after_disable :
    ∃ history s, System.Run tvToml tvNode tvNode.toText history s ∧
      history.map Prod.snd = disableBeforeCommit ++ [.task 2 .ok] ∧
      s.inner.config = tvDisabledNode ∧ s.inner.DisabledStopped := by
  have hlabels : (runChecked (System.step tvToml) (fun s label => !s.disablesRunning tvToml label)
      (System.initial tvNode tvNode.toText) (disableBeforeCommit ++ [.task 2 .ok])).any
        (fun s => s.inner.config = tvDisabledNode) = true := by
    decide +kernel
  obtain ⟨history, s, hrun, hlabels, hcond, hresult⟩ := System.exists_run hlabels
  refine ⟨history, s, hrun, hlabels, of_decide_eq_true hresult, ?_⟩
  refine ((disabled_targets_stopped_iff tvToml_parsesBack tvNode_parse hrun).mpr ?_).2
  exact fun entry hentry => by simpa using hcond entry hentry

/-- A `start` that comes between the stop and the commit leaves `tv` disabled and running. -/
theorem disabled_target_left_running :
    ∃ history s, System.Run tvToml tvNode tvNode.toText history s ∧
      history.map Prod.snd =
        disableBeforeCommit ++ [.request (.start "tv"), .task 3 .ok, .task 2 .ok] ∧
      ¬s.inner.DisabledStopped := by
  have hlabels : (runChecked (System.step tvToml) (fun _ _ => true)
      (System.initial tvNode tvNode.toText)
      (disableBeforeCommit ++ [.request (.start "tv"), .task 3 .ok, .task 2 .ok])).any
        (fun s => (s.inner.targets.get? "tv").any fun target =>
          target.config.disabled && !target.stopped) = true := by
    decide +kernel
  obtain ⟨history, s, hrun, hlabels, _, hresult⟩ := System.exists_run hlabels
  refine ⟨history, s, hrun, hlabels, fun hstopped => ?_⟩
  simp only [Option.any_eq_true, Bool.and_eq_true, Bool.not_eq_true'] at hresult
  obtain ⟨target, htarget, hdisabled, hrunning⟩ := hresult
  rw [hstopped "tv" target htarget hdisabled] at hrunning
  cases hrunning

end MpvTargets

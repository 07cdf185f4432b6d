import MpvTargets.Admissibility
import MpvTargets.TaskShapes

/-! Recovery against an intentional stop. A recovery loop checks `stopped` in one section and calls
`start`, which clears it, in the next; where no stop falls into the gap, `stopped` is cleared by the
`start` of a client alone. -/

namespace MpvTargets

/-- A recovery loop that has checked the target and is about to start it. -/
def Task.recoversNext (name : String) (task : Task) : Bool :=
  match task.origin, task.pc with
  | .recovery, .start started => started = name
  | _, _ => false

/-- A client's `start` or `restart` takes effect: its section finds the target enabled. -/
def System.clientStarts (name : String) (s : System) : Label → Bool
  | .task index _ =>
      ((s.tasks[index]?).any fun task =>
        match task.origin, task.pc with
        | .request, .start started => started = name
        | _, _ => false) &&
      (s.inner.targets.get? name).any fun target => !target.config.disabled
  | _ => false

/-- The section stops the target, or brings the name in with a stopped target. -/
def CriticalSection.stops (name : String) (inner : Inner) : CriticalSection → Bool
  | onTarget stopped .stop | onTarget stopped .ensureDisabledOff => stopped = name
  | addCommit _ target => target.name = name
  | renameCommit _ old replacement =>
      replacement = name && (inner.targets.get? old).any RuntimeTarget.stopped
  | _ => false

/-- The step stops the target between the check of a recovery loop and its `start`. -/
def System.stopsInGap (name : String) (s : System) : Label → Bool
  | .task index external =>
      ((s.tasks[index]?).any fun task =>
        (task.pc.critical external).any (CriticalSection.stops name s.inner)) &&
      s.tasks.any (Task.recoversNext name)
  | _ => false

/-- Whether the target is intentionally stopped, where there is one. -/
def Inner.stopped? (inner : Inner) (name : String) : Option Bool :=
  (inner.targets.get? name).map RuntimeTarget.stopped

section

variable {toml : Toml} {inner : Inner} {name : String} {critical : CriticalSection}

theorem Inner.stopped?_onTarget (inner : Inner) (other : String) (op : TargetOp) :
    (inner.onTarget other op).inner.stopped? name =
      if name = other then (inner.targets.get? name).map fun target => (op.run target).1.stopped
      else inner.stopped? name := by
  rw [Inner.stopped?, Inner.get?_onTarget]
  split_ifs with hname
  · rw [hname, Option.map_map]
    rfl
  · rfl

theorem Inner.stopped?_insert (config : DaemonConfig) (targets : OrderedMap String RuntimeTarget)
    (other : String) (target : RuntimeTarget) :
    Inner.stopped? { config, targets := targets.insert other target } name =
      if name = other then some target.stopped
      else (targets.get? name).map RuntimeTarget.stopped := by
  rw [Inner.stopped?, OrderedMap.get?_insert]
  split_ifs <;> rfl

theorem Inner.stopped?_persist (external : External) (change : ConfigChange) (other : String) :
    (persistTargetChange toml external other change inner).1.inner.stopped? name =
      inner.stopped? name := by
  rcases persistTargetChange_cases toml external other change inner with
    ⟨_, he⟩ | ⟨_, _, _, _, _, _, _, ⟨_, he⟩ | ⟨target, htarget, he⟩⟩
  · rw [he]
  · rw [he]
    rfl
  · rw [he, Inner.stopped?_insert]
    split_ifs with hname
    · rw [Inner.stopped?, hname, htarget, Option.map_some]
    · rfl

/-- Where the section stops nothing, a target stopped after it was stopped before. -/
theorem CriticalSection.stopped_before (h : critical.stops name inner = false)
    (hafter : (critical.run toml inner).inner.stopped? name = some true) :
    inner.stopped? name = some true := by
  cases critical with
  | onTarget other op =>
      rw [run, Inner.stopped?_onTarget] at hafter
      split_ifs at hafter with hname
      · obtain ⟨target, htarget, hstopped⟩ := Option.map_eq_some_iff.mp hafter
        rw [op.run_stopped] at hstopped
        have hold : target.stopped = true := by
          cases op <;> simp_all [stops]
        rw [Inner.stopped?, htarget, Option.map_some, hold]
      · exact hafter
  | persistTargetChange other change external => rwa [run, Inner.stopped?_persist] at hafter
  | addCommit candidate target =>
      rw [run, MpvTargets.addCommit, Inner.stopped?_insert] at hafter
      split_ifs at hafter with hname
      · simp [stops, hname] at h
      · exact hafter
  | removeCommit candidate removed =>
      rw [run, MpvTargets.removeCommit, Inner.stopped?, OrderedMap.get?_erase] at hafter
      split_ifs at hafter
      · cases hafter
      · exact hafter
  | renameCommit candidate old replacement =>
      rw [run, MpvTargets.renameCommit] at hafter
      split at hafter
      · exact hafter
      · rename_i target htarget
        rw [Inner.stopped?_insert, OrderedMap.get?_erase] at hafter
        split_ifs at hafter with hname hold
        · have hstopped : target.stopped = true := Option.some.inj hafter
          simp [stops, hname, htarget, hstopped] at h
        · cases hafter
        · exact hafter

/-- An admissible section that clears `stopped` is the first one of `start`, on an enabled target. -/
theorem CriticalSection.eq_start (hadmissible : critical.Admissible inner)
    (hbefore : inner.stopped? name = some true)
    (hafter : (critical.run toml inner).inner.stopped? name = some false) :
    critical = .onTarget name .start ∧ ∃ target, inner.targets.get? name = some target ∧
      target.stopped = true ∧ target.config.disabled = false := by
  have hsame : (critical.run toml inner).inner.stopped? name ≠ inner.stopped? name := by
    rw [hbefore, hafter]
    simp
  have hmem : name ∈ inner.targets.keys := by
    obtain ⟨target, htarget, _⟩ := Option.map_eq_some_iff.mp hbefore
    exact (OrderedMap.mem_keys_iff _).mpr ⟨target, htarget⟩
  cases critical with
  | onTarget other op =>
      rw [run, Inner.stopped?_onTarget] at hafter hsame
      split_ifs at hafter hsame with hname
      · obtain ⟨target, htarget, hcleared⟩ := Option.map_eq_some_iff.mp hafter
        have hstopped : target.stopped = true := by
          simpa [Inner.stopped?, htarget] using hbefore
        rw [op.run_stopped] at hcleared
        cases op with
        | start =>
            rw [hstopped, Bool.true_and] at hcleared
            exact ⟨by rw [hname], target, htarget, hstopped, hcleared⟩
        | stop | ensureDisabledOff => cases hcleared
        | _ =>
            rw [hstopped] at hcleared
            cases hcleared
      · exact absurd rfl hsame
  | persistTargetChange other change external =>
      rw [run, Inner.stopped?_persist] at hsame
      exact absurd rfl hsame
  | addCommit candidate target =>
      rw [run, MpvTargets.addCommit, Inner.stopped?_insert] at hafter
      split_ifs at hafter with hname
      · exact absurd (hname ▸ hmem) hadmissible.1
      · exact absurd (hafter.symm.trans hbefore) (by simp)
  | removeCommit candidate removed =>
      rw [run, MpvTargets.removeCommit, Inner.stopped?, OrderedMap.get?_erase] at hafter
      split_ifs at hafter
      · cases hafter
      · exact absurd (hafter.symm.trans hbefore) (by simp)
  | renameCommit candidate old replacement =>
      rw [run, MpvTargets.renameCommit] at hafter
      split at hafter
      · exact absurd (hafter.symm.trans hbefore) (by simp)
      · rw [Inner.stopped?_insert, OrderedMap.get?_erase] at hafter
        split_ifs at hafter with hname hold
        · exact absurd (hname ▸ hmem) hadmissible.2.1
        · cases hafter
        · exact absurd (hafter.symm.trans hbefore) (by simp)

end

/-- A recovery loop comes to `start` from a check that found the target not stopped. -/
theorem Task.turn_recoversNext {toml : Toml} {view : View} {task : Task} {external : External}
    {turn : Turn} (h : task.turn toml view external = some turn) {name other : String}
    (hat : RecoveryAt other task.pc task.callers) (hpc : turn.pc = .start name) :
    task.pc.runs name .stillExpected ∧ ∃ target, view.inner.targets.get? name = some target ∧
      target.stopped = false := by
  rcases task with ⟨origin, pc, callers⟩
  cases hat with
  | admission =>
      simp only [Task.turn] at h
      split at h <;> cases h <;> cases hpc
  | check delay =>
      simp only [Task.turn] at h
      split at h
      · rename_i hvalue
        cases h
        cases hpc
        obtain ⟨target, htarget, hexpected⟩ := Option.map_eq_some_iff.mp hvalue
        refine ⟨⟨delay, rfl⟩, target, htarget, ?_⟩
        rw [stillExpectedSection] at hexpected
        split_ifs at hexpected with hoff
        exact (Bool.or_eq_false_iff.mp (Bool.eq_false_of_not_eq_true hoff)).2
      · cases h
        cases hpc
  | done => cases h
  | start delay hstarts =>
      have hresume : ∀ result, (resume result [.recovery other delay]).pc ≠ .start name := by
        intro result
        cases result <;> simp [resume]
      cases pc
      all_goals simp only [Pc.starts, Pc.started, Pc.launches, decide_eq_true_eq,
        Bool.false_eq_true] at hstarts
      all_goals simp only [Task.turn] at h
      all_goals grind

/-- A recovery loop that is about to start the target finds it not stopped. -/
structure System.GapHolds (toml : Toml) (name : String) (s : System) : Prop where
  admits : s.Admits toml
  started : s.Started
  shaped : s.Shaped
  fresh : ∀ task ∈ s.tasks, task.recoversNext name = true → s.inner.stopped? name ≠ some true

namespace System.GapHolds

variable {toml : Toml} {s s' : System} {name : String} {label : Label}

theorem initial {config : DaemonConfig} {file : String} (hparses : toml.ParsesBack)
    (hfile : DaemonConfig.parse toml file = .ok config) :
    (System.initial config file).GapHolds toml name where
  admits := (System.Run.admits hparses hfile Trace.refl).1
  started := ⟨_, _, _, System.startsUp_initial config file⟩
  shaped := System.shaped_initial config file
  fresh := by
    intro task htask hnext
    rw [List.mem_singleton.mp htask] at hnext
    cases hnext

/-- Only the `start` of a client clears `stopped`. -/
theorem clientStarts (h : s.GapHolds toml name) (hstep : System.step toml s label = some s')
    (hbefore : s.inner.stopped? name = some true) (hafter : s'.inner.stopped? name = some false) :
    s.clientStarts name label = true := by
  have hsame : s'.inner ≠ s.inner := by
    intro heq
    rw [heq, hbefore] at hafter
    cases hafter
  rcases step_cases hstep with
    ⟨index, external, task, turn, rfl, _, htask, hturn, rfl⟩ | ⟨_, rfl, _, rfl⟩ | ⟨rfl, _, rfl⟩
  · have hmem := List.mem_of_getElem? htask
    rw [apply_inner hturn] at hafter hsame
    cases hcritical : task.pc.critical external with
    | none =>
        rw [hcritical] at hsame
        exact absurd rfl hsame
    | some critical =>
        rw [hcritical] at hafter
        obtain ⟨rfl, target, htarget, hstopped, henabled⟩ :=
          CriticalSection.eq_start (h.admits.admissible hmem hcritical) hbefore hafter
        have hpc : task.pc = .start name := Pc.runs_of_critical hcritical
        have hshaped := h.shaped task hmem
        cases horigin : task.origin with
        | request => simp [System.clientStarts, htask, horigin, hpc, htarget, henabled]
        | startup =>
            -- a target that is still to be started is stopped only if it is disabled
            obtain ⟨pending, hat, huntouched⟩ := h.started.startup_at hmem horigin
            rw [hpc] at hat
            generalize task.callers = callers at hat
            cases hat with
            | start _ rest =>
                obtain ⟨entry, hentry⟩ := huntouched name List.mem_cons_self
                rw [htarget] at hentry
                cases hentry
                exact absurd (hstopped.symm.trans henabled) (by simp)
            | started hstarted => cases hstarted
            | ensured hensures => cases hensures
        | recovery =>
            exact absurd hbefore (h.fresh task hmem (by simp [Task.recoversNext, horigin, hpc]))
        | observer connection =>
            simp only [Task.Shaped, horigin, hpc, Pc.observes, Bool.false_eq_true, false_and,
              exists_false] at hshaped
  · exact absurd rfl hsame
  · exact absurd rfl hsame

theorem step (h : s.GapHolds toml name) (hparses : toml.ParsesBack)
    (hgap : s.stopsInGap name label = false) (hstep : System.step toml s label = some s') :
    s'.GapHolds toml name := by
  refine ⟨h.admits.step hparses hstep, h.started.step hstep, h.shaped.step hstep, ?_⟩
  rcases step_cases hstep with
    ⟨index, external, task, turn, rfl, _, htask, hturn, rfl⟩ | ⟨request, rfl, _, rfl⟩ | ⟨rfl, _, rfl⟩
  · have hmem := List.mem_of_getElem? htask
    rw [apply_inner hturn]
    refine TaskPool.forall_advance ?_ ?_ ?_
    · intro hnext
      simp only [Task.recoversNext] at hnext
      split at hnext
      · rename_i started horigin hpc
        obtain rfl : started = name := by simpa using hnext
        have hshaped := h.shaped task hmem
        rw [Task.Shaped, horigin] at hshaped
        obtain ⟨other, hat⟩ := hshaped
        obtain ⟨hruns, target, htarget, hstopped⟩ := Task.turn_recoversNext hturn hat hpc
        rw [Pc.critical_of_runs hruns external, Inner.after, CriticalSection.run,
          Inner.stopped?_onTarget, if_pos rfl]
        change Option.map _ (s.inner.targets.get? started) ≠ _
        rw [show s.inner.targets.get? started = some target from htarget, Option.map_some,
          TargetOp.run_stopped]
        simp [hstopped]
      · cases hnext
    · intro position other _ hother hnext hafter
      have hothers := List.mem_of_getElem? hother
      refine h.fresh other hothers hnext ?_
      cases hcritical : task.pc.critical external with
      | none => rwa [hcritical] at hafter
      | some critical =>
          rw [hcritical] at hafter
          refine CriticalSection.stopped_before ?_ hafter
          have hany : s.tasks.any (Task.recoversNext name) = true :=
            List.any_eq_true.mpr ⟨other, hothers, hnext⟩
          simpa [stopsInGap, htask, hcritical, hany] using hgap
    · intro other hother hnext
      rcases Task.turn_spawned hturn hother with ⟨_, rfl⟩ | ⟨_, _, _, _, _, rfl⟩ <;> cases hnext
  · intro task htask hnext
    rcases List.mem_append.mp htask with hold | hnew
    · exact h.fresh task hold hnext
    · rw [List.mem_singleton.mp hnew] at hnext
      cases request <;> cases hnext
  · exact h.fresh

/-- A stopped target that is still there is still stopped, unless a client started it. -/
theorem stays_stopped (h : s.GapHolds toml name) (hstep : System.step toml s label = some s')
    (hbefore : s.inner.stopped? name = some true) (hclient : s.clientStarts name label = false)
    (hkept : name ∈ s'.inner.targets.keys) : s'.inner.stopped? name = some true := by
  obtain ⟨target, htarget⟩ := (OrderedMap.mem_keys_iff _).mp hkept
  have hafter : s'.inner.stopped? name = some target.stopped := by
    rw [Inner.stopped?, htarget, Option.map_some]
  cases hstopped : target.stopped with
  | true => rw [hafter, hstopped]
  | false =>
      rw [hstopped] at hafter
      rw [h.clientStarts hstep hbefore hafter] at hclient
      cases hclient

end System.GapHolds

/-- The target is stopped, in a run that leaves the gap alone. -/
structure System.StaysStopped (toml : Toml) (name : String) (s : System) : Prop where
  holds : s.GapHolds toml name
  stopped : s.inner.stopped? name = some true

/-- **Recovery never overrides an intentional stop** in a run in which no stop falls between the check of
a recovery loop and its `start`: `stopped` is cleared by a client's `start` alone, and a target once
stopped stays so until then while it is there. -/
theorem stop_survives_recovery {toml : Toml} {config : DaemonConfig} {file name : String}
    {history later : List (System × Label)} {t s : System} (hparses : toml.ParsesBack)
    (hfile : DaemonConfig.parse toml file = .ok config)
    (hrun : System.Run toml config file history t)
    (hlater : Trace (System.step toml) t later s)
    (hgap : ∀ entry ∈ history ++ later, entry.1.stopsInGap name entry.2 = false) :
    (∀ entry ∈ history ++ later, ∀ next, System.step toml entry.1 entry.2 = some next →
      entry.1.inner.stopped? name = some true → next.inner.stopped? name = some false →
        entry.1.clientStarts name entry.2 = true) ∧
    (t.inner.stopped? name = some true →
      (∀ entry ∈ later, entry.1.clientStarts name entry.2 = false ∧
        name ∈ entry.1.inner.targets.keys) →
      name ∈ s.inner.targets.keys → s.inner.stopped? name = some true) := by
  have hstep : ∀ t label u, System.GapHolds toml name t → t.stopsInGap name label = false →
      System.step toml t label = some u → System.GapHolds toml name u :=
    fun t label u ht hlabel hu => ht.step hparses hlabel hu
  have hstart : (System.initial config file).GapHolds toml name :=
    System.GapHolds.initial hparses hfile
  constructor
  · intro entry hentry next hnext hbefore hafter
    have hholds := Trace.invariant_visited hstart hstep (hrun.trans hlater) hgap entry hentry
    exact hholds.clientStarts hnext hbefore hafter
  · intro hstopped hlabels hlast
    have hmiddle : t.StaysStopped toml name :=
      ⟨Trace.invariant hstart hstep hrun fun entry hentry =>
        hgap entry (List.mem_append_left _ hentry), hstopped⟩
    have hnext : ∀ t label u, System.StaysStopped toml name t →
        (t.stopsInGap name label = false ∧ t.clientStarts name label = false ∧
          ∀ v, System.step toml t label = some v → name ∈ v.inner.targets.keys) →
        System.step toml t label = some u → System.StaysStopped toml name u :=
      fun t label u ht hlabel hu => ⟨ht.holds.step hparses hlabel.1 hu,
        ht.holds.stays_stopped hu ht.stopped hlabel.2.1 (hlabel.2.2 u hu)⟩
    refine (Trace.invariant hmiddle hnext hlater fun entry hentry => ?_).stopped
    refine ⟨hgap entry (List.mem_append_right _ hentry), (hlabels entry hentry).1, fun v hv => ?_⟩
    obtain ⟨next, hnext, hvisited⟩ := Trace.next_visited hlater hentry
    cases hv.symm.trans hnext
    rcases hvisited with ⟨later', hlater', rfl⟩ | rfl
    · exact (hlabels later' hlater').2
    · exact hlast

/-- A `stop` of the offline `tv` from its first step to its end, as task 3. -/
def stopOfflineTv : List Label := .request (.stop "tv") :: List.replicate 4 (.task 3 .ok)

/-- A recovery loop that checks the target after the stop leaves it stopped. -/
theorem stop_survives_recovery_before_check :
    ∃ history t s, System.Run tvToml tvNode tvNode.toText history t ∧
      history.map Prod.snd = lost ++ .task 2 .ok :: stopOfflineTv ∧
      System.step tvToml t (.task 2 .ok) = some s ∧ s.inner.stopped? "tv" = some true := by
  have hlabels : (runChecked (System.step tvToml) (fun s label => !s.stopsInGap "tv" label)
      (System.initial tvNode tvNode.toText) (lost ++ .task 2 .ok :: stopOfflineTv)).any
        (fun t => t.inner.stopped? "tv" = some true && !t.stopsInGap "tv" (.task 2 .ok) &&
          !t.clientStarts "tv" (.task 2 .ok) && decide ("tv" ∈ t.inner.targets.keys) &&
          (System.step tvToml t (.task 2 .ok)).any fun s => "tv" ∈ s.inner.targets.keys) = true := by
    decide +kernel
  obtain ⟨history, t, hrun, hlabels, hchecks, hresult⟩ := System.exists_run hlabels
  simp only [Bool.and_eq_true, Bool.not_eq_true', Option.any_eq_true, decide_eq_true_eq]
    at hchecks hresult
  obtain ⟨⟨⟨⟨hstopped, hgap⟩, hclient⟩, hkept⟩, s, hstep, hlast⟩ := hresult
  refine ⟨history, t, s, hrun, hlabels, hstep, ?_⟩
  have hall : ∀ entry ∈ history ++ [(t, Label.task 2 .ok)],
      entry.1.stopsInGap "tv" entry.2 = false := by
    intro entry hentry
    rcases List.mem_append.mp hentry with hold | hnew
    · exact hchecks entry hold
    · rw [List.mem_singleton.mp hnew]
      exact hgap
  refine (stop_survives_recovery tvToml_parsesBack tvNode_parse hrun (Trace.single hstep) hall).2
    hstopped ?_ hlast
  intro entry hentry
  rw [List.mem_singleton.mp hentry]
  exact ⟨hclient, hkept⟩

/-- A stop that comes between the check of the loop and its `start` is overridden. -/
theorem stop_overridden_by_recovery :
    ∃ history t s, System.Run tvToml tvNode tvNode.toText history t ∧
      history.map Prod.snd = lost ++ .task 2 .ok :: .task 2 .ok :: stopOfflineTv ∧
      System.step tvToml t (.task 2 .ok) = some s ∧ t.clientStarts "tv" (.task 2 .ok) = false ∧
      t.inner.stopped? "tv" = some true ∧ s.inner.stopped? "tv" = some false := by
  have hlabels : (runChecked (System.step tvToml) (fun _ _ => true)
      (System.initial tvNode tvNode.toText) (lost ++ .task 2 .ok :: .task 2 .ok :: stopOfflineTv)).any
        (fun t => !t.clientStarts "tv" (.task 2 .ok) && t.inner.stopped? "tv" = some true &&
          (System.step tvToml t (.task 2 .ok)).any fun s => s.inner.stopped? "tv" = some false) =
        true := by
    decide +kernel
  obtain ⟨history, t, hrun, hlabels, _, hresult⟩ := System.exists_run hlabels
  simp only [Bool.and_eq_true, Bool.not_eq_true', Option.any_eq_true, decide_eq_true_eq] at hresult
  obtain ⟨⟨hclient, hstopped⟩, s, hstep, hcleared⟩ := hresult
  exact ⟨history, t, s, hrun, hlabels, hstep, hclient, hstopped, hcleared⟩

end MpvTargets

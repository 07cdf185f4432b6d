import MpvTargets.Scenario
import MpvTargets.TaskShapes

/-! An intentional stop against a launch in flight. `mark_online` does not look at `stopped`: where it
never turns a stopped target online, a target that is stopped and still online has a `stop` on its way to
`mark_offline`. -/

namespace MpvTargets

/-- `stop` after its first section, up to `mark_offline`. -/
def Pc.stopping (name : String) : Pc → Bool
  | stopQuit stopped | stopGone stopped | stopOffline stopped => stopped = name
  | clearObserved cleared clearing | clearObservedSend cleared clearing =>
      cleared = name ∧ clearing = .stop
  | _ => false

/-- mpv obeys the quits of `stop`: they succeed, and the socket then disappears. -/
def System.obeys (name : String) (s : System) : Label → Bool
  | .task index external =>
      (s.tasks[index]?).all fun task =>
        match task.pc, external with
        | .stopQuit stopped, .failed _ | .stopGone stopped, .failed _ => stopped ≠ name
        | _, _ => true
  | _ => true

/-- A launch ends in the `mark_online` of an offline target that is stopped, with no `stop` on its way to
`mark_offline`. -/
def System.revivesStopped (name : String) (s : System) : Label → Bool
  | .task index _ =>
      ((s.tasks[index]?).any fun task =>
        match task.pc with
        | .launchOnline launched | .startupOnline launched _ => launched = name
        | _ => false) &&
      ((s.inner.targets.get? name).any fun target => !target.online && target.stopped) &&
      !s.tasks.any fun task => task.pc.stopping name
  | _ => false

section

variable {toml : Toml} {view : View} {task : Task} {external : External} {turn : Turn} {name : String}

/-- When mpv obeys, a `stop` goes on to its `mark_offline`. -/
theorem Task.turn_stopping (h : task.turn toml view external = some turn)
    (hpc : task.pc.stopping name = true)
    (hobeys : ∀ error, (task.pc = .stopQuit name ∨ task.pc = .stopGone name) →
      external ≠ .failed error) :
    turn.pc.stopping name = true ∨ task.pc = .stopOffline name := by
  rcases task with ⟨origin, pc, callers⟩
  cases pc
  all_goals simp only [Pc.stopping, decide_eq_true_eq, Bool.false_eq_true] at hpc
  all_goals simp only [Task.turn] at h
  all_goals grind [Pc.stopping]

/-- The section of `stop` sends the task on its way when the target is online. -/
theorem Task.turn_stop (h : task.turn toml view external = some turn) (hpc : task.pc = .stop name)
    {target : RuntimeTarget} (htarget : view.inner.targets.get? name = some target)
    (hstopped : target.stopped = false) : turn.pc.stopping name = true := by
  rcases task with ⟨origin, pc, callers⟩
  subst hpc
  simp only [Task.turn, htarget] at h
  grind [Pc.stopping, stopSection]

/-- Only an operation of a client stops a target. -/
theorem Task.operates_of_stopping (hshaped : task.Shaped) (horigin : task.origin ≠ .startup)
    (hpc : task.pc.stopping name = true) : task.operates name = true := by
  rcases task with ⟨origin, pc, callers⟩
  cases origin with
  | request =>
      have hmem : name ∈ pc.names := by
        cases pc <;> simp_all [Pc.stopping, Pc.names]
      simp [Task.operates, Task.names, hmem]
  | startup => exact absurd rfl horigin
  | recovery =>
      obtain ⟨other, hat⟩ := hshaped
      cases hat with
      | start delay hstarts => cases pc <;> simp_all [Pc.stopping, Pc.starts, Pc.started, Pc.launches]
      | _ => cases hpc
  | observer connection =>
      obtain ⟨other, hobserves, _⟩ := hshaped
      cases pc <;> simp_all [Pc.stopping, Pc.observes, Clearing.loses]

end

/-- A target that is stopped and online has a `stop` on its way. -/
structure System.StopsHold (name : String) (s : System) : Prop where
  regular : s.Regular name
  stopping : ∀ target, s.inner.targets.get? name = some target → target.stopped = true →
    target.online = true → ∃ task ∈ s.tasks, task.pc.stopping name = true

namespace System.StopsHold

variable {toml : Toml} {s s' : System} {name : String}

/-- Before a step that leaves the target stopped and online a `stop` was on its way, or the step is the
first section of one. -/
theorem stopping_before (h : s.StopsHold name) {index : Nat} {task : Task} {external : External}
    {turn : Turn} (htask : s.tasks[index]? = some task)
    (hturn : task.turn toml s.view external = some turn)
    (hrevives : s.revivesStopped name (.task index external) = false) {after : RuntimeTarget}
    (hafter : (s.apply toml index task turn).inner.targets.get? name = some after)
    (hstopped : after.stopped = true) (honline : after.online = true) :
    (∃ other ∈ s.tasks, other.pc.stopping name = true) ∨ turn.pc.stopping name = true := by
  rcases target_step h.regular.keeps htask hturn with
    ⟨_, hsame⟩ | ⟨op, hruns, hop⟩ | ⟨change, hpc, hchange⟩
  · rw [hsame] at hafter
    exact Or.inl (h.stopping after hafter hstopped honline)
  · rw [hop] at hafter
    obtain ⟨target, htarget, rfl⟩ := Option.map_eq_some_iff.mp hafter
    have hold := h.stopping target htarget
    rw [op.run_stopped] at hstopped
    rw [op.run_online] at honline
    cases op with
    | start => exact Or.inl (hold (Bool.and_eq_true_iff.mp hstopped).1 honline)
    | stop =>
        cases hwas : target.stopped with
        | true => exact Or.inl (hold hwas honline)
        | false => exact Or.inr (Task.turn_stop hturn hruns htarget hwas)
    | markOnline =>
        cases hwas : target.online with
        | true => exact Or.inl (hold hstopped hwas)
        | false =>
            simp only [revivesStopped, htask, Option.any_some, htarget, hwas,
              show target.stopped = true from hstopped] at hrevives
            refine Or.inl ?_
            rcases hruns with hpc | ⟨_, hpc⟩ <;> simpa [hpc] using hrevives
    | targetLost | ensureDisabledOff | markOffline => cases honline
    | _ => exact Or.inl (hold hstopped honline)
  · rcases hchange with hsame | ⟨target, config, revision, htarget, hchanged⟩
    · rw [hsame] at hafter
      exact Or.inl (h.stopping after hafter hstopped honline)
    · rw [hchanged] at hafter
      cases hafter
      exact Or.inl (h.stopping target htarget hstopped honline)

theorem step (h : s.StopsHold name) {label : Label} (hlabel : label.restructures name = false)
    (hobeys : s.obeys name label = true) (hrevives : s.revivesStopped name label = false)
    (hstep : System.step toml s label = some s') : s'.StopsHold name := by
  refine ⟨h.regular.step hlabel hstep, ?_⟩
  rcases step_cases hstep with
    ⟨index, external, task, turn, rfl, _, htask, hturn, rfl⟩ | ⟨_, rfl, _, rfl⟩ | ⟨rfl, _, rfl⟩
  · intro after hafter hstopped honline
    have hself : turn.pc.stopping name = true →
        ∃ other ∈ (s.apply toml index task turn).tasks, other.pc.stopping name = true :=
      fun hpc => ⟨_, TaskPool.mem_advance_self htask, hpc⟩
    rcases h.stopping_before htask hturn hrevives hafter hstopped honline with hbefore | hturned
    · refine TaskPool.exists_advance hbefore htask fun hpc => hself ?_
      refine (Task.turn_stopping hturn hpc ?_).resolve_right ?_
      · rintro error hquits rfl
        rcases hquits with hpc | hpc <;> simp [obeys, htask, hpc] at hobeys
      · -- the section of `mark_offline` would have left the target offline
        intro hoffline
        rw [apply_inner hturn, hoffline] at hafter
        change (s.inner.onTarget name .markOffline).inner.targets.get? name = some after at hafter
        rw [Inner.get?_onTarget, if_pos rfl] at hafter
        obtain ⟨target, _, rfl⟩ := Option.map_eq_some_iff.mp hafter
        rw [TargetOp.run_online] at honline
        cases honline
    · exact hself hturned
  · intro target htarget hstopped honline
    obtain ⟨task, htask, hpc⟩ := h.stopping target htarget hstopped honline
    exact ⟨task, List.mem_append_left _ htask, hpc⟩
  · exact h.stopping

end System.StopsHold

/-- **An intentional stop is not lost** in a run in which no launch ends on a stopped target: once no
operation, launch or loss handler of it is in progress, a stopped target is offline. -/
theorem stopped_target_offline {toml : Toml} {config : DaemonConfig} {file name : String}
    {history : List (System × Label)} {s : System} (hrun : System.Run toml config file history s)
    (hhistory : ∀ entry ∈ history, entry.2.restructures name = false)
    (hobeys : ∀ entry ∈ history, entry.1.obeys name entry.2 = true)
    (hrevives : ∀ entry ∈ history, entry.1.revivesStopped name entry.2 = false)
    (hquiet : s.quiet name = true) {target : RuntimeTarget}
    (htarget : s.inner.targets.get? name = some target) (hstopped : target.stopped = true) :
    target.online = false := by
  have hstart : (System.initial config file).StopsHold name := by
    refine ⟨System.Regular.initial name config file, ?_⟩
    intro target htarget _ honline
    obtain ⟨entry, _, hentry⟩ := List.mem_map.mp (OrderedMap.mem_of_get?_ofList htarget)
    cases hentry
    cases honline
  have hstep : ∀ t label u, System.StopsHold name t →
      (label.restructures name = false ∧ t.obeys name label = true ∧
        t.revivesStopped name label = false) →
      System.step toml t label = some u → System.StopsHold name u :=
    fun t label u ht hlabel hu => ht.step hlabel.1 hlabel.2.1 hlabel.2.2 hu
  have hholds := Trace.invariant hstart hstep hrun fun entry hentry =>
    ⟨hhistory entry hentry, hobeys entry hentry, hrevives entry hentry⟩
  by_contra hne
  obtain ⟨task, htask, hpc⟩ :=
    hholds.stopping target htarget hstopped (Bool.eq_true_of_not_eq_false hne)
  have hshaped := hholds.regular.shaped task htask
  have hnot := List.all_eq_true.mp hquiet task htask
  have horigin : task.origin ≠ .startup := by
    intro hstartup
    obtain ⟨result, hdone⟩ := System.origin_of_quiet hquiet htask hstartup
    rw [hdone] at hpc
    cases hpc
  simp [Task.operates_of_stopping hshaped horigin hpc] at hnot

/-- After an undisturbed stop `tv` is offline. -/
theorem stopped_target_offline_tv :
    ∃ history s, System.Run tvToml tvNode tvNode.toText history s ∧
      history.map Prod.snd = startAttached ++ stopRunning ∧
      ∃ target, s.inner.targets.get? "tv" = some target ∧ target.stopped = true ∧
        target.online = false := by
  have hlabels : (runChecked (System.step tvToml)
      (fun s label => !label.restructures "tv" && s.obeys "tv" label && !s.revivesStopped "tv" label)
      (System.initial tvNode tvNode.toText) (startAttached ++ stopRunning)).any
        (fun s => s.quiet "tv" && (s.inner.targets.get? "tv").any fun target => target.stopped) =
          true := by
    decide +kernel
  obtain ⟨history, s, hrun, hlabels, hchecks, hresult⟩ := System.exists_run hlabels
  simp only [Bool.and_eq_true, Bool.not_eq_true', Option.any_eq_true] at hchecks hresult
  obtain ⟨hquiet, target, htarget, hstopped⟩ := hresult
  refine ⟨history, s, hrun, hlabels, target, htarget, hstopped, ?_⟩
  exact stopped_target_offline hrun (fun entry hentry => (hchecks entry hentry).1.1)
    (fun entry hentry => (hchecks entry hentry).1.2) (fun entry hentry => (hchecks entry hentry).2)
    hquiet htarget hstopped

/-- A stop that comes while mpv is being spawned succeeds, and the launch then leaves `tv` stopped and
online. -/
theorem stopped_target_left_online :
    ∃ history s, System.Run tvToml tvNode tvNode.toText history s ∧
      history.map Prod.snd = relaunching ++ .request (.stop "tv") :: List.replicate 4 (.task 4 .ok) ++
        List.replicate 3 (.task 3 .ok) ∧
      (∀ entry ∈ history, entry.2.restructures "tv" = false ∧ entry.1.obeys "tv" entry.2 = true) ∧
      s.quiet "tv" = true ∧ ∃ target, s.inner.targets.get? "tv" = some target ∧
        target.stopped = true ∧ target.online = true := by
  have hlabels : (runChecked (System.step tvToml)
      (fun s label => !label.restructures "tv" && s.obeys "tv" label)
      (System.initial tvNode tvNode.toText)
      (relaunching ++ .request (.stop "tv") :: List.replicate 4 (.task 4 .ok) ++
        List.replicate 3 (.task 3 .ok))).any
        (fun s => s.quiet "tv" && (s.inner.targets.get? "tv").any fun target =>
          target.stopped && target.online) = true := by
    decide +kernel
  obtain ⟨history, s, hrun, hlabels, hchecks, hresult⟩ := System.exists_run hlabels
  simp only [Bool.and_eq_true, Bool.not_eq_true', Option.any_eq_true] at hchecks hresult
  exact ⟨history, s, hrun, hlabels, hchecks, hresult⟩

end MpvTargets

import MpvTargets.Scenario
import MpvTargets.TaskShapes

/-! One launch at a time. The `launching` flag guards the launch that set it, except against
`ensure_disabled_off`, which clears the flag whoever set it. -/

namespace MpvTargets

/-- At most one launch of the target is in flight, and `launching` is set while one is. -/
structure System.SingleLaunch (name : String) (s : System) : Prop where
  atMostOne : TaskPool.AtMostOne (fun task => task.pc.launches name = true) s.tasks
  launching : ∀ task ∈ s.tasks, task.pc.launches name = true →
    ∃ target, s.inner.targets.get? name = some target ∧ target.launching = true

/-- `ensure_disabled_off` finishes while a launch of the target is in flight. -/
def System.interruptsLaunch (name : String) (s : System) : Label → Bool
  | .task index _ =>
      ((s.tasks[index]?).any fun task =>
        match task.pc with
        | .ensureOff ensured => ensured = name
        | _ => false) &&
      s.tasks.any fun task => task.pc.launches name
  | _ => false

section

variable {toml : Toml} {view : View} {task : Task} {external : External} {turn : Turn} {name : String}

/-- A launch in flight was so before, or `start` has decided to launch. -/
theorem Pc.Leads.launches_before {pc pc' : Pc} (h : pc.Leads toml view external pc')
    (hpc : pc'.launches name = true) :
    (pc.launches name = true ∧ pc.critical external = none) ∨
      pc = .start name ∧ ∃ target, view.inner.targets.get? name = some target ∧
        target.config.disabled = false ∧ target.online = false ∧ target.launching = false := by
  cases h with
  | next hnext =>
      cases hnext with
      | startLaunch started target htarget henabled hoffline hlaunching =>
          obtain rfl : started = name := by simpa [Pc.launches] using hpc
          exact Or.inr ⟨rfl, target, htarget, henabled, hoffline, hlaunching⟩
      | _ => first | exact Or.inl ⟨hpc, rfl⟩ | cases hpc
  | call hcalls => cases hcalls <;> cases hpc
  | resume hresumes => cases pc' <;> first | cases hpc | cases hresumes
  | panic => cases hpc

theorem Task.spawned_launches (h : task.turn toml view external = some turn) {other : Task}
    (hother : other ∈ turn.spawned) : other.pc.launches name = false := by
  rcases Task.turn_spawned h hother with ⟨_, rfl⟩ | ⟨_, _, _, _, _, rfl⟩ <;> rfl

end

/-- While a launch is in flight its target is marked as launching and offline. -/
structure System.Guarded (name : String) (s : System) : Prop where
  regular : s.Regular name
  atMostOne : TaskPool.AtMostOne (fun task => task.pc.launches name = true) s.tasks
  launching : ∀ task ∈ s.tasks, task.pc.launches name = true →
    ∃ target, s.inner.targets.get? name = some target ∧ target.launching = true ∧
      target.online = false

namespace System.Guarded

variable {toml : Toml} {s s' : System} {name : String} {label : Label}

theorem singleLaunch (h : s.Guarded name) : s.SingleLaunch name where
  atMostOne := h.atMostOne
  launching := by
    intro task htask hpc
    obtain ⟨target, htarget, hlaunching, _⟩ := h.launching task htask hpc
    exact ⟨target, htarget, hlaunching⟩

theorem initial (name : String) (config : DaemonConfig) (file : String) :
    (System.initial config file).Guarded name where
  regular := System.Regular.initial name config file
  atMostOne := TaskPool.AtMostOne.singleton _ _
  launching := by
    intro task htask hpc
    rw [List.mem_singleton.mp htask] at hpc
    cases hpc

/-- A step of another task leaves the flag of a launch in flight alone. -/
theorem launching_other (h : s.Guarded name) {index position : Nat} {task other : Task}
    {external : External} {turn : Turn} (htask : s.tasks[index]? = some task)
    (hturn : task.turn toml s.view external = some turn)
    (hinterrupts : s.interruptsLaunch name (.task index external) = false)
    (hother : s.tasks[position]? = some other) (hne : position ≠ index)
    (hpc : other.pc.launches name = true) :
    ∃ target, (s.apply toml index task turn).inner.targets.get? name = some target ∧
      target.launching = true ∧ target.online = false := by
  have hmem := List.mem_of_getElem? hother
  obtain ⟨target, htarget, hlaunching, hoffline⟩ := h.launching other hmem hpc
  have hself : task.pc.launches name = false := by
    rw [Bool.eq_false_iff]
    exact fun hlaunches => hne (h.atMostOne position index other task hother htask hpc hlaunches)
  have honline : ¬task.pc.runs name .markOnline := by
    rintro (hruns | ⟨rest, hruns⟩)
    · simp [hruns, Pc.launches] at hself
    · obtain ⟨entry, hentry⟩ := startupOnline_initial h.regular.started h.regular.shaped
        (List.mem_of_getElem? htask) hruns
      rw [htarget] at hentry
      cases hentry
      cases hlaunching
  rcases target_step h.regular.keeps htask hturn with
    ⟨_, hsame⟩ | ⟨op, hruns, hop⟩ | ⟨_, _, hsame | ⟨found, config, revision, hfound, hchanged⟩⟩
  · exact ⟨target, hsame.trans htarget, hlaunching, hoffline⟩
  · rw [htarget, Option.map_some] at hop
    refine ⟨_, hop, ?_, ?_⟩
    · rw [op.run_launching]
      cases op with
      | start | targetLost | markOffline => simp [hlaunching, hoffline]
      | markOnline => exact absurd hruns honline
      | clearLaunching =>
          obtain ⟨error, hruns⟩ := hruns
          simp [hruns, Pc.launches] at hself
      | ensureDisabledOff =>
          have hany : (s.tasks.any fun task => task.pc.launches name) = true :=
            List.any_eq_true.mpr ⟨other, hmem, hpc⟩
          simp [interruptsLaunch, htask, show task.pc = .ensureOff name from hruns, hany]
            at hinterrupts
      | _ => exact hlaunching
    · rw [op.run_online]
      cases op with
      | markOnline => exact absurd hruns honline
      | targetLost | markOffline | ensureDisabledOff => rfl
      | _ => exact hoffline
  · exact ⟨target, hsame.trans htarget, hlaunching, hoffline⟩
  · rw [htarget] at hfound
    cases hfound
    exact ⟨_, hchanged, hlaunching, hoffline⟩

/-- The stepped task goes on launching, or it begins a launch and sets the flag. -/
theorem launching_self (h : s.Guarded name) {index : Nat} {task : Task} {external : External}
    {turn : Turn} (htask : s.tasks[index]? = some task)
    (hturn : task.turn toml s.view external = some turn) (hpc : turn.pc.launches name = true) :
    ∃ target, (s.apply toml index task turn).inner.targets.get? name = some target ∧
      target.launching = true ∧ target.online = false := by
  rw [apply_inner hturn]
  rcases (Task.turn_leads hturn).pc.launches_before hpc with
    ⟨hbefore, hcritical⟩ | ⟨hstart, target, htarget, henabled, hoffline, _⟩
  · rw [hcritical]
    exact h.launching task (List.mem_of_getElem? htask) hbefore
  · refine ⟨(TargetOp.start.run target).1, ?_, ?_, ?_⟩
    · have hruns : task.pc.runs name .start := hstart
      rw [Pc.critical_of_runs hruns external]
      change (s.inner.onTarget name .start).inner.targets.get? name = _
      rw [Inner.get?_onTarget, if_pos rfl, show s.inner.targets.get? name = some target from htarget,
        Option.map_some]
    · rw [TargetOp.run_launching]
      simp [henabled, hoffline]
    · rw [TargetOp.run_online]
      exact hoffline

theorem step (h : s.Guarded name) (hlabel : label.restructures name = false)
    (hinterrupts : s.interruptsLaunch name label = false)
    (hstep : System.step toml s label = some s') : s'.Guarded name := by
  have hregular := h.regular.step hlabel hstep
  rcases step_cases hstep with
    ⟨index, external, task, turn, rfl, _, htask, hturn, rfl⟩ | ⟨request, rfl, _, rfl⟩ | ⟨rfl, _, rfl⟩
  · refine ⟨hregular, ?_, ?_⟩
    · refine h.atMostOne.advance htask ?_ fun hpc => ?_
      · intro other hother
        rw [Task.spawned_launches hturn hother]
        exact Bool.false_ne_true
      · rcases (Task.turn_leads hturn).pc.launches_before hpc with ⟨hbefore, _⟩ | ⟨_, target, htarget, _, _, hnot⟩
        · exact Or.inl hbefore
        · refine Or.inr fun position other _ hother hlaunches => ?_
          obtain ⟨found, hfound, hlaunching, _⟩ :=
            h.launching other (List.mem_of_getElem? hother) hlaunches
          cases hfound.symm.trans htarget
          rw [hnot] at hlaunching
          cases hlaunching
    · intro other hother hpc
      obtain ⟨position, hposition⟩ := List.mem_iff_getElem?.mp hother
      rcases TaskPool.getElem?_advance hposition with ⟨_, rfl⟩ | ⟨hne, hold⟩ | ⟨_, hnew⟩
      · exact h.launching_self htask hturn hpc
      · exact h.launching_other htask hturn hinterrupts hold hne hpc
      · rw [Task.spawned_launches hturn hnew] at hpc
        cases hpc
  · have hrequest : request.task.pc.launches name = false := by
      cases request <;> rfl
    refine ⟨hregular, h.atMostOne.append ?_, ?_⟩
    · intro other hother
      rw [List.mem_singleton.mp hother, hrequest]
      exact Bool.false_ne_true
    · intro other hother hpc
      rcases List.mem_append.mp hother with hold | hnew
      · exact h.launching other hold hpc
      · rw [List.mem_singleton.mp hnew, hrequest] at hpc
        cases hpc
  · exact ⟨hregular, h.atMostOne, h.launching⟩

end System.Guarded

/-- `ensure_disabled_off` takes the flag from a launch in flight. -/
theorem System.not_singleLaunch {toml : Toml} {s s' : System} {name : String} {label : Label}
    (hstep : System.step toml s label = some s') (h : s.interruptsLaunch name label = true) :
    ¬s'.SingleLaunch name := by
  rcases System.step_cases hstep with
    ⟨index, external, task, turn, rfl, _, htask, hturn, rfl⟩ | ⟨_, rfl, _, rfl⟩ | ⟨rfl, _, rfl⟩
  · simp only [System.interruptsLaunch, htask, Option.any_some, Bool.and_eq_true] at h
    obtain ⟨hensures, hany⟩ := h
    split at hensures
    · rename_i ensured hpc
      obtain rfl : ensured = name := by simpa using hensures
      obtain ⟨other, hother, hlaunches⟩ := List.any_eq_true.mp hany
      obtain ⟨position, hposition⟩ := List.mem_iff_getElem?.mp hother
      have hne : position ≠ index := by
        rintro rfl
        cases htask.symm.trans hposition
        rw [hpc] at hlaunches
        cases hlaunches
      intro hsingle
      obtain ⟨target, htarget, hlaunching⟩ := hsingle.launching other
        (List.mem_of_getElem? (TaskPool.getElem?_advance_of_ne hne hposition)) hlaunches
      rw [System.apply_inner hturn, hpc] at htarget
      change (s.inner.onTarget ensured .ensureDisabledOff).inner.targets.get? ensured = _ at htarget
      rw [Inner.get?_onTarget, if_pos rfl] at htarget
      obtain ⟨before, _, rfl⟩ := Option.map_eq_some_iff.mp htarget
      rw [TargetOp.run_launching] at hlaunching
      cases hlaunching
    · cases hensures
  · cases h
  · cases h

/-- **At most one launch**: `launching` guards every launch of a run exactly when no
`ensure_disabled_off` finishes while one is in flight. -/
theorem single_launch_iff {toml : Toml} {config : DaemonConfig} {file name : String}
    {history : List (System × Label)} {s : System} (hrun : System.Run toml config file history s)
    (hhistory : ∀ entry ∈ history, entry.2.restructures name = false) :
    ((∀ entry ∈ history, entry.1.SingleLaunch name) ∧ s.SingleLaunch name) ↔
      ∀ entry ∈ history, entry.1.interruptsLaunch name entry.2 = false := by
  constructor
  · rintro ⟨hvisited, hlast⟩ entry hentry
    obtain ⟨next, hstep, hnext⟩ := Trace.next_visited hrun hentry
    rw [Bool.eq_false_iff]
    intro hinterrupts
    refine System.not_singleLaunch hstep hinterrupts ?_
    rcases hnext with ⟨later, hlater, rfl⟩ | rfl
    · exact hvisited later hlater
    · exact hlast
  · intro hinterrupts
    have hstart := System.Guarded.initial name config file
    have hstep : ∀ t label u, System.Guarded name t →
        (label.restructures name = false ∧ t.interruptsLaunch name label = false) →
        System.step toml t label = some u → System.Guarded name u :=
      fun t label u ht hlabel hu => ht.step hlabel.1 hlabel.2 hu
    have hconds : ∀ entry ∈ history, entry.2.restructures name = false ∧
        entry.1.interruptsLaunch name entry.2 = false :=
      fun entry hentry => ⟨hhistory entry hentry, hinterrupts entry hentry⟩
    exact ⟨fun entry hentry =>
      (Trace.invariant_visited hstart hstep hrun hconds entry hentry).singleLaunch,
      (Trace.invariant hstart hstep hrun hconds).singleLaunch⟩

/-- While `tv` is being launched its flag is set. -/
theorem single_launch_tv :
    ∃ history s, System.Run tvToml tvNode tvNode.toText history s ∧
      history.map Prod.snd = relaunching ∧ (∃ task ∈ s.tasks, task.pc.launches "tv" = true) ∧
      s.SingleLaunch "tv" := by
  have hlabels : (runChecked (System.step tvToml)
      (fun s label => !label.restructures "tv" && !s.interruptsLaunch "tv" label)
      (System.initial tvNode tvNode.toText) relaunching).any
        (fun s => s.tasks.any fun task => task.pc.launches "tv") = true := by
    decide +kernel
  obtain ⟨history, s, hrun, hlabels, hchecks, hresult⟩ := System.exists_run hlabels
  simp only [Bool.and_eq_true, Bool.not_eq_true'] at hchecks
  refine ⟨history, s, hrun, hlabels, List.any_eq_true.mp hresult, ?_⟩
  exact ((single_launch_iff hrun fun entry hentry => (hchecks entry hentry).1).mpr
    fun entry hentry => (hchecks entry hentry).2).2

/-- `tv` is disabled, restarted and enabled again while mpv is being spawned. -/
def disabledAndRestarted : List Label :=
  .request (.disable "tv") :: List.replicate 8 (.task 4 .ok) ++
    [.request (.restart "tv"), .task 5 .ok, .task 5 unavailable] ++ List.replicate 3 (.task 5 .ok) ++
    .request (.enable "tv") :: List.replicate 3 (.task 6 .ok)

/-- The next `start` then spawns a second mpv. -/
theorem two_launches_in_flight :
    ∃ history s, System.Run tvToml tvNode tvNode.toText history s ∧
      history.map Prod.snd =
        relaunching ++ disabledAndRestarted ++ [.request (.start "tv"), .task 7 .ok] ∧
      (∀ entry ∈ history, entry.2.restructures "tv" = false) ∧
      ¬TaskPool.AtMostOne (fun task => task.pc.launches "tv" = true) s.tasks := by
  have hlabels : (runChecked (System.step tvToml) (fun _ label => !label.restructures "tv")
      (System.initial tvNode tvNode.toText)
      (relaunching ++ disabledAndRestarted ++ [.request (.start "tv"), .task 7 .ok])).any
        (fun s => ((s.tasks[3]?).any fun task => task.pc.launches "tv") &&
          (s.tasks[7]?).any fun task => task.pc.launches "tv") = true := by
    decide +kernel
  obtain ⟨history, s, hrun, hlabels, hchecks, hresult⟩ := System.exists_run hlabels
  simp only [Bool.and_eq_true, Bool.not_eq_true', Option.any_eq_true] at hchecks hresult
  obtain ⟨⟨first, hfirst, hlaunches⟩, second, hsecond, hlaunches'⟩ := hresult
  refine ⟨history, s, hrun, hlabels, hchecks, fun hone => ?_⟩
  exact absurd (hone 3 7 first second hfirst hsecond hlaunches hlaunches') (by decide)

end MpvTargets

import MpvTargets.Connections

/-! Observed fields of an offline target. `clear_observed` and the section that marks the target offline
are two sections, and the observer's sections do not look at `online`: where no update falls into that gap
or comes later, an offline target reports nothing or has a `clear_observed` to come. -/

namespace MpvTargets

/-- `stop` and `ensure_disabled_off` between `clear_observed` and marking the target offline. -/
def Pc.betweenClearAndOffline (name : String) : Pc → Bool
  | clearObservedSend cleared clearing => cleared = name ∧ clearing.loses = false
  | stopOffline stopped => stopped = name
  | ensureOff ensured => ensured = name
  | _ => false

/-- The `clear_observed` of this target is next. -/
def Pc.clears (name : String) : Pc → Bool
  | clearObserved cleared _ => cleared = name
  | _ => false

/-- The target is offline, or about to be with its fields cleared. -/
def System.settling (name : String) (s : System) : Bool :=
  !System.online s.inner name || s.tasks.any fun task => task.pc.betweenClearAndOffline name

/-- The section of the observer leaves a field of this target set. -/
def CriticalSection.setsFields (name : String) (inner : Inner) : CriticalSection → Bool
  | onTarget other op =>
      other = name && op.updates &&
        (inner.targets.get? name).any fun target => (op.run target).1.observed ≠ .default
  | _ => false

/-- The observer sets a field of a target that is offline, or about to be with its fields cleared, and no
`clear_observed` is to come. -/
def System.updatesLate (name : String) (s : System) : Label → Bool
  | .task index external =>
      ((s.tasks[index]?).any fun task =>
        (task.pc.critical external).any (CriticalSection.setsFields name s.inner)) &&
      s.settling name && !s.tasks.any fun task => task.pc.clears name
  | _ => false

section

variable {toml : Toml} {view : View} {task : Task} {external : External} {turn : Turn} {name : String}

theorem Pc.Leads.between_before {pc pc' : Pc} (h : pc.Leads toml view external pc')
    (hpc : pc'.betweenClearAndOffline name = true) :
    (pc.betweenClearAndOffline name = true ∧ pc.critical external = none) ∨ pc.clears name = true := by
  cases h with
  | next hnext =>
      cases hnext with
      | clearObserved _ clearing | clearedStop | clearedEnsure =>
          simp_all [Pc.betweenClearAndOffline, Pc.clears]
      | sentStop | sentEnsure =>
          exact Or.inl ⟨by simpa [Pc.betweenClearAndOffline, Clearing.loses] using hpc, rfl⟩
      | _ => cases hpc
  | call hcalls => cases hcalls <;> cases hpc
  | resume hresumes => cases pc' <;> first | cases hpc | cases hresumes
  | panic => cases hpc

theorem Task.spawned_between (h : task.turn toml view external = some turn) {other : Task}
    (hother : other ∈ turn.spawned) : other.pc.betweenClearAndOffline name = false := by
  rcases Task.turn_spawned h hother with ⟨_, rfl⟩ | ⟨_, _, _, _, _, rfl⟩ <;> rfl

end

/-- A target that is offline, or about to be with its fields cleared, reports nothing or has a
`clear_observed` to come. -/
structure System.Cleared (name : String) (s : System) : Prop where
  regular : s.Regular name
  cleared : s.settling name = true → ∀ target, s.inner.targets.get? name = some target →
    target.observed = .default ∨ ∃ task ∈ s.tasks, task.pc.clears name = true

theorem Pc.runs_of_clears {pc : Pc} {name : String} (h : pc.clears name = true) :
    pc.runs name .clearObserved := by
  cases pc <;> first | cases h | skip
  case clearObserved cleared clearing =>
    obtain rfl : cleared = name := by simpa [Pc.clears] using h
    exact ⟨clearing, rfl⟩

theorem Pc.actsOn_of_runs {pc : Pc} {name : String} {op : TargetOp} (h : pc.runs name op)
    (external : External) : (pc.critical external).any (CriticalSection.actsOn name) = true := by
  rw [Pc.critical_of_runs h external]
  simp [CriticalSection.actsOn]

theorem Pc.eq_of_runs {pc : Pc} {name : String} {op op' : TargetOp} (h : pc.runs name op)
    (h' : pc.runs name op') : op = op' := by
  have heq := (Pc.critical_of_runs h .ok).symm.trans (Pc.critical_of_runs h' .ok)
  cases heq
  rfl

namespace System.Cleared

variable {toml : Toml} {s s' : System} {name : String} {label : Label} {index : Nat} {task : Task}
  {external : External} {turn : Turn}

/-- A target comes to be settling by a `clear_observed`, or by the loss of its connection. -/
theorem settling_before (h : s.Cleared name) (htask : s.tasks[index]? = some task)
    (hturn : task.turn toml s.view external = some turn)
    (hsettling : (s.apply toml index task turn).settling name = true) :
    s.settling name = true ∨ task.pc.clears name = true ∨
      (task.pc = .targetLost name ∧ online s.inner name = true) := by
  have hmem := List.mem_of_getElem? htask
  have hgap : ∀ other ∈ s.tasks, other.pc.betweenClearAndOffline name = true →
      s.settling name = true := by
    intro other hother hbetween
    have hany : (s.tasks.any fun task => task.pc.betweenClearAndOffline name) = true :=
      List.any_eq_true.mpr ⟨other, hother, hbetween⟩
    simp [settling, hany]
  rcases Bool.or_eq_true_iff.mp hsettling with hoffline | hany
  · rw [Bool.not_eq_true'] at hoffline
    cases honline : online s.inner name with
    | false => exact Or.inl (by simp [settling, honline])
    | true =>
        simp only [online] at hoffline honline
        rcases target_step h.regular.keeps htask hturn with
          ⟨_, hsame⟩ | ⟨op, hruns, hop⟩ | ⟨_, _, hsame | ⟨target, _, _, htarget, hchanged⟩⟩
        · rw [hsame, honline] at hoffline
          cases hoffline
        · obtain ⟨target, htarget, hwas⟩ := (Option.any_eq_true ..).mp honline
          rw [hop, htarget, Option.map_some, Option.any_some, op.run_online, hwas] at hoffline
          cases op with
          | targetLost => exact Or.inr (Or.inr ⟨hruns, rfl⟩)
          | markOffline =>
              refine Or.inl (hgap task hmem ?_)
              rw [show task.pc = .stopOffline name from hruns]
              simp [Pc.betweenClearAndOffline]
          | ensureDisabledOff =>
              refine Or.inl (hgap task hmem ?_)
              rw [show task.pc = .ensureOff name from hruns]
              simp [Pc.betweenClearAndOffline]
          | _ => cases hoffline
        · rw [hsame, honline] at hoffline
          cases hoffline
        · rw [htarget, Option.any_some] at honline
          rw [hchanged, Option.any_some] at hoffline
          exact absurd (hoffline.symm.trans honline) Bool.false_ne_true
  · obtain ⟨other, hother, hbetween⟩ := List.any_eq_true.mp hany
    rcases TaskPool.mem_advance hother with rfl | hold | hnew
    · rcases (Task.turn_leads hturn).pc.between_before hbetween with ⟨hbefore, _⟩ | hclears
      · exact Or.inl (hgap task hmem hbefore)
      · exact Or.inr (Or.inl hclears)
    · exact Or.inl (hgap other hold hbetween)
    · rw [Task.spawned_between hturn hnew] at hbetween
      cases hbetween

/-- A `clear_observed` to come is still to come after the step of a task that does not run it. -/
theorem pending_after (htask : s.tasks[index]? = some task) (hnot : task.pc.clears name = false)
    (hpending : ∃ other ∈ s.tasks, other.pc.clears name = true) :
    ∃ other ∈ (s.apply toml index task turn).tasks, other.pc.clears name = true := by
  refine TaskPool.exists_advance hpending htask fun hclears => ?_
  rw [hnot] at hclears
  cases hclears

/-- The loss of a connection goes on to `clear_observed`. -/
theorem clears_of_targetLost (hturn : task.turn toml s.view external = some turn)
    (hpc : task.pc = .targetLost name) (honline : online s.inner name = true) :
    turn.pc.clears name = true := by
  rcases task with ⟨origin, pc, callers⟩
  subst hpc
  obtain ⟨target, htarget, hwas⟩ := (Option.any_eq_true ..).mp honline
  have hfound : s.view.inner.targets.get? name = some target := htarget
  simp only [Task.turn, hfound, Option.bind_some, targetLostSection, hwas, if_true] at hturn
  cases hturn
  simp [Task.goto, Pc.clears]

theorem step (h : s.Cleared name) (hlabel : label.restructures name = false)
    (hlate : s.updatesLate name label = false) (hstep : System.step toml s label = some s') :
    s'.Cleared name := by
  refine ⟨h.regular.step hlabel hstep, ?_⟩
  rcases step_cases hstep with
    ⟨index, external, task, turn, rfl, _, htask, hturn, rfl⟩ | ⟨request, rfl, _, rfl⟩ | ⟨rfl, _, rfl⟩
  · intro hsettling after hafter
    rcases h.settling_before htask hturn hsettling with hbefore | hclears | ⟨hlost, honline⟩
    · have hcleared := h.cleared hbefore
      rcases target_step h.regular.keeps htask hturn with
        ⟨hacts, hsame⟩ | ⟨op, hruns, hop⟩ | ⟨change, hpc, hchange⟩
      · rw [hsame] at hafter
        refine (hcleared after hafter).imp_right (pending_after htask ?_)
        rw [Bool.eq_false_iff]
        intro hclears
        rw [Pc.actsOn_of_runs (Pc.runs_of_clears hclears) external] at hacts
        cases hacts
      · rw [hop] at hafter
        obtain ⟨target, htarget, rfl⟩ := Option.map_eq_some_iff.mp hafter
        by_cases hclear : op = .clearObserved
        · subst hclear
          exact Or.inl (TargetOp.run_observed _ _ rfl)
        · have hnot : task.pc.clears name = false := by
            rw [Bool.eq_false_iff]
            exact fun hclears => hclear (Pc.eq_of_runs hruns (Pc.runs_of_clears hclears))
          cases hupdates : op.updates with
          | false =>
              rw [op.run_observed target hupdates]
              refine (hcleared target htarget).imp ?_ (pending_after htask hnot)
              cases op <;> first | exact id | exact absurd rfl hclear
          | true =>
              by_cases hdefault : (op.run target).1.observed = .default
              · exact Or.inl hdefault
              · refine Or.inr (pending_after htask hnot ?_)
                simpa [updatesLate, htask, Pc.critical_of_runs hruns external,
                  CriticalSection.setsFields, hupdates, htarget, hdefault, hbefore] using hlate
      · have hnot : task.pc.clears name = false := by rw [hpc]; rfl
        rcases hchange with hsame | ⟨target, config, revision, htarget, hchanged⟩
        · rw [hsame] at hafter
          exact (hcleared after hafter).imp_right (pending_after htask hnot)
        · rw [hchanged] at hafter
          cases hafter
          exact (hcleared target htarget).imp_right (pending_after htask hnot)
    · rw [apply_inner hturn, Pc.critical_of_runs (Pc.runs_of_clears hclears) external] at hafter
      change (s.inner.onTarget name .clearObserved).inner.targets.get? name = _ at hafter
      rw [Inner.get?_onTarget, if_pos rfl] at hafter
      obtain ⟨target, _, rfl⟩ := Option.map_eq_some_iff.mp hafter
      exact Or.inl (TargetOp.run_observed _ _ rfl)
    · exact Or.inr ⟨_, TaskPool.mem_advance_self htask, clears_of_targetLost hturn hlost honline⟩
  · intro hsettling target htarget
    have hrequest : request.task.pc.betweenClearAndOffline name = false := by
      cases request <;> rfl
    have hbefore : s.settling name = true := by
      simpa [settling, List.any_append, hrequest] using hsettling
    refine (h.cleared hbefore target htarget).imp_right fun ⟨task, htask, hclears⟩ => ?_
    exact ⟨task, List.mem_append_left _ htask, hclears⟩
  · exact h.cleared

end System.Cleared

/-- No operation, observer or loss handler of the target is running. -/
def System.unattended (name : String) (s : System) : Bool :=
  s.tasks.all fun task => !task.operates name && !task.pc.watches name && !task.pc.loses name

/-- Where nobody attends to the target, no `clear_observed` of it is to come. -/
theorem System.Regular.not_clears {s : System} {name : String} (h : s.Regular name)
    (hunattended : s.unattended name = true) {task : Task} (htask : task ∈ s.tasks) :
    task.pc.clears name = false := by
  rw [Bool.eq_false_iff]
  intro hclears
  obtain ⟨clearing, hpc⟩ := Pc.runs_of_clears hclears
  have hshaped := h.shaped task htask
  have hnot := List.all_eq_true.mp hunattended task htask
  simp only [Bool.and_eq_true, Bool.not_eq_true'] at hnot
  obtain ⟨⟨hoperates, _⟩, hloses⟩ := hnot
  rcases task with ⟨origin, pc, callers⟩
  subst hpc
  cases origin with
  | request => simp [Task.operates, Task.names, Pc.names] at hoperates
  | startup => simp [Task.operates] at hoperates
  | recovery =>
      obtain ⟨other, hat⟩ := hshaped
      cases hat with
      | start delay hstarts => cases hstarts
  | observer connection =>
      obtain ⟨other, hobserves, _⟩ := hshaped
      simp_all [Pc.observes, Pc.loses]

/-- **No stale playback fields** in a run in which no field is set after the last `clear_observed`: an
offline target that nobody attends to reports nothing. -/
theorem offline_target_reports_nothing {toml : Toml} {config : DaemonConfig} {file name : String}
    {history : List (System × Label)} {s : System} (hrun : System.Run toml config file history s)
    (hhistory : ∀ entry ∈ history, entry.2.restructures name = false)
    (hlate : ∀ entry ∈ history, entry.1.updatesLate name entry.2 = false)
    (hunattended : s.unattended name = true) {target : RuntimeTarget}
    (htarget : s.inner.targets.get? name = some target) (hoffline : target.online = false) :
    target.observed = .default := by
  have hstart : (System.initial config file).Cleared name := by
    refine ⟨System.Regular.initial name config file, ?_⟩
    intro _ target htarget
    obtain ⟨entry, _, hentry⟩ := List.mem_map.mp (OrderedMap.mem_of_get?_ofList htarget)
    cases hentry
    exact Or.inl rfl
  have hstep : ∀ t label u, System.Cleared name t →
      (label.restructures name = false ∧ t.updatesLate name label = false) →
      System.step toml t label = some u → System.Cleared name u :=
    fun t label u ht hlabel hu => ht.step hlabel.1 hlabel.2 hu
  have hcleared := Trace.invariant hstart hstep hrun fun entry hentry =>
    ⟨hhistory entry hentry, hlate entry hentry⟩
  have hsettling : s.settling name = true := by
    simp [System.settling, System.online, htarget, hoffline]
  rcases hcleared.cleared hsettling target htarget with hdefault | ⟨task, htask, hclears⟩
  · exact hdefault
  · rw [hcleared.regular.not_clears hunattended htask] at hclears
    cases hclears

/-- mpv reports a property, is stopped, and its observer sees the end. -/
def reportThenStop : List Label :=
  startAttached ++ [.task 1 .ok, .task 1 (muteLine true), .task 1 .ok] ++
    .request (.stop "tv") :: List.replicate 7 (.task 2 .ok) ++ [.task 1 unavailable, .task 1 .ok]

/-- `tv` then reports nothing. -/
theorem offline_target_reports_nothing_tv :
    ∃ history s, System.Run tvToml tvNode tvNode.toText history s ∧
      history.map Prod.snd = reportThenStop ∧
      ∃ target, s.inner.targets.get? "tv" = some target ∧ target.online = false ∧
        target.observed = .default := by
  have hlabels : (runChecked (System.step tvToml)
      (fun s label => !label.restructures "tv" && !s.updatesLate "tv" label)
      (System.initial tvNode tvNode.toText) reportThenStop).any
        (fun s => s.unattended "tv" && (s.inner.targets.get? "tv").any fun target =>
          !target.online) = true := by
    decide +kernel
  obtain ⟨history, s, hrun, hlabels, hchecks, hresult⟩ := System.exists_run hlabels
  simp only [Bool.and_eq_true, Bool.not_eq_true', Option.any_eq_true] at hchecks hresult
  obtain ⟨hunattended, target, htarget, hoffline⟩ := hresult
  refine ⟨history, s, hrun, hlabels, target, htarget, hoffline, ?_⟩
  exact offline_target_reports_nothing hrun (fun entry hentry => (hchecks entry hentry).1)
    (fun entry hentry => (hchecks entry hentry).2) hunattended htarget hoffline

/-- The observer reads a buffered line between `clear_observed` and `mark_offline`. -/
def reportDuringStop : List Label :=
  startAttached ++ .task 1 .ok :: .request (.stop "tv") :: List.replicate 4 (.task 2 .ok) ++
    [.task 1 (muteLine true), .task 1 .ok, .task 2 .ok, .task 2 .ok, .task 1 unavailable, .task 1 .ok]

/-- `tv` then stays with the field it reported. -/
theorem offline_target_reports_stale_field :
    ∃ history s, System.Run tvToml tvNode tvNode.toText history s ∧
      history.map Prod.snd = reportDuringStop ∧
      (∀ entry ∈ history, entry.2.restructures "tv" = false) ∧ s.unattended "tv" = true ∧
      ∃ target, s.inner.targets.get? "tv" = some target ∧ target.online = false ∧
        target.observed.muted = some true := by
  have hlabels : (runChecked (System.step tvToml) (fun _ label => !label.restructures "tv")
      (System.initial tvNode tvNode.toText) reportDuringStop).any
        (fun s => s.unattended "tv" && (s.inner.targets.get? "tv").any fun target =>
          !target.online && target.observed.muted = some true) = true := by
    decide +kernel
  obtain ⟨history, s, hrun, hlabels, hchecks, hresult⟩ := System.exists_run hlabels
  simp only [Bool.and_eq_true, Bool.not_eq_true', Option.any_eq_true, decide_eq_true_eq]
    at hchecks hresult
  exact ⟨history, s, hrun, hlabels, hchecks, hresult⟩

end MpvTargets

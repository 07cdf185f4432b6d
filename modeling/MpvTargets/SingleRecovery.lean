import MpvTargets.Recovery
import MpvTargets.Scenario

/-! One recovery loop at a time. `recovering` guards the loop that set it, except against sections of other
tasks that clear the flag while the loop goes on, and between the loop's own `mark_online` and its
return. -/

namespace MpvTargets

/-- A recovery loop of this name, past its admission and not returned. -/
def Task.inRecovery (name : String) (task : Task) : Bool :=
  (match task.pc with
    | .recoverCheck recovered _ => recovered = name
    | _ => false) ||
  task.callers.any fun caller =>
    match caller with
    | .recovery recovered _ => recovered = name
    | _ => false

/-- At most one recovery loop of the name is past its admission. -/
def System.SingleRecovery (name : String) (s : System) : Prop :=
  TaskPool.AtMostOne (fun task => task.inRecovery name = true) s.tasks

/-- The loops of the name other than the task at `index`. -/
def System.otherLoops (name : String) (index : Nat) (s : System) : List Task :=
  (s.tasks.eraseIdx index).filter (Task.inRecovery name)

/-- The loop has marked its target online, which clears its flag, and has yet to return from its `start`. -/
def Task.recorded (task : Task) : Bool :=
  match task.pc with
  | .targetRecord _ => true
  | _ => false

/-- The steps after which `recovering` no longer stands for a loop: `mark_online` turns the target online, or
`ensure_disabled_off` ends, while a loop of another task is past its admission; or a recovery task that was
pending comes to the target, enabled and running without its flag, while a loop is about to return. -/
def System.losesLoop (name : String) (s : System) : Label → Bool
  | .task index _ =>
      (s.tasks[index]?).any fun task =>
        (s.inner.targets.get? name).any fun target =>
          match task.pc with
          | .launchOnline launched | .startupOnline launched _ =>
              launched = name && !target.online && !(s.otherLoops name index).isEmpty
          | .ensureOff ensured => ensured = name && !(s.otherLoops name index).isEmpty
          | .recoverAdmit recovered =>
              recovered = name && !target.config.disabled && !target.stopped && !target.recovering &&
                (s.otherLoops name index).any Task.recorded
          | _ => false
  | _ => false

section

variable {toml : Toml} {view : View} {task : Task} {external : External} {turn : Turn} {name : String}

theorem Task.inRecovery_iff : task.inRecovery name = true ↔
    (∃ delay, task.pc = .recoverCheck name delay) ∨
      ∃ caller ∈ task.callers, ∃ delay, caller = .recovery name delay := by
  unfold Task.inRecovery
  rw [Bool.or_eq_true, List.any_eq_true]
  refine or_congr ?_ (exists_congr fun caller => and_congr_right fun _ => ?_)
  · cases task.pc <;> simp
  · cases caller <;> simp

theorem resume_inRecovery (result : Outcome) (callers : List Caller)
    (h : (∃ delay, (resume result callers).pc = .recoverCheck name delay) ∨
      ∃ caller ∈ (resume result callers).callers, ∃ delay, caller = .recovery name delay) :
    ∃ caller ∈ callers, ∃ delay, caller = .recovery name delay := by
  fun_induction resume result callers with
  | case3 recovered delay callers error => grind
  | case14 => grind
  | _ => simp_all

/-- A loop was one before, or it passes its admission. -/
theorem Task.turn_inRecovery (h : task.turn toml view external = some turn)
    (hloop : Task.inRecovery name ⟨task.origin, turn.pc, turn.callers⟩ = true) :
    task.inRecovery name = true ∨ task.pc = .recoverAdmit name := by
  rw [Task.inRecovery_iff] at hloop ⊢
  refine (Task.turn_leads h).before (fun pc => ∃ delay, pc = .recoverCheck name delay)
    (fun caller => ∃ delay, caller = .recovery name delay) (task.pc = .recoverAdmit name) ?_ ?_ ?_ ?_ hloop
  · rintro pc' hnext ⟨delay, rfl⟩
    generalize hpc : task.pc = pc at hnext
    cases hnext
    exact .inr rfl
  · intro pc pc' caller hcalls hafter
    cases hcalls <;> simp_all
  · exact fun result => resume_inRecovery result task.callers
  · rintro pc' (rfl | rfl) ⟨_, hpc⟩ <;> cases hpc

theorem admitRecoverySection_value (target : RuntimeTarget) : (admitRecoverySection target).value =
    (!target.config.disabled && !target.stopped && !target.recovering) := by
  grind [admitRecoverySection]

/-- A loop that goes on after its check was still expected. -/
theorem Task.turn_expected (h : task.turn toml view external = some turn) {delay : Nat}
    (hpc : task.pc = .recoverCheck name delay) {target : RuntimeTarget}
    (htarget : view.inner.targets.get? name = some target)
    (hloop : Task.inRecovery name ⟨task.origin, turn.pc, turn.callers⟩ = true) :
    target.config.disabled = false ∧ target.stopped = false := by
  rcases task with ⟨origin, pc, callers⟩
  subst hpc
  simp only [Task.turn, htarget, Option.map_some] at h
  split at h
  · grind [stillExpectedSection]
  · cases h
    rw [Task.inRecovery_iff] at hloop
    simp [finishTurn] at hloop

/-- The last section of `start` ends the loop that called it. -/
theorem Task.turn_recorded (h : task.turn toml view external = some turn) {delay : Nat}
    (hpc : task.pc = .targetRecord name) (hcallers : task.callers = [.recovery name delay])
    {target : RuntimeTarget} (htarget : view.inner.targets.get? name = some target) :
    Task.inRecovery name ⟨task.origin, turn.pc, turn.callers⟩ = false := by
  rcases task with ⟨origin, pc, callers⟩
  subst hpc hcallers
  simp only [Task.turn, Task.record, Task.read, htarget] at h
  cases h
  rfl

/-- A recovery task that goes on after its admission has been admitted. -/
theorem Task.turn_admits (h : task.turn toml view external = some turn) (hpc : task.pc = .recoverAdmit name)
    (hloop : Task.inRecovery name ⟨task.origin, turn.pc, turn.callers⟩ = true) :
    ∃ target, view.inner.targets.get? name = some target ∧
      (admitRecoverySection target).value = true := by
  rcases task with ⟨origin, pc, callers⟩
  subst hpc
  simp only [Task.turn] at h
  split at h
  · rename_i hvalue
    exact Option.map_eq_some_iff.mp hvalue
  · cases h
    rw [Task.inRecovery_iff] at hloop
    simp [finishTurn] at hloop

/-- An admitted loop has set its flag. -/
theorem System.recovering_admitted {s : System} {index : Nat}
    (hturn : task.turn toml s.view external = some turn)
    (hpc : task.pc = .recoverAdmit name) {target : RuntimeTarget}
    (htarget : s.inner.targets.get? name = some target)
    (hadmits : (admitRecoverySection target).value = true) :
    ∃ after, (s.apply toml index task turn).inner.targets.get? name = some after ∧
      after.recovering = true := by
  have hruns : task.pc.runs name .admitRecovery := hpc
  rw [System.apply_inner hturn, Pc.critical_of_runs hruns external]
  refine ⟨(TargetOp.admitRecovery.run target).1, ?_, ?_⟩
  · change (s.inner.onTarget name .admitRecovery).inner.targets.get? name = _
    rw [Inner.get?_onTarget, if_pos rfl, htarget, Option.map_some]
  · rw [TargetOp.run_recovering]
    rw [admitRecoverySection_value] at hadmits
    simp only [Bool.and_eq_true] at hadmits
    simp [hadmits.1.1, hadmits.1.2]

end

/-- A loop past its admission is a recovery task at a check or in the `start` it called. -/
theorem System.Regular.recoveryAt_of_inRecovery {s : System} {name : String} (h : s.Regular name)
    {task : Task} (htask : task ∈ s.tasks) (hloop : task.inRecovery name = true) :
    RecoveryAt name task.pc task.callers := by
  rcases Task.inRecovery_iff.mp hloop with ⟨delay, hpc⟩ | ⟨caller, hcaller, delay, rfl⟩
  · exact h.recoveryAt htask (.inr ⟨delay, hpc⟩)
  · have hshaped := h.shaped task htask
    cases horigin : task.origin with
    | recovery =>
        rw [Task.Shaped, horigin] at hshaped
        obtain ⟨other, hat⟩ := hshaped
        generalize task.pc = pc at hat ⊢
        generalize task.callers = callers at hat hcaller ⊢
        cases hat with
        | start delay' hstarts =>
            obtain ⟨rfl, rfl⟩ : name = other ∧ delay = delay' := by simpa using hcaller
            exact RecoveryAt.start delay hstarts
        | _ => cases hcaller
    | startup =>
        obtain ⟨pending, hat, _⟩ := h.started.startup_at htask horigin
        generalize task.pc = pc at hat
        generalize task.callers = callers at hat hcaller
        cases hat <;> simp at hcaller
    | request =>
        rw [Task.Shaped, horigin] at hshaped
        have hrequested := List.all_eq_true.mp hshaped.2 _ hcaller
        cases hrequested
    | observer connection =>
        rw [Task.Shaped, horigin] at hshaped
        obtain ⟨other, _, hnone⟩ := hshaped
        rw [hnone] at hcaller
        cases hcaller

/-- At most one loop is past its admission, and while it has not marked its target online `recovering` is
set. -/
structure System.RecoveryGuarded (name : String) (s : System) : Prop where
  regular : s.Regular name
  single : s.SingleRecovery name
  recovering : ∀ task ∈ s.tasks, task.inRecovery name = true →
    ∃ target, s.inner.targets.get? name = some target ∧
      (target.recovering = true ∨ task.pc = .targetRecord name)

namespace System.RecoveryGuarded

variable {toml : Toml} {s s' : System} {name : String} {label : Label} {index : Nat} {task : Task}
  {external : External} {turn : Turn}

theorem initial (name : String) (config : DaemonConfig) (file : String) :
    (System.initial config file).RecoveryGuarded name where
  regular := System.Regular.initial name config file
  single := TaskPool.AtMostOne.singleton _ _
  recovering := by
    intro task htask hloop
    rw [List.mem_singleton.mp htask] at hloop
    cases hloop

theorem mem_otherLoops {position : Nat} {other : Task} (hother : s.tasks[position]? = some other)
    (hne : position ≠ index) (hloop : other.inRecovery name = true) : other ∈ s.otherLoops name index := by
  unfold otherLoops
  refine List.mem_filter.mpr ⟨?_, hloop⟩
  rw [List.mem_eraseIdx_iff_getElem?]
  exact ⟨position, hne, hother⟩

/-- A section of another task leaves the flag of a loop alone. -/
theorem recovering_other (h : s.RecoveryGuarded name) {position : Nat} {other : Task}
    (htask : s.tasks[index]? = some task) (hturn : task.turn toml s.view external = some turn)
    (hkeeps : s.losesLoop name (.task index external) = false)
    (hother : s.tasks[position]? = some other) (hne : position ≠ index)
    (hloop : other.inRecovery name = true) :
    ∃ target, (s.apply toml index task turn).inner.targets.get? name = some target ∧
      (target.recovering = true ∨ other.pc = .targetRecord name) := by
  obtain ⟨target, htarget, hrecovering⟩ := h.recovering other (List.mem_of_getElem? hother) hloop
  have hmem := mem_otherLoops hother hne hloop
  have hnonempty : (s.otherLoops name index).isEmpty = false := by
    rw [List.isEmpty_eq_false_iff]
    exact List.ne_nil_of_mem hmem
  rcases target_step h.regular.keeps htask hturn with
    ⟨_, hsame⟩ | ⟨op, hruns, hop⟩ | ⟨_, _, hsame | ⟨found, config, revision, hfound, hchanged⟩⟩
  · exact ⟨target, hsame.trans htarget, hrecovering⟩
  · rw [htarget, Option.map_some] at hop
    refine ⟨_, hop, hrecovering.imp_left fun hset => ?_⟩
    rw [op.run_recovering]
    cases op with
    | admitRecovery => simp [hset]
    | markOnline =>
        rw [Bool.and_eq_true]
        refine ⟨hset, ?_⟩
        rcases hruns with hpc | ⟨rest, hpc⟩
        · simpa [losesLoop, htask, htarget, hpc, hnonempty] using hkeeps
        · simpa [losesLoop, htask, htarget, hpc, hnonempty] using hkeeps
    | ensureDisabledOff =>
        simp [losesLoop, htask, htarget, show task.pc = .ensureOff name from hruns, hnonempty] at hkeeps
    | stillExpected =>
        exfalso
        have hself : task.inRecovery name = true := Task.inRecovery_iff.mpr (.inl hruns)
        exact hne (h.single position index other task hother htask hloop hself)
    | _ => exact hset
  · exact ⟨target, hsame.trans htarget, hrecovering⟩
  · rw [htarget] at hfound
    cases hfound
    exact ⟨_, hchanged, hrecovering⟩

/-- A loop that goes on still has its flag, or has marked its target online. -/
theorem recovering_self (h : s.RecoveryGuarded name) (htask : s.tasks[index]? = some task)
    (hturn : task.turn toml s.view external = some turn)
    (hloop : Task.inRecovery name ⟨task.origin, turn.pc, turn.callers⟩ = true)
    (hwas : task.inRecovery name = true) :
    ∃ target, (s.apply toml index task turn).inner.targets.get? name = some target ∧
      (target.recovering = true ∨ turn.pc = .targetRecord name) := by
  have hmem := List.mem_of_getElem? htask
  have hat := h.regular.recoveryAt_of_inRecovery hmem hwas
  obtain ⟨target, htarget, hrecovering⟩ := h.recovering task hmem hwas
  have hset : target.recovering = true := by
    rcases hrecovering with hset | hrecord
    · exact hset
    · exfalso
      rw [hrecord] at hat
      generalize hcallers : task.callers = callers at hat
      cases hat with
      | start delay =>
          rw [Task.turn_recorded hturn hrecord hcallers htarget] at hloop
          cases hloop
  rcases target_step h.regular.keeps htask hturn with
    ⟨_, hsame⟩ | ⟨op, hruns, hop⟩ | ⟨_, _, hsame | ⟨found, config, revision, hfound, hchanged⟩⟩
  · exact ⟨target, hsame.trans htarget, .inl hset⟩
  · rw [htarget, Option.map_some] at hop
    refine ⟨_, hop, ?_⟩
    rw [op.run_recovering]
    cases op with
    | admitRecovery => exact .inl (by simp [hset])
    | markOnline =>
        right
        rcases hruns with hpc | ⟨rest, hpc⟩
        · rcases task with ⟨origin, pc, callers⟩
          subst hpc
          cases hturn
          rfl
        · rw [hpc] at hat
          generalize task.callers = callers at hat
          cases hat with
          | start delay hstarts => cases hstarts
    | ensureDisabledOff =>
        rw [show task.pc = .ensureOff name from hruns] at hat
        generalize task.callers = callers at hat
        cases hat with
        | start delay hstarts => cases hstarts
    | stillExpected =>
        obtain ⟨delay, hpc⟩ := hruns
        obtain ⟨henabled, hrunning⟩ := Task.turn_expected hturn hpc htarget hloop
        exact .inl (by simp [hset, henabled, hrunning])
    | _ => exact .inl hset
  · exact ⟨target, hsame.trans htarget, .inl hset⟩
  · rw [htarget] at hfound
    cases hfound
    exact ⟨_, hchanged, .inl hset⟩

/-- While a loop is past its admission no other one passes it. -/
theorem alone_at_admission (h : s.RecoveryGuarded name) (htask : s.tasks[index]? = some task)
    (hkeeps : s.losesLoop name (.task index external) = false) (hpc : task.pc = .recoverAdmit name)
    {target : RuntimeTarget} (htarget : s.inner.targets.get? name = some target)
    (hadmits : (admitRecoverySection target).value = true) {position : Nat} {other : Task}
    (hother : s.tasks[position]? = some other) (hne : position ≠ index) :
    other.inRecovery name = false := by
  rw [Bool.eq_false_iff]
  intro hloop
  obtain ⟨found, hfound, hrecovering⟩ := h.recovering other (List.mem_of_getElem? hother) hloop
  cases hfound.symm.trans htarget
  have hunset : target.recovering = false := by
    rw [admitRecoverySection_value] at hadmits
    simpa using (Bool.and_eq_true_iff.mp hadmits).2
  rcases hrecovering with hset | hrecord
  · rw [hunset] at hset
    cases hset
  · have hany : (s.otherLoops name index).any Task.recorded = true :=
      List.any_eq_true.mpr ⟨other, mem_otherLoops hother hne hloop, by rw [Task.recorded, hrecord]⟩
    simp only [admitRecoverySection_value, Bool.and_eq_true, Bool.not_eq_true'] at hadmits
    simp [losesLoop, htask, htarget, hpc, hadmits, hany] at hkeeps

theorem step (h : s.RecoveryGuarded name) (hlabel : label.restructures name = false)
    (hkeeps : s.losesLoop name label = false) (hstep : System.step toml s label = some s') :
    s'.RecoveryGuarded name := by
  have hregular := h.regular.step hlabel hstep
  rcases step_cases hstep with
    ⟨index, external, task, turn, rfl, _, htask, hturn, rfl⟩ | ⟨request, rfl, _, rfl⟩ | ⟨rfl, _, rfl⟩
  · have hspawned : ∀ other ∈ turn.spawned, ¬other.inRecovery name = true := by
      intro other hother
      rcases Task.turn_spawned hturn hother with ⟨_, rfl⟩ | ⟨_, _, _, _, _, rfl⟩ <;> exact Bool.false_ne_true
    refine ⟨hregular, h.single.advance htask hspawned fun hloop => ?_, ?_⟩
    · refine (Task.turn_inRecovery hturn hloop).imp_right fun hpc => ?_
      obtain ⟨target, htarget, hadmits⟩ := Task.turn_admits hturn hpc hloop
      intro position other hne hother
      rw [h.alone_at_admission htask hkeeps hpc htarget hadmits hother hne]
      exact Bool.false_ne_true
    · intro other hother hloop
      obtain ⟨position, hposition⟩ := List.mem_iff_getElem?.mp hother
      rcases TaskPool.getElem?_advance hposition with ⟨_, rfl⟩ | ⟨hne, hold⟩ | ⟨_, hnew⟩
      · rcases Task.turn_inRecovery hturn hloop with hwas | hpc
        · exact h.recovering_self htask hturn hloop hwas
        · obtain ⟨target, htarget, hadmits⟩ := Task.turn_admits hturn hpc hloop
          obtain ⟨after, hafter, hset⟩ := recovering_admitted hturn hpc htarget hadmits
          exact ⟨after, hafter, .inl hset⟩
      · exact h.recovering_other htask hturn hkeeps hold hne hloop
      · exact absurd hloop (hspawned other hnew)
  · have hrequest : request.task.inRecovery name = false := by
      cases request <;> rfl
    refine ⟨hregular, h.single.append ?_, ?_⟩
    · intro other hother
      rw [List.mem_singleton.mp hother, hrequest]
      exact Bool.false_ne_true
    · intro other hother hloop
      rcases List.mem_append.mp hother with hold | hnew
      · exact h.recovering other hold hloop
      · rw [List.mem_singleton.mp hnew, hrequest] at hloop
        cases hloop
  · exact ⟨hregular, h.single, h.recovering⟩

end System.RecoveryGuarded

/-- **At most one recovery loop** in every state of a run in which no step takes `recovering` from a loop. -/
theorem single_recovery {toml : Toml} {config : DaemonConfig} {file name : String}
    {history : List (System × Label)} {s : System} (hrun : System.Run toml config file history s)
    (hhistory : ∀ entry ∈ history, entry.2.restructures name = false)
    (hkeeps : ∀ entry ∈ history, entry.1.losesLoop name entry.2 = false) :
    (∀ entry ∈ history, entry.1.SingleRecovery name) ∧ s.SingleRecovery name := by
  have hstart := System.RecoveryGuarded.initial name config file
  have hstep : ∀ t label u, System.RecoveryGuarded name t →
      (label.restructures name = false ∧ t.losesLoop name label = false) →
      System.step toml t label = some u → System.RecoveryGuarded name u :=
    fun t label u ht hlabel hu => ht.step hlabel.1 hlabel.2 hu
  have hconds : ∀ entry ∈ history, entry.2.restructures name = false ∧
      entry.1.losesLoop name entry.2 = false :=
    fun entry hentry => ⟨hhistory entry hentry, hkeeps entry hentry⟩
  exact ⟨fun entry hentry => (Trace.invariant_visited hstart hstep hrun hconds entry hentry).single,
    (Trace.invariant hstart hstep hrun hconds).single⟩

/-- The mpv of `tv` exits and its recovery loop, task 2, is admitted. -/
def recovering : List Label := lost ++ [.task 2 .ok]

theorem single_recovery_tv :
    ∃ history s, System.Run tvToml tvNode tvNode.toText history s ∧ history.map Prod.snd = recovering ∧
      (∃ task ∈ s.tasks, task.inRecovery "tv" = true) ∧ s.SingleRecovery "tv" := by
  have hlabels : (runChecked (System.step tvToml)
      (fun s label => !label.restructures "tv" && !s.losesLoop "tv" label)
      (System.initial tvNode tvNode.toText) recovering).any
        (fun s => s.tasks.any (Task.inRecovery "tv")) = true := by
    decide +kernel
  obtain ⟨history, s, hrun, hlabels, hchecks, hresult⟩ := System.exists_run hlabels
  simp only [Bool.and_eq_true, Bool.not_eq_true'] at hchecks
  refine ⟨history, s, hrun, hlabels, List.any_eq_true.mp hresult, ?_⟩
  exact (single_recovery hrun (fun entry hentry => (hchecks entry hentry).1)
    fun entry hentry => (hchecks entry hentry).2).2

/-- A client starts `tv` while its loop sleeps: the new mpv is marked online, with task 4 for its observer,
and exits at once. The recovery task it leaves, task 5, is admitted. -/
def startedWhileRecovering : List Label :=
  recovering ++ .request (.start "tv") :: List.replicate 4 (.task 3 .ok) ++
    .task 4 unavailable :: List.replicate 2 (.task 4 .ok) ++ [.task 5 .ok]

/-- Then two loops are past their admission. -/
theorem two_recovery_loops :
    ∃ history s, System.Run tvToml tvNode tvNode.toText history s ∧
      history.map Prod.snd = startedWhileRecovering ∧
      (∀ entry ∈ history, entry.2.restructures "tv" = false) ∧ ¬s.SingleRecovery "tv" := by
  have hlabels : (runChecked (System.step tvToml) (fun _ label => !label.restructures "tv")
      (System.initial tvNode tvNode.toText) startedWhileRecovering).any
        (fun s => ((s.tasks[2]?).any (Task.inRecovery "tv")) &&
          (s.tasks[5]?).any (Task.inRecovery "tv")) = true := by
    decide +kernel
  obtain ⟨history, s, hrun, hlabels, hchecks, hresult⟩ := System.exists_run hlabels
  simp only [Bool.and_eq_true, Bool.not_eq_true', Option.any_eq_true] at hchecks hresult
  obtain ⟨⟨first, hfirst, hloops⟩, second, hsecond, hloops'⟩ := hresult
  refine ⟨history, s, hrun, hlabels, hchecks, fun hone => ?_⟩
  exact absurd (hone 2 5 first second hfirst hsecond hloops hloops') (by decide)

end MpvTargets

import MpvTargets.SupervisorTasks

/-! Where a step takes its task. The step goes on in the current operation, calls another one, or
returns to the callers; every fact about the await points a task comes to is read off these moves. -/

namespace MpvTargets

@[grind →]
theorem Task.await_eq_some {task : Task} {external : External} {next turn : Turn}
    (h : task.await external next = some turn) :
    (external = .ok ∧ turn = next) ∨
      ∃ error, external = .failed error ∧ turn = task.ret .none [] (.error error) := by
  cases external with
  | ok => exact Or.inl ⟨rfl, (Option.some.inj h).symm⟩
  | failed error => exact Or.inr ⟨error, rfl, (Option.some.inj h).symm⟩
  | line message => cases h

@[grind →]
theorem External.probe_eq_some {external : External} {live dead turn : Turn}
    (h : external.probe live dead = some turn) : turn = live ∨ turn = dead := by
  cases external with
  | ok => exact Or.inl (Option.some.inj h).symm
  | failed error => exact Or.inr (Option.some.inj h).symm
  | line message => cases h

theorem Task.acquire_eq_some {task : Task} {view : View} {pc : Pc} {turn : Turn}
    (h : task.acquire view pc = some turn) :
    view.mutationsFree = true ∧ turn = task.goto .none pc := by
  rw [Task.acquire] at h
  split_ifs at h with hfree
  exact ⟨hfree, (Option.some.inj h).symm⟩

theorem Task.afterClear_cases (task : Task) (effect : Effect) (name : String) (clearing : Clearing) :
    (clearing = .stop ∧
      task.afterClear effect name clearing = task.goto effect (.stopOffline name)) ∨
    (clearing = .ensureDisabledOff ∧
      task.afterClear effect name clearing = task.goto effect (.ensureOff name)) ∨
    (clearing = .targetLost true ∧
      task.afterClear effect name clearing = finishTurn effect [recoveryTask name]) ∨
    (clearing = .targetLost false ∧
      task.afterClear effect name clearing = finishTurn effect []) := by
  cases clearing with
  | stop => exact Or.inl ⟨rfl, rfl⟩
  | ensureDisabledOff => exact Or.inr (Or.inl ⟨rfl, rfl⟩)
  | targetLost recover => cases recover <;> simp [Task.afterClear]

/-- Where a line of an mpv connection can lead. -/
theorem observeLine_pc (name : String) (message : Option Value) :
    observeLine name message = .observeRead name ∨
    (∃ field value, observeLine name message = .updateObserved name field value) ∨
    (∃ reason error, observeLine name message = .updateMediaEnd name reason error) ∨
    observeLine name message = .clearMediaEnd name := by
  unfold observeLine
  split
  · exact Or.inl rfl
  · split
    · split
      · exact Or.inl rfl
      · split
        · exact Or.inl rfl
        · exact Or.inr (Or.inl ⟨_, _, rfl⟩)
    · exact Or.inr (Or.inr (Or.inl ⟨_, _, rfl⟩))
    · exact Or.inr (Or.inr (Or.inr rfl))
    · exact Or.inl rfl

theorem addChecked_name {inner : Inner} {name : String} {source : Option String} {enable : Bool}
    {target : TargetConfig} (h : addChecked inner name source enable = .ok target) :
    target.name = name := by
  unfold addChecked at h
  split at h
  · cases h
  · split at h
    · cases h
      rfl
    · split at h
      · cases h
      · cases h
        rfl

theorem addChecked_disabled {inner : Inner} {name : String} {source : Option String} {enable : Bool}
    {target : TargetConfig} (h : addChecked inner name source enable = .ok target) :
    target.disabled = !enable := by
  unfold addChecked at h
  split at h
  · cases h
  · split at h
    · cases h; rfl
    · split at h
      · cases h
      · cases h; rfl

/-- The await points a returning call can lead to. -/
def Pc.resumes : Pc → Bool
  | start _ | restart _ | targetRecord _ | removeStage _ | saveWrite _ | recoverCheck _ _ => true
  | persistLock _ change => change = .disable
  | startupNext _ | done _ => true
  | _ => false

theorem resume_resumes (result : Outcome) (callers : List Caller) :
    (resume result callers).pc.resumes = true := by
  fun_induction resume result callers <;> simp_all [Pc.resumes]

/-- A returning call spawns at most a recovery loop. -/
theorem resume_spawned (result : Outcome) (callers : List Caller) :
    (resume result callers).spawned = [] ∨
      ∃ name, (resume result callers).spawned = [recoveryTask name] := by
  fun_induction resume result callers <;> simp_all

grind_pattern Task.afterClear_cases => task.afterClear effect name clearing
grind_pattern observeLine_pc => observeLine name message
grind_pattern resume_spawned => (resume result callers).spawned

attribute [grind =] Task.goto Task.call Task.ret finishTurn Task.acquire Task.read Task.record

section

variable (toml : Toml) (view : View) (external : External)

/-- From one await point of an operation to the next, with what the step has found out on the way. -/
inductive Pc.Next : Pc → Pc → Prop where
  -- `start` and `launch`
  | startLaunch (name : String) (target : RuntimeTarget)
      (htarget : view.inner.targets.get? name = some target)
      (henabled : target.config.disabled = false) (hoffline : target.online = false)
      (hlaunching : target.launching = false) : Pc.Next (.start name) (.launchConfig name)
  | startRunning (name : String) : Pc.Next (.start name) (.targetRecord name)
  | launchUnknown (name : String) (error : SupervisorError) :
      Pc.Next (.launchConfig name) (.launchFailed name error)
  | launchConfig (name : String) : Pc.Next (.launchConfig name) (.launchProbe name)
  | launchAttach (name : String) : Pc.Next (.launchProbe name) (.launchOnline name)
  | launchProbe (name : String) : Pc.Next (.launchProbe name) (.launchSpawn name)
  | launchSpawn (name : String) : Pc.Next (.launchSpawn name) (.launchOnline name)
  | launchFailed (name : String) (error : SupervisorError) :
      Pc.Next (.launchSpawn name) (.launchFailed name error)
  | launchOnline (name : String) : Pc.Next (.launchOnline name) (.targetRecord name)
  -- `stop`
  | stop (name : String) : Pc.Next (.stop name) (.stopQuit name)
  | stopNotRunning (name : String) : Pc.Next (.stop name) (.clearObserved name .stop)
  | stopQuit (name : String) : Pc.Next (.stopQuit name) (.stopGone name)
  | stopGone (name : String) : Pc.Next (.stopGone name) (.clearObserved name .stop)
  | stopOffline (name : String) : Pc.Next (.stopOffline name) (.targetRecord name)
  -- `clear_observed`
  | clearObserved (name : String) (clearing : Clearing) :
      Pc.Next (.clearObserved name clearing) (.clearObservedSend name clearing)
  | clearedStop (name : String) : Pc.Next (.clearObserved name .stop) (.stopOffline name)
  | sentStop (name : String) : Pc.Next (.clearObservedSend name .stop) (.stopOffline name)
  | clearedEnsure (name : String) :
      Pc.Next (.clearObserved name .ensureDisabledOff) (.ensureOff name)
  | sentEnsure (name : String) :
      Pc.Next (.clearObservedSend name .ensureDisabledOff) (.ensureOff name)
  -- `ensure_disabled_off`
  | ensureProbe (name : String) : Pc.Next (.ensureProbe name) (.ensureQuit name)
  | ensureDown (name : String) : Pc.Next (.ensureProbe name) (.clearObserved name .ensureDisabledOff)
  | ensureQuit (name : String) : Pc.Next (.ensureQuit name) (.ensureGone name)
  | ensureGone (name : String) : Pc.Next (.ensureGone name) (.clearObserved name .ensureDisabledOff)
  -- `restart`, `disable`, `persist_target_change`
  | restart (name : String) : Pc.Next (.restart name) (.restartStopped name)
  | restartStopped (name : String) : Pc.Next (.restartStopped name) (.start name)
  | disable (name : String) : Pc.Next (.disable name) (.persistLock name .disable)
  | persistLock (name : String) (change : ConfigChange) (hfree : view.mutationsFree = true) :
      Pc.Next (.persistLock name change) (.persist name change)
  | persist (name : String) (change : ConfigChange) : Pc.Next (.persist name change) (.targetRecord name)
  -- `add`
  | addLock (name : String) (source : Option String) (enable : Bool)
      (hfree : view.mutationsFree = true) :
      Pc.Next (.addLock name source enable) (.addCheck name source enable)
  | addCheck (name : String) (source : Option String) (enable : Bool) (target : TargetConfig)
      (hchecked : addChecked view.inner name source enable = .ok target) :
      Pc.Next (.addCheck name source enable) (.addPrepare target)
  | addPrepare (target : TargetConfig) : Pc.Next (.addPrepare target) (.addCandidate target)
  | addCandidate (target : TargetConfig) :
      Pc.Next (.addCandidate target) (.addPersist target (view.inner.config.push target))
  | addPersist (target : TargetConfig) (candidate : DaemonConfig) (source : String)
      (hsource : validateAndPersist toml external candidate = .ok source) :
      Pc.Next (.addPersist target candidate) (.addCommit target candidate)
  | addCommit (target : TargetConfig) (candidate : DaemonConfig) :
      Pc.Next (.addCommit target candidate) (.addRecord target.name)
  -- `remove`
  | removeLock (name : String) (hfree : view.mutationsFree = true) :
      Pc.Next (.removeLock name) (.removeCheck name)
  | removeCheck (name : String) (hname : name ∈ view.inner.targets.keys) :
      Pc.Next (.removeCheck name) (.removeStage name)
  | removeStage (name : String) : Pc.Next (.removeStage name) (.removeCandidate name)
  | removeCandidate (name : String) :
      Pc.Next (.removeCandidate name) (.removePersist name (view.inner.config.without name))
  | removePersist (name : String) (candidate : DaemonConfig) (source : String)
      (hsource : validateAndPersist toml external candidate = .ok source) :
      Pc.Next (.removePersist name candidate) (.removeCommit name candidate)
  | removeCommit (name : String) (candidate : DaemonConfig) :
      Pc.Next (.removeCommit name candidate) (.removeClean name)
  -- `rename`
  | renameLock (name replacement : String) (hfree : view.mutationsFree = true) :
      Pc.Next (.renameLock name replacement) (.renameCheck name replacement)
  | renameCheck (name replacement : String)
      (hchecked : renameChecked view.inner name replacement = .ok ()) :
      Pc.Next (.renameCheck name replacement) (.renameMove name replacement)
  | renameMove (name replacement : String) :
      Pc.Next (.renameMove name replacement) (.renameCandidate name replacement)
  | renameCandidate (name replacement : String) (candidate : DaemonConfig)
      (hrenamed : view.inner.config.renamed name replacement = some candidate) :
      Pc.Next (.renameCandidate name replacement) (.renamePersist name replacement candidate)
  | renamePersist (name replacement : String) (candidate : DaemonConfig) (source : String)
      (hsource : validateAndPersist toml external candidate = .ok source) :
      Pc.Next (.renamePersist name replacement candidate) (.renameCommit name replacement candidate)
  | renameCommit (name replacement : String) (candidate : DaemonConfig) :
      Pc.Next (.renameCommit name replacement candidate) (.renameRecord replacement)
  -- `mpv_command`
  | mpvOnline (name : String) : Pc.Next (.mpvOnline name) (.mpvIpc name)
  -- `observe_target` and `on_target_lost`
  | observeConnect (name : String) : Pc.Next (.observeConnect name) (.observeRead name)
  | observeNothing (name : String) : Pc.Next (.observeConnect name) (.targetLost name)
  | observeIgnored (name : String) : Pc.Next (.observeRead name) (.observeRead name)
  | observeProperty (name field : String) (value : Value) :
      Pc.Next (.observeRead name) (.updateObserved name field value)
  | observeEnd (name : String) (reason : MediaEndReason) (error : Option String) :
      Pc.Next (.observeRead name) (.updateMediaEnd name reason error)
  | observeLoaded (name : String) : Pc.Next (.observeRead name) (.clearMediaEnd name)
  | observeLost (name : String) : Pc.Next (.observeRead name) (.targetLost name)
  | updateObserved (name field : String) (value : Value) :
      Pc.Next (.updateObserved name field value) (.observeRead name)
  | updateMediaEnd (name : String) (reason : MediaEndReason) (error : Option String) :
      Pc.Next (.updateMediaEnd name reason error) (.mediaEndSend name)
  | sameMediaEnd (name : String) (reason : MediaEndReason) (error : Option String) :
      Pc.Next (.updateMediaEnd name reason error) (.observeRead name)
  | clearMediaEnd (name : String) : Pc.Next (.clearMediaEnd name) (.mediaEndSend name)
  | noMediaEnd (name : String) : Pc.Next (.clearMediaEnd name) (.observeRead name)
  | mediaEndSend (name : String) : Pc.Next (.mediaEndSend name) (.observeRead name)
  | targetLost (name : String) (recover : Bool) :
      Pc.Next (.targetLost name) (.clearObserved name (.targetLost recover))
  -- `schedule_recovery`
  | recoverAdmit (name : String) : Pc.Next (.recoverAdmit name) (.recoverCheck name 1)
  -- `start_configured_targets`
  | startupList : Pc.Next .startupList (.startupNext view.inner.targets.keys)
  | startupNext (name : String) (rest : List String) :
      Pc.Next (.startupNext (name :: rest)) (.startupProbe name rest)
  | startupProbe (name : String) (rest : List String) :
      Pc.Next (.startupProbe name rest) (.startupOnline name rest)
  | startupOnline (name : String) (rest : List String) :
      Pc.Next (.startupOnline name rest) (.startupNext rest)

/-- From an await point into the operation it calls. -/
inductive Pc.Calls : Pc → Pc → Caller → Prop where
  | restartEnsured (name : String) :
      Pc.Calls (.restart name) (.ensureProbe name) (.restartEnsured name)
  | restartStop (name : String) :
      Pc.Calls (.restartStopped name) (.stop name) (.restartStop name)
  | disableStop (name : String) : Pc.Calls (.disable name) (.stop name) (.disableStop name)
  | removeStop (name : String) (hname : name ∈ view.inner.targets.keys) :
      Pc.Calls (.removeCheck name) (.stop name) (.removeStop name)
  | saveChannel (name : String) (hfree : view.mutationsFree = true) :
      Pc.Calls (.saveLock name) (.mpvOnline name) (.saveChannel name)
  | recovery (name : String) (delay : Nat) (target : RuntimeTarget)
      (htarget : view.inner.targets.get? name = some target) (hrunning : target.stopped = false) :
      Pc.Calls (.recoverCheck name delay) (.start name) (.recovery name delay)
  | startupEnsured (name : String) (rest : List String) :
      Pc.Calls (.startupNext (name :: rest)) (.ensureProbe name) (.startupEnsured rest)
  | startupStarted (name : String) (rest : List String) :
      Pc.Calls (.startupProbe name rest) (.start name) (.startupStarted name rest)

/-- The expectations of the source that can fail. -/
inductive Pc.Panics : Pc → Prop where
  | persist (name : String) (change : ConfigChange)
      (hpanics : (persistTargetChange toml external name change view.inner).2 = .panicked) :
      Pc.Panics (.persist name change)
  | renameCommit (name replacement : String) (candidate : DaemonConfig)
      (hnone : view.inner.targets.get? name = none) :
      Pc.Panics (.renameCommit name replacement candidate)
  | startupNext (name : String) (rest : List String)
      (hnone : view.inner.targets.get? name = none) : Pc.Panics (.startupNext (name :: rest))

/-- Where a step takes its task, and what then awaits the result. -/
inductive Task.Leads (task : Task) : Pc → List Caller → Prop where
  | next {pc : Pc} (hnext : task.pc.Next toml view external pc) : Task.Leads task pc task.callers
  | call {pc : Pc} {caller : Caller} (hcalls : task.pc.Calls view pc caller) :
      Task.Leads task pc (caller :: task.callers)
  | ret (result : Outcome) :
      Task.Leads task (resume result task.callers).pc (resume result task.callers).callers
  | finish : Task.Leads task (.done (.ok .done)) []
  | panic (hpanics : task.pc.Panics toml view external) : Task.Leads task .panicked []

/-- Where a step takes its task, whatever awaits it. -/
inductive Pc.Leads : Pc → Pc → Prop where
  | next {pc pc' : Pc} (hnext : pc.Next toml view external pc') : Pc.Leads pc pc'
  | call {pc pc' : Pc} {caller : Caller} (hcalls : pc.Calls view pc' caller) : Pc.Leads pc pc'
  | resume {pc pc' : Pc} (hresumes : pc'.resumes = true) : Pc.Leads pc pc'
  | panic {pc : Pc} (hpanics : pc.Panics toml view external) : Pc.Leads pc .panicked

end

section

variable {toml : Toml} {view : View} {task : Task} {external : External} {turn : Turn}

theorem Task.Leads.pc {pc : Pc} {callers : List Caller}
    (h : task.Leads toml view external pc callers) : task.pc.Leads toml view external pc := by
  cases h with
  | next hnext => exact .next hnext
  | call hcalls => exact .call hcalls
  | ret result => exact .resume (resume_resumes result task.callers)
  | finish => exact .resume rfl
  | panic hpanics => exact .panic hpanics

/-- What holds of the await point or of a caller after a step held so before, or the move is an exception:
it is enough to look at the moves within and into operations, and at returning calls. -/
theorem Task.Leads.before {pc : Pc} {callers : List Caller} (P : Pc → Prop) (Q : Caller → Prop)
    (exception : Prop) (h : task.Leads toml view external pc callers)
    (hnext : ∀ pc', task.pc.Next toml view external pc' → P pc' → P task.pc ∨ exception)
    (hcalls : ∀ pc pc' caller, pc.Calls view pc' caller → P pc' ∨ Q caller → P pc ∨ exception)
    (hresume : ∀ result, (P (resume result task.callers).pc ∨
      ∃ caller ∈ (resume result task.callers).callers, Q caller) → ∃ caller ∈ task.callers, Q caller)
    (hends : ∀ pc', pc' = .done (.ok .done) ∨ pc' = .panicked → ¬P pc')
    (hafter : P pc ∨ ∃ caller ∈ callers, Q caller) :
    (P task.pc ∨ ∃ caller ∈ task.callers, Q caller) ∨ exception := by
  cases h with
  | next hmove =>
      rcases hafter with hpc | hcallers
      · exact (hnext pc hmove hpc).imp_left Or.inl
      · exact Or.inl (Or.inr hcallers)
  | @call _ caller hmove =>
      rcases hafter with hpc | ⟨other, hother, hQ⟩
      · exact (hcalls _ pc caller hmove (Or.inl hpc)).imp_left Or.inl
      · rcases List.mem_cons.mp hother with rfl | hold
        · exact (hcalls _ pc other hmove (Or.inr hQ)).imp_left Or.inl
        · exact Or.inl (Or.inr ⟨other, hold, hQ⟩)
  | ret result => exact Or.inl (Or.inr (hresume result hafter))
  | finish =>
      rcases hafter with hpc | ⟨_, hnone, _⟩
      · exact absurd hpc (hends _ (Or.inl rfl))
      · exact absurd hnone List.not_mem_nil
  | panic =>
      rcases hafter with hpc | ⟨_, hnone, _⟩
      · exact absurd hpc (hends _ (Or.inr rfl))
      · exact absurd hnone List.not_mem_nil

/-- A step that goes on in the same operation. -/
theorem Task.leads_goto {effect : Effect} {pc : Pc} (hnext : task.pc.Next toml view external pc) :
    task.Leads toml view external (task.goto effect pc).pc (task.goto effect pc).callers :=
  .next hnext

theorem Task.leads_ret {effect : Effect} {spawned : List Task} (result : Outcome) :
    task.Leads toml view external (task.ret effect spawned result).pc
      (task.ret effect spawned result).callers :=
  .ret result

/-- A step that awaits a call goes on or hands the error to the callers. -/
theorem Task.leads_await {next : Turn} (h : task.await external next = some turn)
    (hnext : task.Leads toml view external next.pc next.callers) :
    task.Leads toml view external turn.pc turn.callers := by
  rcases Task.await_eq_some h with ⟨_, rfl⟩ | ⟨error, _, rfl⟩
  · exact hnext
  · exact Task.leads_ret _

theorem Task.leads_probe {live dead : Turn} (h : external.probe live dead = some turn)
    (hlive : task.Leads toml view external live.pc live.callers)
    (hdead : task.Leads toml view external dead.pc dead.callers) :
    task.Leads toml view external turn.pc turn.callers := by
  rcases External.probe_eq_some h with rfl | rfl
  · exact hlive
  · exact hdead

theorem Task.leads_acquire {pc : Pc} (h : task.acquire view pc = some turn)
    (hnext : view.mutationsFree = true → task.pc.Next toml view external pc) :
    task.Leads toml view external turn.pc turn.callers := by
  obtain ⟨hfree, rfl⟩ := Task.acquire_eq_some h
  exact Task.leads_goto (hnext hfree)

/-- A step that reads a target returns an error where there is none. -/
theorem Task.leads_read {name : String} {next : RuntimeTarget → Turn}
    (h : some (task.read view name next) = some turn)
    (hnext : ∀ target, view.inner.targets.get? name = some target →
      task.Leads toml view external (next target).pc (next target).callers) :
    task.Leads toml view external turn.pc turn.callers := by
  cases h
  rw [Task.read]
  split
  · exact Task.leads_ret _
  · rename_i target htarget
    exact hnext target htarget

theorem Task.leads_record {name : String} (h : some (task.record view name) = some turn) :
    task.Leads toml view external turn.pc turn.callers :=
  Task.leads_read h fun _ _ => Task.leads_ret _

theorem Task.leads_afterClear (effect : Effect) {name : String} {clearing : Clearing}
    (hstop : clearing = .stop → task.pc.Next toml view external (.stopOffline name))
    (hensure : clearing = .ensureDisabledOff → task.pc.Next toml view external (.ensureOff name)) :
    task.Leads toml view external (task.afterClear effect name clearing).pc
      (task.afterClear effect name clearing).callers := by
  rcases task.afterClear_cases effect name clearing with
    ⟨hclearing, he⟩ | ⟨hclearing, he⟩ | ⟨_, he⟩ | ⟨_, he⟩
  · rw [he]
    exact Task.leads_goto (hstop hclearing)
  · rw [he]
    exact Task.leads_goto (hensure hclearing)
  all_goals
    rw [he]
    exact .finish

theorem stillExpectedSection_running {target : RuntimeTarget}
    (h : (stillExpectedSection target).value = true) : target.stopped = false := by
  rw [stillExpectedSection] at h
  split_ifs at h with hoff
  exact (Bool.or_eq_false_iff.mp (Bool.eq_false_of_not_eq_true hoff)).2

theorem startSection_launches {target : RuntimeTarget} (h : (startSection target).value = .ok true) :
    target.config.disabled = false ∧ target.online = false ∧ target.launching = false := by
  rw [startSection] at h
  grind

/-- Every step of a task is one of its moves. -/
theorem Task.turn_leads (h : task.turn toml view external = some turn) :
    task.Leads toml view external turn.pc turn.callers := by
  rcases task with ⟨origin, pc, callers⟩
  cases pc
  case start name =>
      simp only [Task.turn] at h
      split at h <;> cases h
      · exact Task.leads_ret _
      · exact Task.leads_ret _
      · rename_i hvalue
        obtain ⟨target, htarget, hlaunches⟩ := Option.map_eq_some_iff.mp hvalue
        obtain ⟨henabled, hoffline, hlaunching⟩ := startSection_launches hlaunches
        exact .next (.startLaunch name target htarget henabled hoffline hlaunching)
      · exact .next (.startRunning name)
  case launchConfig name =>
      simp only [Task.turn] at h
      split at h <;> cases h
      · exact .next (.launchUnknown name _)
      · exact .next (.launchConfig name)
  case launchProbe name =>
      exact Task.leads_probe h (.next (.launchAttach name)) (.next (.launchProbe name))
  case launchSpawn name =>
      simp only [Task.turn] at h
      split at h <;> cases h
      · exact .next (.launchSpawn name)
      · exact .next (.launchFailed name _)
  case launchOnline name =>
      cases h
      exact .next (.launchOnline name)
  case launchFailed name error =>
      cases h
      exact Task.leads_ret _
  case stop name =>
      simp only [Task.turn] at h
      split at h <;> cases h
      · exact Task.leads_ret _
      · exact Task.leads_ret _
      · exact .next (.stop name)
      · exact .next (.stopNotRunning name)
  case stopQuit name => exact Task.leads_await h (.next (.stopQuit name))
  case stopGone name => exact Task.leads_await h (.next (.stopGone name))
  case stopOffline name =>
      cases h
      exact .next (.stopOffline name)
  case clearObserved name clearing =>
      simp only [Task.turn] at h
      split at h <;> cases h
      · exact .next (.clearObserved name clearing)
      · refine Task.leads_afterClear _ ?_ ?_
        · rintro rfl
          exact .clearedStop name
        · rintro rfl
          exact .clearedEnsure name
  case clearObservedSend name clearing =>
      cases h
      refine Task.leads_afterClear _ ?_ ?_
      · rintro rfl
        exact .sentStop name
      · rintro rfl
        exact .sentEnsure name
  case ensureProbe name =>
      exact Task.leads_probe h (.next (.ensureProbe name)) (.next (.ensureDown name))
  case ensureQuit name => exact Task.leads_await h (.next (.ensureQuit name))
  case ensureGone name => exact Task.leads_await h (.next (.ensureGone name))
  case ensureOff name =>
      simp only [Task.turn] at h
      split at h <;> cases h <;> exact Task.leads_ret _
  case restart name =>
      refine Task.leads_read h fun target _ => ?_
      split_ifs
      · exact .call (.restartEnsured name)
      · exact .next (.restart name)
  case restartStopped name =>
      refine Task.leads_read h fun target _ => ?_
      split_ifs
      · exact .next (.restartStopped name)
      · exact .call (.restartStop name)
  case disable name =>
      refine Task.leads_read h fun target _ => ?_
      split_ifs
      · exact .next (.disable name)
      · exact .call (.disableStop name)
  case persistLock name change => exact Task.leads_acquire h (.persistLock name change)
  case persist name change =>
      simp only [Task.turn] at h
      split at h <;> cases h
      · exact .next (.persist name change)
      · exact Task.leads_ret _
      · rename_i hpanics
        exact .panic (.persist name change hpanics)
  case targetRecord name => exact Task.leads_record h
  case addLock name source enable => exact Task.leads_acquire h (.addLock name source enable)
  case addCheck name source enable =>
      simp only [Task.turn] at h
      split at h <;> cases h
      · exact Task.leads_ret _
      · rename_i target hchecked
        exact .next (.addCheck name source enable target hchecked)
  case addPrepare target => exact Task.leads_await h (.next (.addPrepare target))
  case addCandidate target =>
      cases h
      exact .next (.addCandidate target)
  case addPersist target candidate =>
      simp only [Task.turn] at h
      split at h <;> cases h
      · exact Task.leads_ret _
      · rename_i source hsource
        exact .next (.addPersist target candidate source hsource)
  case addCommit target candidate =>
      cases h
      exact .next (.addCommit target candidate)
  case addRecord name => exact Task.leads_record h
  case removeLock name => exact Task.leads_acquire h (.removeLock name)
  case removeCheck name =>
      refine Task.leads_read h fun target htarget => ?_
      have hname : name ∈ view.inner.targets.keys := (OrderedMap.mem_keys_iff _).mpr ⟨target, htarget⟩
      split_ifs
      · exact .next (.removeCheck name hname)
      · exact .call (.removeStop name hname)
  case removeStage name => exact Task.leads_await h (.next (.removeStage name))
  case removeCandidate name =>
      cases h
      exact .next (.removeCandidate name)
  case removePersist name candidate =>
      simp only [Task.turn] at h
      split at h <;> cases h
      · exact Task.leads_ret _
      · rename_i source hsource
        exact .next (.removePersist name candidate source hsource)
  case removeCommit name candidate =>
      cases h
      exact .next (.removeCommit name candidate)
  case removeClean name => exact Task.leads_await h (Task.leads_ret _)
  case renameLock name replacement => exact Task.leads_acquire h (.renameLock name replacement)
  case renameCheck name replacement =>
      simp only [Task.turn] at h
      split at h <;> cases h
      · exact Task.leads_ret _
      · rename_i hchecked
        exact .next (.renameCheck name replacement hchecked)
  case renameMove name replacement => exact Task.leads_await h (.next (.renameMove name replacement))
  case renameCandidate name replacement =>
      simp only [Task.turn] at h
      split at h <;> cases h
      · exact Task.leads_ret _
      · rename_i candidate hrenamed
        exact .next (.renameCandidate name replacement candidate hrenamed)
  case renamePersist name replacement candidate =>
      simp only [Task.turn] at h
      split at h <;> cases h
      · exact Task.leads_ret _
      · rename_i source hsource
        exact .next (.renamePersist name replacement candidate source hsource)
  case renameCommit name replacement candidate =>
      simp only [Task.turn] at h
      split at h <;> cases h
      · rename_i hnone
        exact .panic (.renameCommit name replacement candidate hnone)
      · exact .next (.renameCommit name replacement candidate)
  case renameRecord replacement => exact Task.leads_record h
  case mpvOnline name =>
      refine Task.leads_read h fun target _ => ?_
      split_ifs
      · exact .next (.mpvOnline name)
      · exact Task.leads_ret _
  case mpvIpc name => exact Task.leads_await h (Task.leads_ret _)
  case saveLock name =>
      simp only [Task.turn] at h
      split at h <;> cases h
      rename_i hfree
      exact .call (.saveChannel name hfree)
  case saveWrite name => exact Task.leads_await h (Task.leads_ret _)
  case observeConnect name =>
      exact Task.leads_probe h (.next (.observeConnect name)) (.next (.observeNothing name))
  case observeRead name =>
      simp only [Task.turn] at h
      split at h <;> cases h
      · rename_i message
        refine Task.leads_goto ?_
        rcases observeLine_pc name message with he | ⟨field, value, he⟩ | ⟨reason, error, he⟩ | he
        · rw [he]
          exact .observeIgnored name
        · rw [he]
          exact .observeProperty name field value
        · rw [he]
          exact .observeEnd name reason error
        · rw [he]
          exact .observeLoaded name
      · exact .next (.observeLost name)
  case updateObserved name field value =>
      cases h
      exact .next (.updateObserved name field value)
  case updateMediaEnd name reason error =>
      simp only [Task.turn] at h
      split at h <;> cases h
      · exact .next (.updateMediaEnd name reason error)
      · exact .next (.sameMediaEnd name reason error)
  case clearMediaEnd name =>
      simp only [Task.turn] at h
      split at h <;> cases h
      · exact .next (.clearMediaEnd name)
      · exact .next (.noMediaEnd name)
  case mediaEndSend name =>
      cases h
      exact .next (.mediaEndSend name)
  case targetLost name =>
      simp only [Task.turn] at h
      split at h <;> cases h
      · exact .finish
      · exact .next (.targetLost name _)
  case recoverAdmit name =>
      simp only [Task.turn] at h
      split at h <;> cases h
      · exact .next (.recoverAdmit name)
      · exact .finish
  case recoverCheck name delay =>
      simp only [Task.turn] at h
      split at h <;> cases h
      · rename_i hvalue
        obtain ⟨target, htarget, hexpected⟩ := Option.map_eq_some_iff.mp hvalue
        exact .call (.recovery name delay target htarget (stillExpectedSection_running hexpected))
      · exact .finish
  case startupList =>
      cases h
      exact .next .startupList
  case startupNext rest =>
      cases rest with
      | nil =>
          cases h
          exact Task.leads_ret _
      | cons name rest =>
          simp only [Task.turn] at h
          split at h
          · rename_i hnone
            cases h
            exact .panic (.startupNext name rest hnone)
          · split_ifs at h <;> cases h
            · exact .call (.startupEnsured name rest)
            · exact .next (.startupNext name rest)
  case startupProbe name rest =>
      exact Task.leads_probe h (.next (.startupProbe name rest)) (.call (.startupStarted name rest))
  case startupOnline name rest =>
      cases h
      exact .next (.startupOnline name rest)
  case done result => cases h
  case panicked => cases h

end

end MpvTargets

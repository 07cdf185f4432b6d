import MpvTargets.Admissibility
import MpvTargets.Dispatch
import MpvTargets.Scenario
import MpvTargets.SoloRuns
import MpvTargets.TargetFlags

/-! `target_set_channel` with a restart. The channel is committed first, and nothing takes it back when
the restart fails; a restart that succeeds need not bring the target online. -/

namespace MpvTargets

/-- The channel of a target in the configuration file. -/
def channelOnDisk (toml : Toml) (file name : String) : Option (Option String) :=
  match DaemonConfig.parse toml file with
  | .error _ => none
  | .ok config => (config.target? name).map TargetConfig.channel

def Inner.channel (inner : Inner) (name : String) : Option (Option String) :=
  (inner.targets.get? name).map fun target => target.config.channel

/-- The channel is as before, at runtime, in the configuration and on disk. -/
structure Solo.SameChannel (toml : Toml) (name : String) (before after : Solo) : Prop where
  runtime : after.inner.channel name = before.inner.channel name
  config : (after.inner.config.target? name).map TargetConfig.channel =
    (before.inner.config.target? name).map TargetConfig.channel
  disk : channelOnDisk toml after.file name = channelOnDisk toml before.file name

/-- An error leaves the channel as it was, and a success has completed the restart. -/
def Solo.ChannelAllOrNothing (toml : Toml) (name : String) (channel : Option String)
    (before after : Solo) (result : Outcome) : Prop :=
  match (Protocol.Operation.targetSetChannel channel true).answer name result with
  | some (.error _) => Solo.SameChannel toml name before after
  | some (.ok data) => data.get "restart_completed" = some (.bool true)
  | none => True

/-- Await points of a restart whose calls can fail. -/
def Pc.restartCall : Pc → Bool
  | stopQuit _ | stopGone _ | ensureQuit _ | ensureGone _ | launchSpawn _ => true
  | _ => false

def Solo.RestartFails (entry : Solo × External) : Prop :=
  entry.1.task.pc.restartCall = true ∧ ∃ error, entry.2 = .failed error

/-- The candidate with the new channel is refused, or cannot be written. -/
def Solo.ChannelRefused (toml : Toml) (name : String) (channel : Option String)
    (entry : Solo × External) : Prop :=
  entry.1.task.pc = .persist name (.setChannel channel) ∧ ∃ persisted changed error,
    (entry.1.inner.config.target? name).bind (ConfigChange.setChannel channel).mutate =
      some (persisted, changed) ∧
    validateAndPersist toml entry.2 (entry.1.inner.config.setEntry name persisted) = .error error

/-- Enabled, and not being launched. -/
def RuntimeTarget.Restartable (target : RuntimeTarget) : Prop :=
  target.config.disabled = false ∧ (target.launching = true → target.online = true)

/-- The target is unknown, or the write of its channel fails, or the restart fails with no new channel to
write, or nothing fails and the target is one that a restart brings online. -/
def Solo.ChannelSettles (toml : Toml) (name : String) (channel : Option String) (before : Solo)
    (steps : List (Solo × External)) : Prop :=
  ∀ target, before.inner.targets.get? name = some target →
    (∃ entry ∈ steps, Solo.ChannelRefused toml name channel entry) ∨
    (∃ entry ∈ steps, Solo.RestartFails entry) ∧ target.config.channel = channel ∨
    (∀ entry ∈ steps, ¬Solo.RestartFails entry) ∧ target.Restartable

section

variable {toml : Toml} {host : Host} {arguments : AddArguments} {external : External}
  {before s t : Solo} {history : List (Solo × External)} {name : String} {channel : Option String}
  {first target : RuntimeTarget}

/-- Where the request is once the channel is set, of a target that was `first` and now is `target`. Up to
the launch the target can be restarted if it could be at first. -/
inductive RestartPoint (name : String) (first target : RuntimeTarget) : Pc → List Caller → Prop where
  | wrote (h : target.Restartable ↔ first.Restartable) :
      RestartPoint name first target (.targetRecord name) [.setChannel name true]
  | restart (h : target.Restartable ↔ first.Restartable) :
      RestartPoint name first target (.restart name) []
  | restartStopped (henabled : target.config.disabled = false)
      (h : target.Restartable ↔ first.Restartable) :
      RestartPoint name first target (.restartStopped name) []
  | stopping {pc : Pc} (hpc : pc.stops name = true) (hrunning : pc = .stop name → target.stopped = false)
      (henabled : target.config.disabled = false) (h : target.Restartable ↔ first.Restartable) :
      RestartPoint name first target pc [.restartStop name]
  | start (henabled : target.config.disabled = false)
      (h : target.Restartable ↔ first.Restartable) :
      RestartPoint name first target (.start name) []
  | launching {pc : Pc} (hpc : pc = .launchConfig name ∨ pc = .launchProbe name ∨
      pc = .launchSpawn name ∨ pc = .launchOnline name) (h : first.Restartable) :
      RestartPoint name first target pc []
  | ensuring {pc : Pc} (hpc : pc.ensures name = true) (h : ¬first.Restartable) :
      RestartPoint name first target pc [.restartEnsured name]
  | record (h : target.online = true ↔ first.Restartable) :
      RestartPoint name first target (.targetRecord name) []

/-- The request has failed, up to the section that ends a failed launch. -/
def Solo.Failed (name : String) (s : Solo) : Prop :=
  (∃ error, s.task.pc = .launchFailed name error ∧ s.task.callers = []) ∨
    ∃ error, s.task.pc = .done (.error error)

/-- The request has returned the record of the target. -/
def Solo.Completed (first : RuntimeTarget) (s : Solo) : Prop :=
  ∃ record, s.task.pc = .done (.ok (.record record)) ∧ (record.online = true ↔ first.Restartable)

theorem Inner.get?_after_onTarget {inner : Inner} (htarget : inner.targets.get? name = some target)
    (toml : Toml) (op : TargetOp) :
    (inner.after toml (some (.onTarget name op))).targets.get? name = some (op.run target).1 := by
  rw [Inner.after, CriticalSection.run, Inner.get?_onTarget, if_pos rfl, htarget]
  rfl

/-- Clearing the observed fields, and marking a target as stopped or offline, do not make a difference. -/
theorem RuntimeTarget.Restartable.run_iff {op : TargetOp}
    (hop : op = .stop ∨ op = .clearObserved ∨ op = .markOffline) :
    (op.run target).1.Restartable ↔ target.Restartable := by
  rw [RuntimeTarget.Restartable, RuntimeTarget.Restartable, TargetOp.run_config, TargetOp.run_launching,
    TargetOp.run_online]
  rcases hop with rfl | rfl | rfl
  · exact Iff.rfl
  · exact Iff.rfl
  · simp

/-- A step of the restart: it fails as one of its calls does, or goes on with the same configuration. -/
def Solo.RestartStep (name : String) (first target : RuntimeTarget) (entry : Solo × External) (t : Solo) :
    Prop :=
  (Solo.RestartFails entry ∧ t.Failed name) ∨
  (¬Solo.RestartFails entry ∧ ∃ target', t.inner.targets.get? name = some target' ∧
    target'.config = target.config ∧
    (RestartPoint name first target' t.task.pc t.task.callers ∨ t.Completed first))

theorem Solo.RestartStep.quiet (hcall : s.task.pc.restartCall = false) {target' : RuntimeTarget}
    (htarget : t.inner.targets.get? name = some target') (hconfig : target'.config = target.config)
    (h : RestartPoint name first target' t.task.pc t.task.callers ∨ t.Completed first) :
    Solo.RestartStep name first target (s, external) t := by
  refine Or.inr ⟨fun hfails => ?_, target', htarget, hconfig, h⟩
  exact absurd (hcall.symm.trans hfails.1) Bool.false_ne_true

/-- A call whose success goes on and whose failure fails the request. -/
theorem Solo.RestartStep.call (hcall : s.task.pc.restartCall = true)
    (htarget : t.inner.targets.get? name = some target)
    (h : (external = .ok ∧ RestartPoint name first target t.task.pc t.task.callers) ∨
      (∃ error, external = .failed error) ∧ t.Failed name) :
    Solo.RestartStep name first target (s, external) t := by
  rcases h with ⟨rfl, hpoint⟩ | ⟨hfailed, ht⟩
  · refine Or.inr ⟨?_, target, htarget, rfl, Or.inl hpoint⟩
    rintro ⟨_, error, herror⟩
    cases herror
  · exact Or.inl ⟨⟨hcall, hfailed⟩, ht⟩

theorem RestartPoint.step_stopping (hpc : s.task.pc.stops name = true)
    (hcallers : s.task.callers = [.restartStop name])
    (hrunning : s.task.pc = .stop name → target.stopped = false)
    (henabled : target.config.disabled = false) (h : target.Restartable ↔ first.Restartable)
    (htarget : s.inner.targets.get? name = some target)
    (hstep : s.step toml host arguments external = some t) :
    Solo.RestartStep name first target (s, external) t := by
  obtain ⟨turn, hcall, hturn, hinner, hfile, htask, hspawned⟩ := Solo.step_cases hstep
  have hsection := fun op => Inner.get?_after_onTarget htarget toml op
  have hconfig := fun op => TargetOp.run_config op target
  have henabled' := fun op => (congrArg TargetConfig.disabled (hconfig op)).trans henabled
  have hkept : ∀ op : TargetOp, (op = .stop ∨ op = .clearObserved ∨ op = .markOffline) →
      ((op.run target).1.Restartable ↔ first.Restartable) :=
    fun _ hop => (RuntimeTarget.Restartable.run_iff hop).trans h
  have hview : s.system.view.inner = s.inner := rfl
  rcases s with ⟨inner, file, entries, ⟨origin, pc, callers⟩, spawned⟩
  rcases t with ⟨inner', file', entries', task', spawned'⟩
  dsimp only at hpc hcallers hrunning htarget hturn hinner htask hsection hview
  subst htask hinner hcallers
  cases pc
  case stop other =>
    obtain rfl : other = name := by simpa [Pc.stops] using hpc
    simp only [Task.turn, hview, htarget, Option.map_some, stopSection, hrunning rfl,
      Bool.false_eq_true, if_false] at hturn
    refine .quiet rfl (hsection .stop) (hconfig _) (Or.inl ?_)
    cases honline : target.online <;> rw [honline] at hturn <;> cases hturn
    · exact .stopping (by simp [Task.goto, Pc.stops]) (fun heq => by cases heq) (henabled' _)
        (hkept _ (Or.inl rfl))
    · exact .stopping (by simp [Task.goto, Pc.stops]) (fun heq => by cases heq) (henabled' _)
        (hkept _ (Or.inl rfl))
  case stopQuit other =>
    obtain rfl : other = name := by simpa [Pc.stops] using hpc
    refine .call rfl htarget ?_
    rcases Task.await_eq_some hturn with ⟨hok, rfl⟩ | ⟨error, herror, rfl⟩
    · exact Or.inl ⟨hok, .stopping (by simp [Task.goto, Pc.stops]) (fun heq => by cases heq) henabled h⟩
    · exact Or.inr ⟨⟨error, herror⟩, Or.inr ⟨error, rfl⟩⟩
  case stopGone other =>
    obtain rfl : other = name := by simpa [Pc.stops] using hpc
    refine .call rfl htarget ?_
    rcases Task.await_eq_some hturn with ⟨hok, rfl⟩ | ⟨error, herror, rfl⟩
    · exact Or.inl ⟨hok, .stopping (by simp [Task.goto, Pc.stops]) (fun heq => by cases heq) henabled h⟩
    · exact Or.inr ⟨⟨error, herror⟩, Or.inr ⟨error, rfl⟩⟩
  case stopOffline other =>
    obtain rfl : other = name := by simpa [Pc.stops] using hpc
    cases hturn
    refine .quiet rfl (hsection .markOffline) (hconfig _) (Or.inl ?_)
    exact .stopping (by simp [Task.goto, Pc.stops]) (fun heq => by cases heq) (henabled' _)
      (hkept _ (Or.inr (Or.inr rfl)))
  case clearObserved other clearing =>
    obtain ⟨rfl, rfl⟩ : other = name ∧ clearing = .stop := by simpa [Pc.stops] using hpc
    refine .quiet rfl (hsection .clearObserved) (hconfig _) (Or.inl ?_)
    have hpoint : ∀ pc, Pc.stops other pc = true → (pc = .stop other → _) →
        RestartPoint other first _ pc [.restartStop other] := fun _ hpc hne =>
      .stopping hpc hne (henabled' .clearObserved) (hkept .clearObserved (Or.inr (Or.inl rfl)))
    simp only [Task.turn] at hturn
    split at hturn <;> cases hturn
    · exact hpoint _ (by simp [Task.goto, Pc.stops]) fun heq => by cases heq
    · exact hpoint _ (by simp [Task.afterClear, Task.goto, Pc.stops]) fun heq => by cases heq
  case clearObservedSend other clearing =>
    obtain ⟨rfl, rfl⟩ : other = name ∧ clearing = .stop := by simpa [Pc.stops] using hpc
    cases hturn
    refine .quiet rfl htarget rfl (Or.inl ?_)
    exact .stopping (by simp [Task.afterClear, Task.goto, Pc.stops]) (fun heq => by cases heq) henabled h
  case targetRecord other =>
    obtain rfl : other = name := by simpa [Pc.stops] using hpc
    simp only [Task.turn, Task.record, Task.read, hview, htarget] at hturn
    cases hturn
    exact .quiet rfl htarget rfl (Or.inl (.start henabled h))
  all_goals simp [Pc.stops] at hpc

theorem RestartPoint.step_launching (hpc : s.task.pc = .launchConfig name ∨ s.task.pc = .launchProbe name ∨
      s.task.pc = .launchSpawn name ∨ s.task.pc = .launchOnline name)
    (hcallers : s.task.callers = []) (h : first.Restartable)
    (htarget : s.inner.targets.get? name = some target)
    (hstep : s.step toml host arguments external = some t) :
    Solo.RestartStep name first target (s, external) t := by
  obtain ⟨turn, hcall, hturn, hinner, hfile, htask, hspawned⟩ := Solo.step_cases hstep
  have hsection := fun op => Inner.get?_after_onTarget htarget toml op
  have hview : s.system.view.inner = s.inner := rfl
  rcases s with ⟨inner, file, entries, ⟨origin, pc, callers⟩, spawned⟩
  rcases t with ⟨inner', file', entries', task', spawned'⟩
  dsimp only at hpc hcallers htarget hturn hinner htask hsection hview
  subst htask hinner hcallers
  rcases hpc with rfl | rfl | rfl | rfl
  · simp only [Task.turn, hview, htarget] at hturn
    cases hturn
    exact .quiet rfl htarget rfl (Or.inl (.launching (Or.inr (Or.inl rfl)) h))
  · refine .quiet rfl htarget rfl (Or.inl ?_)
    rcases External.probe_eq_some hturn with rfl | rfl
    · exact .launching (Or.inr (Or.inr (Or.inr rfl))) h
    · exact .launching (Or.inr (Or.inr (Or.inl rfl))) h
  · refine .call rfl htarget ?_
    cases external with
    | ok =>
        cases hturn
        exact Or.inl ⟨rfl, .launching (Or.inr (Or.inr (Or.inr rfl))) h⟩
    | failed error =>
        cases hturn
        exact Or.inr ⟨⟨error, rfl⟩, Or.inl ⟨error, rfl, rfl⟩⟩
    | line message => cases hturn
  · cases hturn
    refine .quiet rfl (hsection .markOnline) (TargetOp.run_config _ _) (Or.inl (.record ?_))
    rw [TargetOp.run_online]
    exact ⟨fun _ => h, fun _ => rfl⟩

theorem RestartPoint.step_ensuring (hpc : s.task.pc.ensures name = true)
    (hcallers : s.task.callers = [.restartEnsured name]) (h : ¬first.Restartable)
    (htarget : s.inner.targets.get? name = some target)
    (hstep : s.step toml host arguments external = some t) :
    Solo.RestartStep name first target (s, external) t := by
  obtain ⟨turn, hcall, hturn, hinner, hfile, htask, hspawned⟩ := Solo.step_cases hstep
  have hsection := fun op => Inner.get?_after_onTarget htarget toml op
  have hview : s.system.view.inner = s.inner := rfl
  rcases s with ⟨inner, file, entries, ⟨origin, pc, callers⟩, spawned⟩
  rcases t with ⟨inner', file', entries', task', spawned'⟩
  dsimp only at hpc hcallers htarget hturn hinner htask hsection hview
  subst htask hinner hcallers
  cases pc
  case ensureProbe other =>
    obtain rfl : other = name := by simpa [Pc.ensures] using hpc
    refine .quiet rfl htarget rfl (Or.inl ?_)
    rcases External.probe_eq_some hturn with rfl | rfl
    · exact .ensuring (by simp [Task.goto, Pc.ensures]) h
    · exact .ensuring (by simp [Task.goto, Pc.ensures]) h
  case ensureQuit other =>
    obtain rfl : other = name := by simpa [Pc.ensures] using hpc
    refine .call rfl htarget ?_
    rcases Task.await_eq_some hturn with ⟨hok, rfl⟩ | ⟨error, herror, rfl⟩
    · exact Or.inl ⟨hok, .ensuring (by simp [Task.goto, Pc.ensures]) h⟩
    · exact Or.inr ⟨⟨error, herror⟩, Or.inr ⟨error, rfl⟩⟩
  case ensureGone other =>
    obtain rfl : other = name := by simpa [Pc.ensures] using hpc
    refine .call rfl htarget ?_
    rcases Task.await_eq_some hturn with ⟨hok, rfl⟩ | ⟨error, herror, rfl⟩
    · exact Or.inl ⟨hok, .ensuring (by simp [Task.goto, Pc.ensures]) h⟩
    · exact Or.inr ⟨⟨error, herror⟩, Or.inr ⟨error, rfl⟩⟩
  case clearObserved other clearing =>
    obtain ⟨rfl, rfl⟩ : other = name ∧ clearing = .ensureDisabledOff := by simpa [Pc.ensures] using hpc
    refine .quiet rfl (hsection .clearObserved) (TargetOp.run_config _ _) (Or.inl ?_)
    simp only [Task.turn] at hturn
    split at hturn <;> cases hturn
    · exact .ensuring (by simp [Task.goto, Pc.ensures]) h
    · exact .ensuring (by simp [Task.afterClear, Task.goto, Pc.ensures]) h
  case clearObservedSend other clearing =>
    obtain ⟨rfl, rfl⟩ : other = name ∧ clearing = .ensureDisabledOff := by simpa [Pc.ensures] using hpc
    cases hturn
    exact .quiet rfl htarget rfl (Or.inl (.ensuring (by simp [Task.afterClear, Task.goto, Pc.ensures]) h))
  case ensureOff other =>
    obtain rfl : other = name := by simpa [Pc.ensures] using hpc
    simp only [Task.turn, hview, htarget] at hturn
    cases hturn
    refine .quiet rfl (hsection .ensureDisabledOff) (TargetOp.run_config _ _) (Or.inl (.record ?_))
    rw [TargetOp.run_online]
    exact ⟨fun honline => Bool.noConfusion honline, fun hfirst => absurd hfirst h⟩
  all_goals simp [Pc.ensures] at hpc

theorem RestartPoint.step_start (hpc : s.task.pc = .start name) (hcallers : s.task.callers = [])
    (henabled : target.config.disabled = false) (h : target.Restartable ↔ first.Restartable)
    (htarget : s.inner.targets.get? name = some target)
    (hstep : s.step toml host arguments external = some t) :
    Solo.RestartStep name first target (s, external) t := by
  obtain ⟨turn, hcall, hturn, hinner, hfile, htask, hspawned⟩ := Solo.step_cases hstep
  have hsection := fun op => Inner.get?_after_onTarget htarget toml op
  have hview : s.system.view.inner = s.inner := rfl
  rcases s with ⟨inner, file, entries, ⟨origin, pc, callers⟩, spawned⟩
  rcases t with ⟨inner', file', entries', task', spawned'⟩
  dsimp only at hpc hcallers htarget hturn hinner htask hsection hview
  subst htask hinner hcallers hpc
  simp only [Task.turn, hview, htarget, Option.map_some, startSection_value henabled] at hturn
  refine .quiet rfl (hsection .start) (TargetOp.run_config _ _) (Or.inl ?_)
  cases honline : target.online <;> cases hlaunching : target.launching <;>
    rw [honline, hlaunching] at hturn <;> cases hturn
  · exact .launching (Or.inl rfl) (h.mp ⟨henabled, fun h => by rw [hlaunching] at h; cases h⟩)
  all_goals
    refine .record ?_
    rw [TargetOp.run_online, ← h, RuntimeTarget.Restartable, honline, hlaunching]
    simp [henabled]

theorem RestartPoint.step (h : RestartPoint name first target s.task.pc s.task.callers)
    (htarget : s.inner.targets.get? name = some target)
    (hstep : s.step toml host arguments external = some t) :
    Solo.RestartStep name first target (s, external) t := by
  obtain ⟨turn, hcall, hturn, hinner, hfile, htask, hspawned⟩ := Solo.step_cases hstep
  have hview : s.system.view.inner = s.inner := rfl
  have hstep' := hstep
  rcases s with ⟨inner, file, entries, ⟨origin, pc, callers⟩, spawned⟩
  rcases t with ⟨inner', file', entries', task', spawned'⟩
  dsimp only at h htarget hturn hinner htask hview
  subst htask hinner
  cases h with
  | wrote h =>
      simp only [Task.turn, Task.record, Task.read, hview, htarget] at hturn
      cases hturn
      exact .quiet rfl htarget rfl (Or.inl (.restart h))
  | restart h =>
      simp only [Task.turn, Task.read, hview, htarget] at hturn
      refine .quiet rfl htarget rfl (Or.inl ?_)
      cases hdisabled : target.config.disabled with
      | true =>
          rw [hdisabled] at hturn
          cases hturn
          refine .ensuring (by simp [Task.call, Pc.ensures]) fun hfirst => ?_
          rw [(h.mpr hfirst).1] at hdisabled
          cases hdisabled
      | false =>
          rw [hdisabled] at hturn
          cases hturn
          exact .restartStopped hdisabled h
  | restartStopped henabled h =>
      simp only [Task.turn, Task.read, hview, htarget] at hturn
      refine .quiet rfl htarget rfl (Or.inl ?_)
      cases hstopped : target.stopped with
      | true =>
          rw [hstopped] at hturn
          cases hturn
          exact .start henabled h
      | false =>
          rw [hstopped] at hturn
          cases hturn
          exact .stopping (by simp [Task.call, Pc.stops]) (fun _ => hstopped) henabled h
  | stopping hpc hrunning henabled h => exact step_stopping hpc rfl hrunning henabled h htarget hstep'
  | start henabled h => exact step_start rfl rfl henabled h htarget hstep'
  | launching hpc h => exact step_launching hpc rfl h htarget hstep'
  | ensuring hpc h => exact step_ensuring hpc rfl h htarget hstep'
  | record h =>
      simp only [Task.turn, Task.record, Task.read, hview, htarget] at hturn
      cases hturn
      exact .quiet rfl htarget rfl (Or.inr ⟨_, rfl, h⟩)

/-! ### The request -/

/-- The new channel is in the runtime target, and where it was there before nothing has changed. -/
structure Solo.ChannelSet (channel : Option String) (name : String) (first : RuntimeTarget)
    (before after : Solo) : Prop where
  runtime : after.inner.channel name = some channel
  kept : first.config.channel = channel →
    after.inner.config = before.inner.config ∧ after.file = before.file

/-- Where the request is after the steps of `history`. -/
inductive Solo.ChannelAt (toml : Toml) (name : String) (channel : Option String) (before : Solo)
    (history : List (Solo × External)) (s : Solo) : Prop where
  | writing (hinner : s.inner = before.inner) (hfile : s.file = before.file)
      (hpc : s.task.pc = .persistLock name (.setChannel channel) ∨
        s.task.pc = .persist name (.setChannel channel))
      (hcallers : s.task.callers = [.setChannel name true])
      (hwritten : ∀ entry ∈ history, ¬Solo.ChannelRefused toml name channel entry)
      (hfails : ∀ entry ∈ history, ¬Solo.RestartFails entry)
  | refused (error : SupervisorError) (hpc : s.task.pc = .done (.error error))
      (hsame : Solo.SameChannel toml name before s)
      (hwhy : before.inner.targets.get? name = none ∨
        ∃ entry ∈ history, Solo.ChannelRefused toml name channel entry)
  | restarting (first target : RuntimeTarget) (hfirst : before.inner.targets.get? name = some first)
      (htarget : s.inner.targets.get? name = some target)
      (hpoint : RestartPoint name first target s.task.pc s.task.callers ∨ s.Completed first)
      (hset : Solo.ChannelSet channel name first before s)
      (hwritten : ∀ entry ∈ history, ¬Solo.ChannelRefused toml name channel entry)
      (hfails : ∀ entry ∈ history, ¬Solo.RestartFails entry)
  | failed (first : RuntimeTarget) (hfirst : before.inner.targets.get? name = some first)
      (hfailed : s.Failed name) (hset : Solo.ChannelSet channel name first before s)
      (hwritten : ∀ entry ∈ history, ¬Solo.ChannelRefused toml name channel entry)
      (hfails : ∃ entry ∈ history, Solo.RestartFails entry)

/-- The await points after the write neither configure nor write. -/
theorem RestartPoint.plain {pc : Pc} {callers : List Caller} (h : RestartPoint name first target pc callers) :
    (pc.critical external).any CriticalSection.configures = false ∧ pc.candidate? = none ∧
      ∀ change, pc ≠ .persist name change := by
  cases h with
  | stopping hpc hrunning henabled h =>
      clear hrunning
      cases pc <;> first | exact ⟨rfl, rfl, fun _ => Pc.noConfusion⟩ | cases hpc
  | ensuring hpc h =>
      cases pc <;> first | exact ⟨rfl, rfl, fun _ => Pc.noConfusion⟩ | cases hpc
  | launching hpc h => rcases hpc with rfl | rfl | rfl | rfl <;> exact ⟨rfl, rfl, fun _ => Pc.noConfusion⟩
  | _ => exact ⟨rfl, rfl, fun _ => Pc.noConfusion⟩

theorem Pc.critical_of_restartCall {pc : Pc} (h : pc.restartCall = true) (external : External) :
    pc.critical external = none := by
  cases pc <;> first | rfl | cases h

theorem RestartPoint.not_done {pc : Pc} {callers : List Caller} (h : RestartPoint name first target pc callers)
    (result : Outcome) : pc ≠ .done result := by
  rintro rfl
  cases h with
  | stopping hpc => cases hpc
  | ensuring hpc => cases hpc
  | launching hpc => rcases hpc with hpc | hpc | hpc | hpc <;> cases hpc

/-- A step that keeps the configuration of the target, of the node and on disk keeps the channel set. -/
theorem Solo.ChannelSet.step (h : Solo.ChannelSet channel name first before s)
    (hstep : s.step toml host arguments external = some t)
    (hconfigures : (s.task.pc.critical external).any CriticalSection.configures = false)
    (hcandidate : s.task.pc.candidate? = none) {target' : RuntimeTarget}
    (htarget : s.inner.targets.get? name = some target)
    (htarget' : t.inner.targets.get? name = some target') (hconfig : target'.config = target.config) :
    Solo.ChannelSet channel name first before t := by
  obtain ⟨hnode, _, hfile⟩ := Solo.step_keeps hstep hconfigures hcandidate
  constructor
  · rw [← h.runtime, Inner.channel, Inner.channel, htarget, htarget', Option.map_some, Option.map_some, hconfig]
  · intro hchannel
    obtain ⟨hbefore, hdisk⟩ := h.kept hchannel
    exact ⟨hnode.trans hbefore, hfile.trans hdisk⟩

/-- The target is unknown, or already has the channel, or its candidate is refused or committed. -/
theorem persistChannel_cases {inner : Inner} (hagrees : inner.Agrees) (toml : Toml) (external : External)
    (name : String) (channel : Option String) :
    (inner.targets.get? name = none ∧
      persistTargetChange toml external name (.setChannel channel) inner =
        ({ inner }, .returned (.error (.unknownTarget name)))) ∨
    ∃ target, inner.targets.get? name = some target ∧
      (target.config.channel = channel ∧
        persistTargetChange toml external name (.setChannel channel) inner = ({ inner }, .returned (.ok ())) ∨
      target.config.channel ≠ channel ∧ ∃ persisted changed,
        (inner.config.target? name).bind (ConfigChange.setChannel channel).mutate =
          some (persisted, changed) ∧
        persisted = { target.config with channel := channel } ∧
        ((∃ error, validateAndPersist toml external (inner.config.setEntry name persisted) = .error error ∧
            persistTargetChange toml external name (.setChannel channel) inner =
              ({ inner }, .returned (.error error))) ∨
          ∃ source events,
            validateAndPersist toml external (inner.config.setEntry name persisted) = .ok source ∧
            persistTargetChange toml external name (.setChannel channel) inner =
              ({ inner := {
                  config := inner.config.setEntry name persisted
                  targets := inner.targets.insert name
                    { target with config := persisted, revision := target.revision + 1 } }
                 events, file := some source }, .returned (.ok ())))) := by
  have hentries := hagrees.entries name
  cases htarget : inner.targets.get? name with
  | none =>
      rw [htarget, Option.map_none] at hentries
      exact Or.inl ⟨rfl, by simp only [persistTargetChange, hentries]⟩
  | some target =>
      rw [htarget, Option.map_some] at hentries
      refine Or.inr ⟨target, rfl, ?_⟩
      by_cases hchannel : target.config.channel = channel
      · have hmutate : (ConfigChange.setChannel channel).mutate target.config = none := if_pos hchannel
        exact Or.inl ⟨hchannel, by simp only [persistTargetChange, hentries, hmutate]⟩
      · obtain ⟨persisted, hpersisted⟩ : ∃ persisted : TargetConfig,
            persisted = { target.config with channel := channel } := ⟨_, rfl⟩
        have hmutate : (ConfigChange.setChannel channel).mutate target.config =
            some (persisted, .object [("channel", .optional .string channel)]) := by
          rw [hpersisted]
          exact if_neg hchannel
        refine Or.inr ⟨hchannel, persisted, _, by rw [hentries, Option.bind_some, hmutate], hpersisted, ?_⟩
        cases hsource : validateAndPersist toml external (inner.config.setEntry name persisted) with
        | error error =>
            exact Or.inl ⟨error, rfl, by simp only [persistTargetChange, hentries, hmutate, hsource]⟩
        | ok source =>
            refine Or.inr ⟨source, [targetChanged name
              { target with config := persisted, revision := target.revision + 1 }
              (.object [("channel", .optional .string channel)])], rfl, ?_⟩
            simp only [persistTargetChange, hentries, hmutate, hsource, htarget]

/-- The write of the channel refuses the request, or the restart comes next. -/
theorem Solo.ChannelAt.step_persist (hinner : s.inner = before.inner) (hfile : s.file = before.file)
    (hpc : s.task.pc = .persist name (.setChannel channel)) (hcallers : s.task.callers = [.setChannel name true])
    (hwritten : ∀ entry ∈ history, ¬Solo.ChannelRefused toml name channel entry)
    (hfails : ∀ entry ∈ history, ¬Solo.RestartFails entry) (hagrees : before.inner.Agrees)
    (hstep : s.step toml host arguments external = some t) :
    Solo.ChannelAt toml name channel before (history ++ [(s, external)]) t := by
  obtain ⟨turn, hcall, hturn, hinner', hfile', htask, hspawned⟩ := Solo.step_cases hstep
  have hwrite := Task.turn_effect_of_candidate? hturn (by rw [hpc]; rfl)
  rw [System.apply_file hturn hwrite] at hfile'
  have hlater : ∀ entry ∈ history ++ [(s, external)], ¬Solo.RestartFails entry := by
    refine List.forall_mem_append.mpr ⟨hfails, List.forall_mem_singleton.mpr fun hfailed => ?_⟩
    cases hpc ▸ hfailed.1
  rcases before with ⟨first, disk, tree, ⟨origin₀, pc₀, callers₀⟩, spawned₀⟩
  rcases s with ⟨inner, file, entries, ⟨origin, pc, callers⟩, spawned⟩
  rcases t with ⟨inner', file', entries', task', spawned'⟩
  dsimp only at hinner hfile hpc hcallers hagrees hturn hinner' hfile' htask
  subst hinner hfile hpc hcallers htask
  simp only [Pc.critical, Inner.after, CriticalSection.fileAfter, CriticalSection.run, Solo.system]
    at hinner' hfile'
  simp only [Task.turn, Solo.system, System.view] at hturn
  rcases persistChannel_cases hagrees toml external name channel with
    ⟨hnone, he⟩ | ⟨target, htarget, ⟨hchannel, he⟩ |
      ⟨hchannel, persisted, changed, hmutate, hpersisted, ⟨error, hsource, he⟩ | ⟨source, events, hsource, he⟩⟩⟩
  · rw [he] at hturn hinner' hfile'
    cases hturn
    subst hinner' hfile'
    exact .refused _ rfl ⟨rfl, rfl, rfl⟩ (Or.inl hnone)
  · rw [he] at hturn hinner' hfile'
    cases hturn
    subst hinner' hfile'
    refine .restarting target target htarget htarget (Or.inl (.wrote Iff.rfl))
      ⟨?_, fun _ => ⟨rfl, rfl⟩⟩ (List.forall_mem_append.mpr ⟨hwritten, List.forall_mem_singleton.mpr ?_⟩)
      hlater
    · rw [Inner.channel, htarget, Option.map_some, hchannel]
    · rintro ⟨_, persisted, changed, error, hmutate, _⟩
      dsimp only at hmutate
      rw [hagrees.entries, htarget, Option.map_some, Option.bind_some, ConfigChange.mutate,
        if_pos hchannel] at hmutate
      cases hmutate
  · rw [he] at hturn hinner' hfile'
    cases hturn
    subst hinner' hfile'
    exact .refused _ rfl ⟨rfl, rfl, rfl⟩ (Or.inr ⟨_, List.mem_append_right _ List.mem_cons_self, rfl,
      persisted, changed, error, hmutate, hsource⟩)
  · rw [he] at hturn hinner' hfile'
    cases hturn
    subst hinner' hfile'
    refine .restarting target { target with config := persisted, revision := target.revision + 1 } htarget
      (OrderedMap.get?_insert_self _ _ _) (Or.inl (.wrote ?_))
      ⟨?_, fun hsame => absurd hsame hchannel⟩
      (List.forall_mem_append.mpr ⟨hwritten, List.forall_mem_singleton.mpr ?_⟩) hlater
    · rw [hpersisted]
      exact Iff.rfl
    · simp only [Inner.channel, OrderedMap.get?_insert_self, Option.map_some, hpersisted]
    · rintro ⟨_, persisted', changed', error, hmutate', hrefused⟩
      dsimp only at hmutate' hrefused
      rw [hmutate] at hmutate'
      cases hmutate'
      cases hsource.symm.trans hrefused

theorem Solo.ChannelAt.step (h : Solo.ChannelAt toml name channel before history s)
    (hagrees : before.inner.Agrees) (hstep : s.step toml host arguments external = some t) :
    Solo.ChannelAt toml name channel before (history ++ [(s, external)]) t := by
  have happend : ∀ {P : Solo × External → Prop}, (∀ entry ∈ history, P entry) → P (s, external) →
      ∀ entry ∈ history ++ [(s, external)], P entry :=
    fun hall hlast => List.forall_mem_append.mpr ⟨hall, List.forall_mem_singleton.mpr hlast⟩
  cases h with
  | writing hinner hfile hpc hcallers hwritten hfails =>
      rcases hpc with hpc | hpc
      · obtain ⟨turn, hcall, hturn, hinner', hfile', htask, hspawned⟩ := Solo.step_cases hstep
        have hkeeps := Solo.step_keeps hstep (by rw [hpc]; rfl) (by rw [hpc]; rfl)
        rw [hpc] at hinner'
        have hturn' : turn = s.task.goto .none (.persist name (.setChannel channel)) := by
          rw [Task.turn, hpc] at hturn
          exact (Task.acquire_eq_some hturn).2
        refine .writing (hinner'.trans hinner) (hkeeps.2.2.trans hfile) (Or.inr ?_) ?_
          (happend hwritten ?_) (happend hfails ?_)
        · rw [htask, hturn', Task.goto]
        · rw [htask, hturn', Task.goto, hcallers]
        · rintro ⟨hpersist, _⟩
          cases hpc.symm.trans hpersist
        · rintro ⟨hcall, _⟩
          cases hpc ▸ hcall
      · exact step_persist hinner hfile hpc hcallers hwritten hfails hagrees hstep
  | refused error hpc hsame hwhy =>
      obtain ⟨turn, _, hturn, _⟩ := Solo.step_cases hstep
      simp [Task.turn, hpc] at hturn
  | restarting first target hfirst htarget hpoint hset hwritten hfails =>
      rcases hpoint with hpoint | ⟨record, hpc, _⟩
      · obtain ⟨hconfigures, hcandidate, hpersist⟩ := hpoint.plain
        have hwritten' := happend hwritten (fun hrefused => hpersist _ hrefused.1)
        rcases hpoint.step htarget hstep with ⟨hfailed, ht⟩ | ⟨hquiet, target', htarget', hconfig, ht⟩
        · have hinner : t.inner = s.inner := by
            obtain ⟨turn, _, _, hinner, _⟩ := Solo.step_cases hstep
            rw [hinner, Pc.critical_of_restartCall hfailed.1]
            rfl
          have htarget' : t.inner.targets.get? name = some target := by rw [hinner, htarget]
          exact .failed first hfirst ht
            (hset.step hstep hconfigures hcandidate htarget htarget' rfl) hwritten'
            ⟨_, List.mem_append_right _ List.mem_cons_self, hfailed⟩
        · exact .restarting first target' hfirst htarget' ht
            (hset.step hstep hconfigures hcandidate htarget htarget' hconfig) hwritten' (happend hfails hquiet)
      · obtain ⟨turn, _, hturn, _⟩ := Solo.step_cases hstep
        simp [Task.turn, hpc] at hturn
  | failed first hfirst hfailed hset hwritten hfails =>
      obtain ⟨turn, _, hturn, hinner, _, htask, _⟩ := Solo.step_cases hstep
      rcases hfailed with ⟨error, hpc, hcallers⟩ | ⟨error, hpc⟩
      · obtain ⟨target, htarget, _⟩ := Option.map_eq_some_iff.mp hset.runtime
        rw [hpc] at hinner
        have htarget' : t.inner.targets.get? name = some (TargetOp.clearLaunching.run target).1 := by
          rw [hinner]
          exact Inner.get?_after_onTarget htarget toml .clearLaunching
        simp only [Task.turn, hpc] at hturn
        cases hturn
        obtain ⟨entry, hentry, hentryFails⟩ := hfails
        refine .failed first hfirst (Or.inr ⟨error, ?_⟩)
          (hset.step hstep (by rw [hpc]; rfl) (by rw [hpc]; rfl) htarget htarget' (TargetOp.run_config _ _))
          (happend hwritten ?_) ⟨entry, List.mem_append_left _ hentry, hentryFails⟩
        · rw [htask, Task.ret, hcallers]
          rfl
        · rintro ⟨hpersist, _⟩
          cases hpc.symm.trans hpersist
      · simp [Task.turn, hpc] at hturn

theorem Solo.ChannelAt.run (h : Solo.ChannelAt toml name channel before [] s)
    (hagrees : before.inner.Agrees) (hrun : Solo.Run toml host arguments s history t) :
    Solo.ChannelAt toml name channel before history t := by
  induction hrun with
  | refl => exact h
  | tail _ hstep ih => exact ih.step hagrees hstep

/-- The request at its end. -/
theorem Solo.ChannelAt.allOrNothing_iff (h : Solo.ChannelAt toml name channel before history t)
    {result : Outcome} (hdone : t.task.pc = .done result) :
    Solo.ChannelAllOrNothing toml name channel before t result ↔
      Solo.ChannelSettles toml name channel before history := by
  cases h with
  | writing hinner hfile hpc hcallers hwritten hfails =>
      rcases hpc with hpc | hpc <;> cases hdone.symm.trans hpc
  | refused error hpc hsame hwhy =>
      cases hdone.symm.trans hpc
      refine ⟨fun _ target htarget => Or.inl ?_, fun _ => hsame⟩
      rcases hwhy with hnone | hrefused
      · cases htarget.symm.trans hnone
      · exact hrefused
  | restarting first target hfirst htarget hpoint hset hwritten hfails =>
      rcases hpoint with hpoint | ⟨record, hpc, honline⟩
      · exact absurd hdone (hpoint.not_done result)
      · cases hdone.symm.trans hpc
        have hcompleted : Solo.ChannelAllOrNothing toml name channel before t (.ok (.record record)) ↔
            record.online = true := by
          simp [Solo.ChannelAllOrNothing, Protocol.Operation.answer, Protocol.Operation.data, Value.get,
            Value.asObject]
        rw [hcompleted, honline]
        constructor
        · intro hrestartable other hother
          cases hfirst.symm.trans hother
          exact Or.inr (Or.inr ⟨hfails, hrestartable⟩)
        · intro hsettles
          rcases hsettles first hfirst with ⟨entry, hentry, hrefused⟩ | ⟨⟨entry, hentry, hfailed⟩, _⟩ |
            ⟨_, hrestartable⟩
          · exact absurd hrefused (hwritten entry hentry)
          · exact absurd hfailed (hfails entry hentry)
          · exact hrestartable
  | failed first hfirst hfailed hset hwritten hfails =>
      rcases hfailed with ⟨error, hpc, _⟩ | ⟨error, hpc⟩
      · cases hdone.symm.trans hpc
      · cases hdone.symm.trans hpc
        have hbefore : before.inner.channel name = some first.config.channel := by
          rw [Inner.channel, hfirst, Option.map_some]
        constructor
        · intro hsame other hother
          cases hfirst.symm.trans hother
          refine Or.inr (Or.inl ⟨hfails, ?_⟩)
          have hruntime := hset.runtime.symm.trans (Solo.SameChannel.runtime hsame)
          rw [hbefore] at hruntime
          exact (Option.some.inj hruntime).symm
        · intro hsettles
          rcases hsettles first hfirst with ⟨entry, hentry, hrefused⟩ | ⟨_, hchannel⟩ | ⟨hquiet, _⟩
          · exact absurd hrefused (hwritten entry hentry)
          · obtain ⟨hnode, hdisk⟩ := hset.kept hchannel
            refine ⟨?_, ?_, ?_⟩
            · rw [hset.runtime, hbefore, hchannel]
            · rw [hnode]
            · rw [hdisk]
          · obtain ⟨entry, hentry, hfailed⟩ := hfails
            exact absurd hfailed (hquiet entry hentry)

end

section

variable {toml : Toml} {config : DaemonConfig} {file : String} {history : List (System × Label)}
  {s : System} {host : Host} {name : String} {channel : Option String} {startPaused startMuted : Bool}
  {entries : TargetEntries} {steps : List (Solo × External)} {t : Solo} {result : Outcome}

/-- From every state of every run of the daemon, and for all failures of the calls: setting a channel with
a restart is all or nothing exactly for an unknown target, a refused write, a failed restart with nothing
new to write, and a target that a restart brings online. -/
theorem set_channel_all_or_nothing_iff (hparses : toml.ParsesBack)
    (hconfig : DaemonConfig.parse toml file = .ok config) (hrun : System.Run toml config file history s)
    (hsteps : Solo.Run toml host ((Request.setChannel name channel true).arguments startPaused startMuted)
      (.begun s.inner s.file entries (Request.setChannel name channel true).task) steps t)
    (hdone : t.task.pc = .done result) :
    Solo.ChannelAllOrNothing toml name channel
        (.begun s.inner s.file entries (Request.setChannel name channel true).task) t result ↔
      Solo.ChannelSettles toml name channel
        (.begun s.inner s.file entries (Request.setChannel name channel true).task) steps := by
  have hagrees := (hrun.configured hparses (validate_of_parse hconfig) hconfig).1.agrees
  have hbegun : Solo.ChannelAt toml name channel
      (.begun s.inner s.file entries (Request.setChannel name channel true).task) []
      (.begun s.inner s.file entries (Request.setChannel name channel true).task) :=
    .writing rfl rfl (Or.inl rfl) rfl (fun entry hentry => by cases hentry) (fun entry hentry => by cases hentry)
  exact (hbegun.run hagrees hsteps).allOrNothing_iff hdone

end

/-- The disabled target with a channel. -/
def tvNewsNode : DaemonConfig := nodeWith [⟨"tv", true, some "/media/news.m3u8"⟩]

def tvNewsToml : Toml := .ofTable [tvDisabledNode, tvNewsNode]

theorem tvNewsToml_parsesBack : tvNewsToml.ParsesBack := Toml.ofTable_parsesBack (by decide +kernel)

theorem tvDisabledNode_parse : DaemonConfig.parse tvNewsToml tvDisabledNode.toText = .ok tvDisabledNode := by
  decide +kernel

/-- The daemon has started, and no mpv runs. -/
def tvDisabledStarted : List Label := List.replicate 6 (.task 0 unavailable)

def newsHost : Host := ⟨7, fun tree => tree⟩

def setNews : Request := .setChannel "tv" (some "/media/news.m3u8") true

/-- The write and every call succeed, and no mpv answers the probe. -/
def newsSet : List External := List.replicate 4 .ok ++ unavailable :: List.replicate 3 .ok

/-- The record a request has returned. -/
def Pc.returnedRecord? : Pc → Option TargetRecord
  | .done (.ok (.record record)) => some record
  | _ => none

/-- The request returns a record of the target offline. -/
theorem exists_setNews : ∃ history s steps t record,
    System.Run tvNewsToml tvDisabledNode tvDisabledNode.toText history s ∧
    Solo.Run tvNewsToml newsHost (setNews.arguments true true)
      (.begun s.inner s.file .empty setNews.task) steps t ∧
    t.task.pc = .done (.ok (.record record)) ∧ record.online = false := by
  have hrun : (runChecked (System.step tvNewsToml) (fun _ _ => true)
      (System.initial tvDisabledNode tvDisabledNode.toText) tvDisabledStarted).any (fun s =>
        (runChecked (Solo.step tvNewsToml newsHost (setNews.arguments true true)) (fun _ _ => true)
          (.begun s.inner s.file .empty setNews.task) newsSet).any
          (fun t => t.task.pc.returnedRecord?.any fun record => !record.online)) = true := by
    decide +kernel
  obtain ⟨history, s, steps, t, hrun, hsteps, _, hresult⟩ := Solo.exists_run hrun
  obtain ⟨record, hrecord, honline⟩ := (Option.any_eq_true ..).mp hresult
  refine ⟨history, s, steps, t, record, hrun, hsteps, ?_, (Bool.not_eq_true' _).mp honline⟩
  revert hrecord
  cases t.task.pc with
  | done result =>
      rcases result with error | _ | _ <;> intro hrecord <;> cases hrecord
      rfl
  | _ => exact nofun

def tvRunningToml : Toml := .ofTable [tvNode, nodeWith [⟨"tv", false, some "/media/news.m3u8"⟩]]

theorem tvRunningToml_parsesBack : tvRunningToml.ParsesBack := Toml.ofTable_parsesBack (by decide +kernel)

theorem tvRunningNode_parse : DaemonConfig.parse tvRunningToml tvNode.toText = .ok tvNode := by
  decide +kernel

/-- The write and every call succeed, and the launch finds no mpv to attach to. -/
def newsRestarted : List External := List.replicate 13 .ok ++ unavailable :: List.replicate 3 .ok

/-- The call of a restart that fails. -/
def failsRestart (s : Solo) : External → Bool
  | .failed _ => s.task.pc.restartCall
  | .ok | .line _ => false

theorem failsRestart_of_restartFails {entry : Solo × External} (h : Solo.RestartFails entry) :
    failsRestart entry.1 entry.2 = true := by
  obtain ⟨hcall, error, hfailed⟩ := h
  rw [hfailed]
  exact hcall

/-- The same request for the running `tv` returns too, and no call of its restart fails. -/
theorem exists_setNews_running : ∃ history s steps t result,
    System.Run tvRunningToml tvNode tvNode.toText history s ∧
    Solo.Run tvRunningToml newsHost (setNews.arguments true true)
      (.begun s.inner s.file .empty setNews.task) steps t ∧
    t.task.pc = .done result ∧ Solo.ChannelSettles tvRunningToml "tv" (some "/media/news.m3u8")
      (.begun s.inner s.file .empty setNews.task) steps := by
  have hlabels : (runChecked (System.step tvRunningToml) (fun _ _ => true)
      (System.initial tvNode tvNode.toText) startAttached).any (fun s =>
        ((s.inner.targets.get? "tv").all fun target => !target.config.disabled && !target.launching) &&
        (runChecked (Solo.step tvRunningToml newsHost (setNews.arguments true true))
          (fun s external => !failsRestart s external) (.begun s.inner s.file .empty setNews.task)
          newsRestarted).any fun t => t.task.pc.returned?.isSome) = true := by
    decide +kernel
  obtain ⟨history, s, hrun, _, _, hresult⟩ := System.exists_run hlabels
  obtain ⟨htarget, hresult⟩ := Bool.and_eq_true_iff.mp hresult
  obtain ⟨t, ht, hreturned⟩ := (Option.any_eq_true ..).mp hresult
  obtain ⟨steps, hsteps, _, hchecks⟩ := exists_trace_of_runChecked ht
  obtain ⟨ok, hok⟩ := Option.isSome_iff_exists.mp hreturned
  obtain ⟨result, hdone, _⟩ := Pc.done_of_returned? hok
  refine ⟨history, s, steps, t, result, hrun, hsteps, hdone, fun target hfound => Or.inr (Or.inr ⟨?_, ?_⟩)⟩
  · intro entry hentry hfails
    have hcheck := hchecks entry hentry
    rw [failsRestart_of_restartFails hfails] at hcheck
    cases hcheck
  · rw [show s.inner.targets.get? "tv" = some target from hfound] at htarget
    simp only [Option.all_some, Bool.and_eq_true, Bool.not_eq_true'] at htarget
    exact ⟨htarget.1, fun hlaunching => absurd (htarget.2.symm.trans hlaunching) Bool.false_ne_true⟩

/-- The channel is set with a restart of the disabled `tv` and of the running one. -/
theorem set_channel_all_or_nothing_iff_news :
    (∃ history s steps t result,
      System.Run tvNewsToml tvDisabledNode tvDisabledNode.toText history s ∧ t.task.pc = .done result ∧
      (Solo.ChannelAllOrNothing tvNewsToml "tv" (some "/media/news.m3u8")
          (.begun s.inner s.file .empty setNews.task) t result ↔
        Solo.ChannelSettles tvNewsToml "tv" (some "/media/news.m3u8")
          (.begun s.inner s.file .empty setNews.task) steps)) ∧
    ∃ history s t result,
      System.Run tvRunningToml tvNode tvNode.toText history s ∧ t.task.pc = .done result ∧
      Solo.ChannelAllOrNothing tvRunningToml "tv" (some "/media/news.m3u8")
        (.begun s.inner s.file .empty setNews.task) t result := by
  constructor
  · obtain ⟨history, s, steps, t, record, hrun, hsteps, hdone, _⟩ := exists_setNews
    exact ⟨history, s, steps, t, _, hrun, hdone,
      set_channel_all_or_nothing_iff tvNewsToml_parsesBack tvDisabledNode_parse hrun hsteps hdone⟩
  · obtain ⟨history, s, steps, t, result, hrun, hsteps, hdone, hsettles⟩ := exists_setNews_running
    have hiff :=
      set_channel_all_or_nothing_iff tvRunningToml_parsesBack tvRunningNode_parse hrun hsteps hdone
    exact ⟨history, s, t, result, hrun, hdone, hiff.mpr hsettles⟩

/-- It succeeds without having completed the restart. -/
theorem set_channel_not_all_or_nothing : ∃ history s steps t result,
    System.Run tvNewsToml tvDisabledNode tvDisabledNode.toText history s ∧
    Solo.Run tvNewsToml newsHost (setNews.arguments true true)
      (.begun s.inner s.file .empty setNews.task) steps t ∧
    t.task.pc = .done result ∧
    ¬Solo.ChannelAllOrNothing tvNewsToml "tv" (some "/media/news.m3u8")
      (.begun s.inner s.file .empty setNews.task) t result := by
  obtain ⟨history, s, steps, t, record, hrun, hsteps, hdone, hoffline⟩ := exists_setNews
  refine ⟨history, s, steps, t, _, hrun, hsteps, hdone, fun hcompleted => ?_⟩
  simp [Solo.ChannelAllOrNothing, Protocol.Operation.answer, Protocol.Operation.data, Value.get,
    Value.asObject, hoffline] at hcompleted

end MpvTargets

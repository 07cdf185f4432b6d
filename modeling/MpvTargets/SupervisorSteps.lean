import MpvTargets.SupervisorMoves
import MpvTargets.SupervisorSystem

/-! What one step can do. A task's step is taken apart into the critical section it runs, which depends
on its await point alone, and the await point it goes to; a step of the system is a step of one task
over the shared state, a new request or a new subscriber. -/

namespace MpvTargets

/-- The critical section a task enters at an await point, when it is one that may change the shared
state. -/
def Pc.critical (external : External) : Pc → Option CriticalSection
  | start name => some (.onTarget name .start)
  | launchOnline name => some (.onTarget name .markOnline)
  | launchFailed name _ => some (.onTarget name .clearLaunching)
  | stop name => some (.onTarget name .stop)
  | stopOffline name => some (.onTarget name .markOffline)
  | clearObserved name _ => some (.onTarget name .clearObserved)
  | ensureOff name => some (.onTarget name .ensureDisabledOff)
  | persist name change => some (.persistTargetChange name change external)
  | addCommit target candidate => some (.addCommit candidate target)
  | removeCommit name candidate => some (.removeCommit candidate name)
  | renameCommit name replacement candidate => some (.renameCommit candidate name replacement)
  | updateObserved name field value => some (.onTarget name (.updateObserved field value))
  | updateMediaEnd name reason error => some (.onTarget name (.updateMediaEnd reason error))
  | clearMediaEnd name => some (.onTarget name .clearMediaEnd)
  | targetLost name => some (.onTarget name .targetLost)
  | recoverAdmit name => some (.onTarget name .admitRecovery)
  | recoverCheck name _ => some (.onTarget name .stillExpected)
  | startupOnline name _ => some (.onTarget name .markOnline)
  | _ => none

/-- Await points whose section leaves its event to a later send. -/
def Pc.defers : Pc → Bool
  | clearObserved _ _ | updateMediaEnd _ _ _ | clearMediaEnd _ => true
  | _ => false

/-- Await points where only that send is left. -/
def Pc.sends : Pc → Bool
  | clearObservedSend _ _ | mediaEndSend _ => true
  | _ => false

/-- The candidate a task is about to persist outside the `inner` mutex. -/
def Pc.candidate? : Pc → Option DaemonConfig
  | addPersist _ candidate | removePersist _ candidate | renamePersist _ _ candidate => some candidate
  | _ => none

section

variable {toml : Toml} {view : View} {task : Task} {external : External} {turn : Turn}

/-- The effect of a step is that of the section of its await point. -/
theorem Task.turn_effect_of_critical {critical : CriticalSection}
    (h : task.turn toml view external = some turn)
    (hcritical : task.pc.critical external = some critical) :
    turn.effect = if task.pc.defers then .lockedThenSend critical else .locked critical := by
  rcases task with ⟨origin, pc, callers⟩
  cases pc
  all_goals simp only [Task.turn] at h
  all_goals grind [Pc.critical, Pc.defers]

/-- Outside the sections a step at most sends a deferred event or writes the configuration file. -/
theorem Task.turn_effect_of_none (h : task.turn toml view external = some turn)
    (hcritical : task.pc.critical external = none) :
    (task.pc.sends = true ∧ turn.effect = .send) ∨
      (task.pc.sends = false ∧ (turn.effect = .none ∨ ∃ candidate source,
        task.pc.candidate? = some candidate ∧
          validateAndPersist toml external candidate = .ok source ∧ turn.effect = .writeFile source)) := by
  rcases task with ⟨origin, pc, callers⟩
  cases pc
  all_goals simp only [Task.turn] at h
  all_goals grind [Pc.critical, Pc.sends, Pc.candidate?]

/-- A step spawns recovery loops and the observers of a target it turned online. -/
theorem Task.turn_spawned (h : task.turn toml view external = some turn) {other : Task}
    (hother : other ∈ turn.spawned) :
    (∃ name, other = recoveryTask name) ∨
      ∃ name target, task.pc.critical external = some (.onTarget name .markOnline) ∧
        view.inner.targets.get? name = some target ∧ target.online = false ∧
        other = observerTask (view.connections name + 1) name := by
  rcases task with ⟨origin, pc, callers⟩
  cases pc
  all_goals simp only [Task.turn] at h
  all_goals grind [Pc.critical, onlineObservers, markOnlineSection]

end

namespace System

variable {toml : Toml} {s s' : System} {label : Label}

theorem step_cases (h : System.step toml s label = some s') :
    (∃ index external task turn, label = .task index external ∧ s.exited = false ∧
      s.tasks[index]? = some task ∧ task.turn toml s.view external = some turn ∧
      s' = s.apply toml index task turn) ∨
    (∃ request, label = .request request ∧ s.serving = true ∧
      s' = { s with tasks := s.tasks ++ [request.task] }) ∨
    (label = .subscribe ∧ s.serving = true ∧
      s' = { s with subscribers := s.subscribers ++ [⟨snapshotFrom s.inner, []⟩] }) := by
  cases label with
  | task index external =>
      rw [System.step] at h
      split at h
      · cases h
      · rename_i hexited
        obtain ⟨task, htask, hmap⟩ := Option.bind_eq_some_iff.mp h
        obtain ⟨turn, hturn, rfl⟩ := Option.map_eq_some_iff.mp hmap
        exact Or.inl ⟨index, external, task, turn, rfl, by simpa using hexited, htask, hturn, rfl⟩
  | request request =>
      rw [System.step] at h
      split at h
      · rename_i hserving
        exact Or.inr (Or.inl ⟨request, rfl, hserving, (Option.some.inj h).symm⟩)
      · cases h
  | subscribe =>
      rw [System.step] at h
      split at h
      · rename_i hserving
        exact Or.inr (Or.inr ⟨rfl, hserving, (Option.some.inj h).symm⟩)
      · cases h

end System

/-- The shared state after the section, if there is one. -/
def Inner.after (toml : Toml) (inner : Inner) : Option CriticalSection → Inner
  | none => inner
  | some critical => (critical.run toml inner).inner

namespace System

variable {toml : Toml} {s : System} {index : Nat} {task : Task} {external : External} {turn : Turn}

@[simp] theorem apply_tasks :
    (s.apply toml index task turn).tasks =
      TaskPool.advance s.tasks index ⟨task.origin, turn.pc, turn.callers⟩ turn.spawned := rfl

theorem apply_inner (h : task.turn toml s.view external = some turn) :
    (s.apply toml index task turn).inner = s.inner.after toml (task.pc.critical external) := by
  cases hcritical : task.pc.critical external with
  | some critical =>
      rw [System.apply, Task.turn_effect_of_critical h hcritical]
      split_ifs <;> rfl
  | none =>
      rw [System.apply]
      rcases Task.turn_effect_of_none h hcritical with ⟨_, he⟩ | ⟨_, he | ⟨_, _, _, _, he⟩⟩
      all_goals
        rw [he]
        rfl

theorem countConnections_self (inner : Inner) (connections : String → Nat) :
    countConnections inner inner connections = connections := by
  funext name
  simp [countConnections]

theorem apply_connections (h : task.turn toml s.view external = some turn) :
    (s.apply toml index task turn).connections =
      countConnections s.inner (s.inner.after toml (task.pc.critical external)) s.connections := by
  cases hcritical : task.pc.critical external with
  | some critical =>
      rw [System.apply, Task.turn_effect_of_critical h hcritical]
      split_ifs <;> rfl
  | none =>
      rw [Inner.after, countConnections_self, System.apply]
      rcases Task.turn_effect_of_none h hcritical with ⟨_, he⟩ | ⟨_, he | ⟨_, _, _, _, he⟩⟩
      all_goals
        rw [he]
        rfl

end System

/-- The sections that bring a name in or take it away. -/
def CriticalSection.restructures (name : String) : CriticalSection → Bool
  | addCommit _ target => target.name = name
  | removeCommit _ removed => removed = name
  | renameCommit _ old replacement => old = name || replacement = name
  | _ => false

theorem Inner.get?_onTarget (inner : Inner) (name other : String) (op : TargetOp) :
    (inner.onTarget name op).inner.targets.get? other =
      if other = name then (inner.targets.get? name).map fun target => (op.run target).1
      else inner.targets.get? other := by
  rw [Inner.onTarget]
  split
  · rename_i hnone
    split_ifs with h
    · rw [h, hnone, Option.map_none]
    · rfl
  · rename_i target hsome
    rw [OrderedMap.get?_insert, hsome]
    rfl

/-- `persist_target_change` either leaves everything as it is or commits the changed entry. -/
theorem persistTargetChange_cases (toml : Toml) (external : External) (name : String)
    (change : ConfigChange) (inner : Inner) :
    (∃ result, persistTargetChange toml external name change inner = ({ inner }, .returned result)) ∨
    ∃ entry persisted changed source, inner.config.target? name = some entry ∧
      change.mutate entry = some (persisted, changed) ∧
      validateAndPersist toml external (inner.config.setEntry name persisted) = .ok source ∧
      ((inner.targets.get? name = none ∧ persistTargetChange toml external name change inner =
          ({ inner := { inner with config := inner.config.setEntry name persisted }
             file := some source }, .panicked)) ∨
        ∃ target, inner.targets.get? name = some target ∧
          persistTargetChange toml external name change inner =
            ({ inner := {
                config := inner.config.setEntry name persisted
                targets := inner.targets.insert name
                  { target with config := persisted, revision := target.revision + 1 } }
               events := [targetChanged name
                { target with config := persisted, revision := target.revision + 1 } changed]
               file := some source }, .returned (.ok ()))) := by
  rw [persistTargetChange]
  cases hentry : inner.config.target? name with
  | none => exact Or.inl ⟨_, rfl⟩
  | some entry =>
      cases hmutate : change.mutate entry with
      | none => exact Or.inl ⟨.ok (), by simp only [hmutate]⟩
      | some result =>
          obtain ⟨persisted, changed⟩ := result
          cases hsource : validateAndPersist toml external (inner.config.setEntry name persisted) with
          | error error => exact Or.inl ⟨.error error, by simp only [hmutate, hsource]⟩
          | ok source =>
              refine Or.inr ⟨entry, persisted, changed, source, rfl, hmutate, hsource, ?_⟩
              cases htarget : inner.targets.get? name with
              | none => exact Or.inl ⟨rfl, by simp only [hmutate, hsource]⟩
              | some target => exact Or.inr ⟨target, rfl, by simp only [hmutate, hsource]⟩

/-- What a section that does not restructure `name` does to the target of that name: nothing, one
section on this target, or a change of its configuration. -/
theorem Inner.get?_after (toml : Toml) (inner : Inner) (critical : Option CriticalSection)
    {name : String} (h : critical.any (CriticalSection.restructures name) = false) :
    (inner.after toml critical).targets.get? name = inner.targets.get? name ∨
    (∃ op target, critical = some (.onTarget name op) ∧ inner.targets.get? name = some target ∧
      (inner.after toml critical).targets.get? name = some (op.run target).1) ∨
    ∃ change external target config revision,
      critical = some (.persistTargetChange name change external) ∧
      inner.targets.get? name = some target ∧
      (inner.after toml critical).targets.get? name = some { target with config, revision } := by
  rcases critical with _ | critical
  · exact Or.inl rfl
  cases critical with
  | onTarget other op =>
      rw [Inner.after, CriticalSection.run, Inner.get?_onTarget]
      by_cases hname : name = other
      · subst hname
        cases htarget : inner.targets.get? name with
        | none => exact Or.inl (by simp)
        | some target => exact Or.inr (Or.inl ⟨op, target, rfl, rfl, by simp⟩)
      · exact Or.inl (if_neg hname)
  | persistTargetChange other change external =>
      rw [Inner.after, CriticalSection.run]
      rcases persistTargetChange_cases toml external other change inner with
        ⟨_, he⟩ | ⟨_, persisted, _, _, _, _, _, ⟨_, he⟩ | ⟨target, htarget, he⟩⟩
      · exact Or.inl (by rw [he])
      · exact Or.inl (by rw [he])
      · rw [he]
        by_cases hname : name = other
        · subst hname
          exact Or.inr (Or.inr ⟨change, external, target, _, _, rfl, htarget,
            OrderedMap.get?_insert_self ..⟩)
        · exact Or.inl (OrderedMap.get?_insert_of_ne _ _ hname)
  | addCommit candidate target =>
      have hname : target.name ≠ name := by simpa [CriticalSection.restructures] using h
      exact Or.inl (OrderedMap.get?_insert_of_ne _ _ hname.symm)
  | removeCommit candidate removed =>
      have hname : removed ≠ name := by simpa [CriticalSection.restructures] using h
      exact Or.inl (OrderedMap.get?_erase_of_ne _ hname.symm)
  | renameCommit candidate old replacement =>
      have hname : old ≠ name ∧ replacement ≠ name := by
        simpa [CriticalSection.restructures] using h
      refine Or.inl ?_
      rw [Inner.after, CriticalSection.run, renameCommit]
      split
      · rfl
      · rw [OrderedMap.get?_insert_of_ne _ _ hname.2.symm, OrderedMap.get?_erase_of_ne _ hname.1.symm]

end MpvTargets

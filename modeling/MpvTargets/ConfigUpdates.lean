import MpvTargets.Admissibility
import MpvTargets.Library.Linearization
import MpvTargets.TaskShapes

/-! The configuration as one atomic object. However the operations of clients interleave with each other
and with the daemon's own tasks, the configuration changes as if each operation that succeeded had been
carried out alone, at one moment between its request and its return. -/

namespace MpvTargets

/-- The entry `add` asks for. -/
def DaemonConfig.entryOf (config : DaemonConfig) (name : String) (source : Option String) (enable : Bool) :
    Option TargetConfig :=
  match source with
  | none => some { name, disabled := !enable, channel := none }
  | some source =>
      (config.target? source).map fun entry => { name, disabled := !enable, channel := entry.channel }

/-- The entry as the change wants it. -/
def ConfigChange.wanted (entry : TargetConfig) : ConfigChange → TargetConfig
  | enable => { entry with disabled := false }
  | disable => { entry with disabled := true }
  | setChannel channel => { entry with channel }

def DaemonConfig.changed (config : DaemonConfig) (name : String) (change : ConfigChange) :
    Option DaemonConfig :=
  (config.target? name).map fun entry => config.setEntry name (change.wanted entry)

/-- The configuration an operation leaves when it is carried out alone; nothing where it must fail, and
for the operations that have no part in it. -/
def Request.updated (config : DaemonConfig) : Request → Option DaemonConfig
  | add name source enabled =>
      if (config.target? name).isSome then none else (config.entryOf name source enabled).map config.push
  | remove name => if (config.target? name).isSome then some (config.without name) else none
  | rename name replacement =>
      if (config.target? replacement).isSome then none else config.renamed name replacement
  | enable name => config.changed name .enable
  | disable name => config.changed name .disable
  | setChannel name channel _ => config.changed name (.setChannel channel)
  | _ => none

def Request.configures : Request → Bool
  | add _ _ _ | remove _ | rename _ _ | enable _ | disable _ | setChannel _ _ _ => true
  | _ => false

/-- Whether the next step of a task is the one that commits its change. A change that finds its entry as
wanted is committed by finding it so. -/
def Task.takesEffect (toml : Toml) (inner : Inner) (external : External) (task : Task) : Bool :=
  match task.pc with
  | .persist name change =>
      match (persistTargetChange toml external name change inner).2 with
      | .returned (.ok ()) => true
      | _ => false
  | .addCommit _ _ | .removeCommit _ _ | .renameCommit _ _ _ => true
  | _ => false

/-- The await points of an operation before it takes effect. -/
def Pc.pending : Pc → Bool
  | disable _ | persistLock _ _ | persist _ _ => true
  | addLock _ _ _ | addCheck _ _ _ | addPrepare _ | addCandidate _ | addPersist _ _ | addCommit _ _ => true
  | removeLock _ | removeCheck _ | removeStage _ | removeCandidate _ => true
  | removePersist _ _ | removeCommit _ _ => true
  | renameLock _ _ | renameCheck _ _ | renameMove _ _ | renameCandidate _ _ => true
  | renamePersist _ _ _ | renameCommit _ _ _ => true
  | _ => false

def Caller.pending : Caller → Bool
  | disableStop _ | removeStop _ => true
  | _ => false

def Task.pending (task : Task) : Bool := task.pc.pending || task.callers.any Caller.pending

/-- The await points of `persist_target_change`. -/
def Pc.persists (name : String) (change : ConfigChange) : Pc → Bool
  | persistLock other wanted | persist other wanted => other = name && wanted = change
  | _ => false

/-- The operation is on its way: its task stands before the step that takes effect. -/
def Request.Ahead (config : DaemonConfig) (pc : Pc) (callers : List Caller) : Request → Prop
  | add name source enabled => callers = [] ∧
      match pc with
      | .addLock other copied on | .addCheck other copied on =>
          other = name ∧ copied = source ∧ on = enabled
      | .addPrepare target | .addCandidate target | .addPersist target _ | .addCommit target _ =>
          config.entryOf name source enabled = some target
      | _ => False
  | remove name =>
      match pc with
      | .removeLock other | .removeCheck other | .removeStage other | .removeCandidate other
      | .removePersist other _ | .removeCommit other _ => other = name ∧ callers = []
      | pc => pc.stops name = true ∧ callers = [.removeStop name]
  | rename name replacement => callers = [] ∧
      match pc with
      | .renameLock other new | .renameCheck other new | .renameMove other new | .renameCandidate other new
      | .renamePersist other new _ | .renameCommit other new _ => other = name ∧ new = replacement
      | _ => False
  | enable name => callers = [] ∧ pc.persists name .enable = true
  | disable name =>
      (callers = [] ∧ (pc = .disable name ∨ pc.persists name .disable = true)) ∨
        (callers = [.disableStop name] ∧ pc.stops name = true)
  | setChannel name channel thenRestart =>
      callers = [.setChannel name thenRestart] ∧ pc.persists name (.setChannel channel) = true
  | _ => False

section

variable {toml : Toml} {view : View} {task : Task} {external : External} {turn : Turn}

theorem Request.ahead_task {request : Request} (hconfigures : request.configures = true)
    (config : DaemonConfig) : request.Ahead config request.task.pc request.task.callers := by
  cases request <;> simp_all [Request.configures, Request.task, Request.Ahead, Pc.persists]

theorem Request.pending_task {request : Request} (hconfigures : request.configures = false) :
    request.task.pending = false := by
  cases request <;> simp_all [Request.configures, Request.task, Task.pending, Pc.pending]

/-- Where nothing has been read under the mutex yet, any configuration will do. -/
theorem Request.Ahead.of_free {request : Request} {config : DaemonConfig}
    (h : request.Ahead config task.pc task.callers) (hfree : task.holdsMutations = false)
    (config' : DaemonConfig) : request.Ahead config' task.pc task.callers := by
  rcases task with ⟨origin, pc, callers⟩
  cases request
  case add name source enabled =>
      cases pc
      case addPrepare | addCandidate | addPersist | addCommit => cases hfree
      all_goals exact h
  all_goals exact h

/-- A task that has nothing pending does not take effect, and comes to nothing pending. -/
theorem Task.turn_pending (h : task.turn toml view external = some turn) (hpending : task.pending = false) :
    Task.pending ⟨task.origin, turn.pc, turn.callers⟩ = false := by
  rw [Bool.eq_false_iff]
  intro hafter
  simp only [Task.pending, Bool.or_eq_true, List.any_eq_true] at hafter
  have hbefore := (Task.turn_leads h).before (fun pc => pc.pending = true)
    (fun caller => caller.pending = true) False ?_ ?_ ?_ ?_ hafter
  · rw [or_false] at hbefore
    have htrue : task.pending = true := by
      simpa only [Task.pending, Bool.or_eq_true, List.any_eq_true] using hbefore
    rw [htrue] at hpending
    cases hpending
  · intro pc' hnext hpc
    generalize task.pc = pc at hnext ⊢
    cases hnext <;> first | exact Or.inl rfl | cases hpc
  · intro pc pc' caller hcalls hafter
    cases hcalls <;> simp_all [Pc.pending, Caller.pending]
  · intro result
    generalize task.callers = callers
    fun_induction resume result callers <;> simp_all [Pc.pending, Caller.pending]
  · rintro _ (rfl | rfl) hpc <;> cases hpc

theorem Task.not_takesEffect {inner : Inner} (hpending : task.pending = false) :
    task.takesEffect toml inner external = false := by
  rcases task with ⟨origin, pc, callers⟩
  cases pc <;> first | rfl | cases hpending

/-- The configuration changes only where an operation takes effect. -/
theorem Task.config_of_not_takesEffect {inner : Inner} (hagrees : inner.Agrees)
    (hprepared : task.pc.Prepared inner) (h : task.takesEffect toml inner external = false) :
    (inner.after toml (task.pc.critical external)).config = inner.config := by
  cases hconfigures : (task.pc.critical external).any CriticalSection.configures with
  | false => exact (inner.after_of_not_configures toml hconfigures).1
  | true =>
      rcases task with ⟨origin, pc, callers⟩
      cases pc
      case persist name change =>
          simp only [Task.takesEffect] at h
          simp only [Pc.critical, Inner.after, CriticalSection.run]
          rcases persistTargetChange_cases toml external name change inner with
            ⟨_, he⟩ | ⟨entry, _, _, _, hentry, _, _, ⟨hnone, he⟩ | ⟨_, _, he⟩⟩
          · rw [he]
          · rw [hagrees.entries, hnone] at hentry
            cases hentry
          · rw [he] at h
            cases h
      case addCommit | removeCommit | renameCommit => cases h
      all_goals cases hconfigures

/-- A change that finds its entry as wanted would leave the configuration as it is. -/
theorem DaemonConfig.setEntry_self {config : DaemonConfig} {name : String} {entry : TargetConfig}
    (h : config.target? name = some entry) : config.setEntry name entry = config := by
  have hlist : ∀ targets : List TargetConfig, targets.find? (fun target => target.name = name) = some entry →
      MpvTargets.setEntry name entry targets = targets := by
    intro targets
    induction targets with
    | nil => exact fun _ => rfl
    | cons target rest ih =>
        intro hfound
        rw [MpvTargets.setEntry]
        split_ifs with hname
        · rw [List.find?_cons_of_pos (by simpa using hname)] at hfound
          rw [Option.some.inj hfound]
        · rw [List.find?_cons_of_neg (by simpa using hname)] at hfound
          rw [ih hfound]
  rw [setEntry, hlist config.targets h]

theorem ConfigChange.mutate_wanted (change : ConfigChange) (entry : TargetConfig) :
    (change.mutate entry).elim entry Prod.fst = change.wanted entry := by
  rcases entry with ⟨name, disabled, channel⟩
  cases change <;> simp only [ConfigChange.mutate, ConfigChange.wanted] <;> grind

/-- `persist_target_change` that returns without an error has made the change. -/
theorem persistTargetChange_changed {inner : Inner} {name : String} {change : ConfigChange}
    (h : (persistTargetChange toml external name change inner).2 = .returned (.ok ())) :
    inner.config.changed name change =
      some (persistTargetChange toml external name change inner).1.inner.config := by
  unfold persistTargetChange at h ⊢
  cases hentry : inner.config.target? name with
  | none =>
      rw [hentry] at h
      cases h
  | some entry =>
      have hwanted := change.mutate_wanted entry
      rw [DaemonConfig.changed, hentry, Option.map_some, ← hwanted]
      simp only [hentry] at h ⊢
      cases hmutate : change.mutate entry with
      | none =>
          simp only [Option.elim_none]
          rw [DaemonConfig.setEntry_self hentry]
      | some result =>
          obtain ⟨persisted, changed⟩ := result
          simp only [hmutate] at h ⊢
          split at h
          · cases h
          · split at h
            · cases h
            · simp only [Option.elim_some, *]

theorem addChecked_entryOf {inner : Inner} (hagrees : inner.Agrees) {name : String} {source : Option String}
    {enabled : Bool} {target : TargetConfig} (h : addChecked inner name source enabled = .ok target) :
    inner.config.entryOf name source enabled = some target := by
  unfold addChecked at h
  split at h
  · cases h
  · cases source with
    | none =>
        cases h
        rfl
    | some source =>
        dsimp only at h
        split at h
        · cases h
        · rename_i found hfound
          cases h
          rw [DaemonConfig.entryOf, hagrees.target?_of_get? hfound, Option.map_some]

/-- `stop` goes on or returns to what awaits it. -/
theorem Task.turn_stops_returns {name : String} (h : task.turn toml view external = some turn)
    (hpc : task.pc.stops name = true) :
    (turn.pc.stops name = true ∧ turn.callers = task.callers) ∨
      ∃ result, turn.pc = (resume result task.callers).pc ∧
        turn.callers = (resume result task.callers).callers := by
  rcases task with ⟨origin, pc, callers⟩
  cases pc
  all_goals simp only [Pc.stops, decide_eq_true_eq, Bool.false_eq_true] at hpc
  all_goals simp only [Task.turn] at h
  all_goals grind [Pc.stops]

theorem Pc.stops_not_takesEffect {name : String} {inner : Inner} (hpc : task.pc.stops name = true) :
    task.takesEffect toml inner external = false := by
  rcases task with ⟨origin, pc, callers⟩
  cases pc <;> first | rfl | cases hpc

/-- `persist_target_change` makes its change, goes on or returns an error. -/
theorem Task.turn_persists {name : String} {change : ConfigChange}
    (h : task.turn toml view external = some turn) (hpc : task.pc.persists name change = true)
    (hagrees : view.inner.Agrees)
    (hcallers : ∀ error, resume (.error error) task.callers = ⟨.done (.error error), [], []⟩) :
    (task.takesEffect toml view.inner external = true ∧
      view.inner.config.changed name change =
        some (view.inner.after toml (task.pc.critical external)).config ∧
      turn.pc = .targetRecord name ∧ turn.callers = task.callers) ∨
    (task.takesEffect toml view.inner external = false ∧
      ((turn.pc.persists name change = true ∧ turn.callers = task.callers) ∨
        ∃ error, turn.pc = .done (.error error) ∧ turn.callers = [])) := by
  rcases task with ⟨origin, pc, callers⟩
  cases pc
  case persistLock other wanted =>
      simp only [Task.turn, Task.acquire, Option.ite_none_right_eq_some] at h
      obtain ⟨_, h⟩ := h
      cases h
      exact Or.inr ⟨rfl, Or.inl ⟨hpc, rfl⟩⟩
  case persist other wanted =>
      obtain ⟨rfl, rfl⟩ : other = name ∧ wanted = change := by
        simpa only [Pc.persists, Bool.and_eq_true, decide_eq_true_eq] using hpc
      obtain ⟨result, hresult⟩ : ∃ result,
          (persistTargetChange toml external other wanted view.inner).2 = .returned result :=
        (hagrees.persistTargetChange external wanted).2
      simp only [Task.turn, hresult] at h
      simp only [Task.takesEffect, hresult]
      cases result with
      | error error =>
          cases h
          refine Or.inr ⟨rfl, Or.inr ⟨error, ?_, ?_⟩⟩
          · show (resume (.error error) callers).pc = _
            rw [hcallers]
          · show (resume (.error error) callers).callers = _
            rw [hcallers]
      | ok =>
          cases h
          exact Or.inl ⟨rfl, persistTargetChange_changed hresult, rfl, rfl⟩
  all_goals cases hpc

/-- How a step leaves an operation that was on its way. -/
inductive Request.Moves (toml : Toml) (view : View) (external : External) (task : Task) (turn : Turn)
    (request : Request) : Prop where
  | effect (heffect : task.takesEffect toml view.inner external = true)
      (hupdated : request.updated view.inner.config =
        some (view.inner.after toml (task.pc.critical external)).config)
      (hpending : Task.pending ⟨task.origin, turn.pc, turn.callers⟩ = false)
  | ahead (hnot : task.takesEffect toml view.inner external = false)
      (hahead : request.Ahead view.inner.config turn.pc turn.callers)
  | failed (hnot : task.takesEffect toml view.inner external = false) (error : SupervisorError)
      (hpc : turn.pc = .done (.error error)) (hcallers : turn.callers = [])

theorem Request.Ahead.turn_add {name : String} {source : Option String} {enabled : Bool}
    (h : task.turn toml view external = some turn)
    (hahead : Request.Ahead view.inner.config task.pc task.callers (.add name source enabled))
    (hagrees : view.inner.Agrees) (hprepared : task.pc.Prepared view.inner) :
    Request.Moves toml view external task turn (.add name source enabled) := by
  rcases task with ⟨origin, pc, callers⟩
  obtain ⟨hcallers, hpc⟩ := hahead
  obtain rfl : callers = [] := hcallers
  cases pc
  case addLock other copied on =>
      simp only [Task.turn, Task.acquire, Option.ite_none_right_eq_some] at h
      obtain ⟨_, h⟩ := h
      cases h
      exact .ahead rfl ⟨rfl, hpc⟩
  case addCheck other copied on =>
      obtain ⟨rfl, rfl, rfl⟩ := hpc
      simp only [Task.turn] at h
      split at h
      · rename_i error _
        cases h
        exact .failed rfl error rfl rfl
      · rename_i target hchecked
        cases h
        exact .ahead rfl ⟨rfl, addChecked_entryOf hagrees hchecked⟩
  case addPrepare target =>
      rcases Task.await_eq_some h with ⟨_, rfl⟩ | ⟨error, _, rfl⟩
      · exact .ahead rfl ⟨rfl, hpc⟩
      · exact .failed rfl error rfl rfl
  case addCandidate target =>
      cases h
      exact .ahead rfl ⟨rfl, hpc⟩
  case addPersist target candidate =>
      simp only [Task.turn] at h
      split at h <;> cases h
      · rename_i error _
        exact .failed rfl error rfl rfl
      · exact .ahead rfl ⟨rfl, hpc⟩
  case addCommit target candidate =>
      obtain ⟨hfresh, rfl, _⟩ := hprepared
      cases h
      have hname : target.name = name := by
        cases source with
        | none => cases hpc; rfl
        | some source =>
            obtain ⟨entry, _, rfl⟩ := Option.map_eq_some_iff.mp hpc
            rfl
      refine .effect rfl ?_ rfl
      rw [hname, ← OrderedMap.get?_eq_none_iff] at hfresh
      have hentry : view.inner.config.entryOf name source enabled = some target := hpc
      rw [Request.updated, hagrees.entries, hfresh, hentry]
      rfl
  all_goals exact hpc.elim

theorem Request.Ahead.turn_remove {name : String} (h : task.turn toml view external = some turn)
    (hahead : Request.Ahead view.inner.config task.pc task.callers (.remove name))
    (hagrees : view.inner.Agrees) (hprepared : task.pc.Prepared view.inner)
    (hremoval : task.Removal view.inner) :
    Request.Moves toml view external task turn (.remove name) := by
  by_cases hstops : task.pc.stops name = true ∧ task.callers = [.removeStop name]
  · have hnot : task.takesEffect toml view.inner external = false := Pc.stops_not_takesEffect hstops.1
    rcases Task.turn_stops_returns h hstops.1 with ⟨hpc, hcallers⟩ | ⟨result, hpc, hcallers⟩
    · refine .ahead hnot ?_
      rw [hcallers, hstops.2]
      generalize turn.pc = pc at hpc ⊢
      cases pc <;> first | exact ⟨hpc, rfl⟩ | cases hpc
    · rw [hstops.2] at hpc hcallers
      cases result with
      | ok reply =>
          refine .ahead hnot ?_
          rw [hpc, hcallers]
          exact ⟨rfl, rfl⟩
      | error error => exact .failed hnot error hpc hcallers
  · have hadmitted := hremoval.checked
    rcases task with ⟨origin, pc, callers⟩
    cases pc
    case removeLock other =>
        obtain ⟨rfl, hcallers⟩ := hahead
        obtain rfl : callers = [] := hcallers
        simp only [Task.turn, Task.acquire, Option.ite_none_right_eq_some] at h
        obtain ⟨_, h⟩ := h
        cases h
        exact .ahead rfl ⟨rfl, rfl⟩
    case removeCheck other =>
        obtain ⟨rfl, hcallers⟩ := hahead
        obtain rfl : callers = [] := hcallers
        simp only [Task.turn, Task.read] at h
        split at h
        · cases h
          exact .failed rfl (.unknownTarget other) rfl rfl
        · split_ifs at h <;> cases h
          · exact .ahead rfl ⟨rfl, rfl⟩
          · exact .ahead rfl ⟨decide_eq_true rfl, rfl⟩
    case removeStage other =>
        obtain ⟨rfl, hcallers⟩ := hahead
        obtain rfl : callers = [] := hcallers
        rcases Task.await_eq_some h with ⟨_, rfl⟩ | ⟨error, _, rfl⟩
        · exact .ahead rfl ⟨rfl, rfl⟩
        · exact .failed rfl error rfl rfl
    case removeCandidate other =>
        obtain ⟨rfl, hcallers⟩ := hahead
        obtain rfl : callers = [] := hcallers
        cases h
        exact .ahead rfl ⟨rfl, rfl⟩
    case removePersist other candidate =>
        obtain ⟨rfl, hcallers⟩ := hahead
        obtain rfl : callers = [] := hcallers
        simp only [Task.turn] at h
        split at h <;> cases h
        · rename_i error _
          exact .failed rfl error rfl rfl
        · exact .ahead rfl ⟨rfl, rfl⟩
    case removeCommit other candidate =>
        obtain ⟨rfl, hcallers⟩ := hahead
        obtain rfl : callers = [] := hcallers
        cases h
        obtain ⟨rfl, _⟩ := hprepared
        obtain ⟨target, htarget⟩ := (OrderedMap.mem_keys_iff _).mp (hadmitted other rfl)
        refine .effect rfl ?_ rfl
        rw [Request.updated, hagrees.target?_of_get? htarget]
        rfl
    all_goals exact absurd hahead hstops

theorem Request.Ahead.turn_rename {name replacement : String} (h : task.turn toml view external = some turn)
    (hahead : Request.Ahead view.inner.config task.pc task.callers (.rename name replacement))
    (hagrees : view.inner.Agrees) (hprepared : task.pc.Prepared view.inner) :
    Request.Moves toml view external task turn (.rename name replacement) := by
  rcases task with ⟨origin, pc, callers⟩
  obtain ⟨hcallers, hpc⟩ := hahead
  obtain rfl : callers = [] := hcallers
  cases pc
  case renameLock other new =>
      simp only [Task.turn, Task.acquire, Option.ite_none_right_eq_some] at h
      obtain ⟨_, h⟩ := h
      cases h
      exact .ahead rfl ⟨rfl, hpc⟩
  case renameCheck other new =>
      simp only [Task.turn] at h
      split at h <;> cases h
      · rename_i error _
        exact .failed rfl error rfl rfl
      · exact .ahead rfl ⟨rfl, hpc⟩
  case renameMove other new =>
      rcases Task.await_eq_some h with ⟨_, rfl⟩ | ⟨error, _, rfl⟩
      · exact .ahead rfl ⟨rfl, hpc⟩
      · exact .failed rfl error rfl rfl
  case renameCandidate other new =>
      simp only [Task.turn] at h
      split at h <;> cases h
      · exact .failed rfl (.unknownTarget other) rfl rfl
      · exact .ahead rfl ⟨rfl, hpc⟩
  case renamePersist other new candidate =>
      simp only [Task.turn] at h
      split at h <;> cases h
      · rename_i error _
        exact .failed rfl error rfl rfl
      · exact .ahead rfl ⟨rfl, hpc⟩
  case renameCommit other new candidate =>
      obtain ⟨rfl, rfl⟩ := hpc
      obtain ⟨hname, hfresh, hcandidate, _⟩ := hprepared
      obtain ⟨target, htarget⟩ := (OrderedMap.mem_keys_iff _).mp hname
      simp only [Task.turn, htarget] at h
      cases h
      refine .effect rfl ?_ rfl
      rw [← OrderedMap.get?_eq_none_iff] at hfresh
      rw [Request.updated, hagrees.entries new, hfresh, hcandidate]
      simp [Pc.critical, Inner.after, CriticalSection.run, renameCommit, htarget]
  all_goals exact hpc.elim

/-- The operations that only call `persist_target_change`. -/
theorem Request.Ahead.turn_persist {request : Request} {name : String} {change : ConfigChange}
    (h : task.turn toml view external = some turn) (hpc : task.pc.persists name change = true)
    (hagrees : view.inner.Agrees) (hpending : task.callers.any Caller.pending = false)
    (hcallers : ∀ error, resume (.error error) task.callers = ⟨.done (.error error), [], []⟩)
    (hupdated : ∀ config, request.updated config = config.changed name change)
    (hahead : ∀ pc, pc.persists name change = true → request.Ahead view.inner.config pc task.callers) :
    Request.Moves toml view external task turn request := by
  rcases Task.turn_persists h hpc hagrees hcallers with
    ⟨heffect, hchanged, hrecord, hsame⟩ | ⟨hnot, ⟨hnext, hsame⟩ | ⟨error, hdone, hnone⟩⟩
  · refine .effect heffect ((hupdated _).trans hchanged) ?_
    rw [Task.pending, hrecord, hsame, hpending]
    rfl
  · refine .ahead hnot ?_
    rw [hsame]
    exact hahead turn.pc hnext
  · exact .failed hnot error hdone hnone

theorem Request.Ahead.turn_disable {name : String} (h : task.turn toml view external = some turn)
    (hahead : Request.Ahead view.inner.config task.pc task.callers (.disable name))
    (hagrees : view.inner.Agrees) : Request.Moves toml view external task turn (.disable name) := by
  rcases hahead with ⟨hcallers, hpc | hpc⟩ | ⟨hcallers, hstops⟩
  · rcases task with ⟨origin, pc, callers⟩
    obtain rfl : pc = .disable name := hpc
    obtain rfl : callers = [] := hcallers
    simp only [Task.turn, Task.read] at h
    split at h
    · cases h
      exact .failed rfl (.unknownTarget name) rfl rfl
    · split_ifs at h <;> cases h
      · exact .ahead rfl (Or.inl ⟨rfl, Or.inr (by simp [Task.goto, Pc.persists])⟩)
      · exact .ahead rfl (Or.inr ⟨rfl, by simp [Task.call, Pc.stops]⟩)
  · refine Request.Ahead.turn_persist h hpc hagrees ?_ ?_ (fun _ => rfl) ?_
    · rw [hcallers]
      rfl
    · rw [hcallers]
      exact fun _ => rfl
    · exact fun _ hpersists => Or.inl ⟨hcallers, Or.inr hpersists⟩
  · have hnot : task.takesEffect toml view.inner external = false := Pc.stops_not_takesEffect hstops
    rcases Task.turn_stops_returns h hstops with ⟨hpc, hsame⟩ | ⟨result, hpc, hsame⟩
    · exact .ahead hnot (Or.inr ⟨hsame.trans hcallers, hpc⟩)
    · rw [hcallers] at hpc hsame
      cases result with
      | ok reply =>
          refine .ahead hnot (Or.inl ⟨hsame, Or.inr ?_⟩)
          rw [hpc]
          simp [resume, Pc.persists]
      | error error => exact .failed hnot error hpc hsame

/-- A step of an operation on its way makes its change, leaves it on its way or ends it with an error. -/
theorem Request.Ahead.moves {request : Request} (h : task.turn toml view external = some turn)
    (hahead : request.Ahead view.inner.config task.pc task.callers) (hagrees : view.inner.Agrees)
    (hprepared : task.pc.Prepared view.inner) (hremoval : task.Removal view.inner) :
    Request.Moves toml view external task turn request := by
  cases request with
  | add => exact turn_add h hahead hagrees hprepared
  | remove => exact turn_remove h hahead hagrees hprepared hremoval
  | rename => exact turn_rename h hahead hagrees hprepared
  | disable => exact turn_disable h hahead hagrees
  | enable name =>
      obtain ⟨hcallers, hpc⟩ := hahead
      refine turn_persist h hpc hagrees ?_ ?_ (fun _ => rfl) fun _ hpersists => ⟨hcallers, hpersists⟩
      · rw [hcallers]
        rfl
      · rw [hcallers]
        exact fun _ => rfl
  | setChannel name channel thenRestart =>
      obtain ⟨hcallers, hpc⟩ := hahead
      refine turn_persist h hpc hagrees ?_ ?_ (fun _ => rfl) fun _ hpersists => ⟨hcallers, hpersists⟩
      · rw [hcallers]
        rfl
      · rw [hcallers]
        cases thenRestart <;> exact fun _ => rfl
  | start | stop | restart | saveChannel | mpv => exact hahead.elim

end

/-! ### Runs -/

/-- The operations a run was asked for, each with the position of its task. -/
def issuedIn (history : List (System × Label)) : List (Nat × Request) :=
  history.filterMap fun entry =>
    match entry.2 with
    | .request request => some (entry.1.tasks.length, request)
    | _ => none

/-- The task whose operation takes effect in this step. -/
def System.effect (toml : Toml) (s : System) : Label → Option Nat
  | .task index external =>
      if (s.tasks[index]?).any (Task.takesEffect toml s.inner external) then some index else none
  | _ => none

/-- The tasks whose operations took effect in a run, in this order. -/
def effectsIn (toml : Toml) (history : List (System × Label)) : List Nat :=
  history.filterMap fun entry => entry.1.effect toml entry.2

/-- How far an operation is: on its way, in effect, or failed. -/
inductive Request.Stands (config : DaemonConfig) (log : List (Nat × Request)) (index : Nat) (task : Task)
    (request : Request) : Prop where
  | ahead (hahead : request.Ahead config task.pc task.callers) (hlog : index ∉ log.map Prod.fst)
  | effective (hlog : (index, request) ∈ log) (hpending : task.pending = false)
  | never (hlog : index ∉ log.map Prod.fst) (hpending : task.pending = false)
      (hfailed : request.configures = true → ∃ error, task.pc = .done (.error error))

/-- What a run has made of the operations it was asked for: `log` has those in effect. -/
structure System.Updates (toml : Toml) (config : DaemonConfig) (history : List (System × Label))
    (log : List (Nat × Request)) (s : System) : Prop where
  linearizes : Linearization.Linearizes (fun config request => Request.updated config request) config log
    s.inner.config
  effects : log.map Prod.fst = effectsIn toml history
  issued : ∀ entry ∈ log, entry ∈ issuedIn history
  stands : ∀ index request, (index, request) ∈ issuedIn history → ∃ task, s.tasks[index]? = some task ∧
    request.Stands s.inner.config log index task
  own : ∀ index request request', (index, request) ∈ issuedIn history →
    (index, request') ∈ issuedIn history → request = request'
  others : ∀ (index : Nat) (task : Task), s.tasks[index]? = some task →
    (∀ request, (index, request) ∉ issuedIn history) → task.pending = false

section

variable {toml : Toml} {config : DaemonConfig} {history : List (System × Label)} {s t : System}
  {log : List (Nat × Request)} {label : Label} {index : Nat} {task : Task} {external : External}
  {turn : Turn} {request : Request}

theorem issuedIn_append_other (h : ∀ request, label ≠ .request request) :
    issuedIn (history ++ [(s, label)]) = issuedIn history := by
  rw [issuedIn, issuedIn, List.filterMap_append]
  cases label with
  | request request => exact absurd rfl (h request)
  | _ => simp

theorem issuedIn_append_request : issuedIn (history ++ [(s, .request request)]) =
    issuedIn history ++ [(s.tasks.length, request)] := by
  rw [issuedIn, issuedIn, List.filterMap_append]
  rfl

theorem effectsIn_append : effectsIn toml (history ++ [(s, label)]) =
    effectsIn toml history ++ (s.effect toml label).toList := by
  rw [effectsIn, effectsIn, List.filterMap_append]
  cases h : s.effect toml label <;> simp [h]

/-- Who takes effect holds the `mutations` mutex. -/
theorem Task.holds_of_takesEffect {inner : Inner} (h : task.takesEffect toml inner external = true) :
    task.holdsMutations = true := by
  refine Task.holds_of_pc ?_
  rcases task with ⟨origin, pc, callers⟩
  cases pc <;> first | rfl | cases h

theorem Task.pending_spawned {view : View} (h : task.turn toml view external = some turn) {other : Task}
    (hother : other ∈ turn.spawned) : other.pending = false := by
  rcases Task.turn_spawned h hother with ⟨_, rfl⟩ | ⟨_, _, _, _, _, rfl⟩ <;> rfl

theorem Request.Stands.congr {config' : DaemonConfig} {log' : List (Nat × Request)}
    (h : request.Stands config log index task) (hlog : ∀ entry ∈ log, entry ∈ log')
    (hindex : index ∉ log.map Prod.fst → index ∉ log'.map Prod.fst)
    (hahead : request.Ahead config task.pc task.callers → request.Ahead config' task.pc task.callers) :
    request.Stands config' log' index task := by
  cases h with
  | ahead h hnot => exact .ahead (hahead h) (hindex hnot)
  | effective hmem hpending => exact .effective (hlog _ hmem) hpending
  | never hnot hpending hfailed => exact .never (hindex hnot) hpending hfailed

namespace System.Updates

/-- The operation at `index` has a task. -/
theorem index_lt (h : s.Updates toml config history log) (hissued : (index, request) ∈ issuedIn history) :
    index < s.tasks.length := by
  obtain ⟨task, htask, _⟩ := h.stands index request hissued
  exact (List.getElem?_eq_some_iff.mp htask).1

theorem index_not_mem (h : s.Updates toml config history log)
    (hnone : ∀ request, (index, request) ∉ issuedIn history) : index ∉ log.map Prod.fst := by
  intro hmem
  obtain ⟨⟨_, request⟩, hentry, rfl⟩ := List.mem_map.mp hmem
  exact hnone request (h.issued _ hentry)

/-- The tasks after a step of one of them, where the others stand as before. -/
theorem others_stand (h : s.Updates toml config history log) {log' : List (Nat × Request)}
    (htask : s.tasks[index]? = some task)
    (hself : ∀ request, (index, request) ∈ issuedIn history →
      request.Stands (s.apply toml index task turn).inner.config log' index
        ⟨task.origin, turn.pc, turn.callers⟩)
    (hothers : ∀ (other : Nat) (waiting : Task) (request : Request), other ≠ index →
      s.tasks[other]? = some waiting → request.Stands s.inner.config log other waiting →
      request.Stands (s.apply toml index task turn).inner.config log' other waiting) :
    ∀ other request, (other, request) ∈ issuedIn history →
      ∃ found, (s.apply toml index task turn).tasks[other]? = some found ∧
        request.Stands (s.apply toml index task turn).inner.config log' other found := by
  intro other request hissued
  obtain ⟨waiting, hwaiting, hstands⟩ := h.stands other request hissued
  by_cases hother : other = index
  · subst hother
    exact ⟨_, TaskPool.getElem?_advance_self htask, hself request hissued⟩
  · exact ⟨waiting, TaskPool.getElem?_advance_of_ne hother hwaiting,
      hothers other waiting request hother hwaiting hstands⟩

/-- The tasks nobody asked for after a step of one of them. -/
theorem others_pending (h : s.Updates toml config history log) (htask : s.tasks[index]? = some task)
    (hturn : task.turn toml s.view external = some turn)
    (hself : (∀ request, (index, request) ∉ issuedIn history) →
      Task.pending ⟨task.origin, turn.pc, turn.callers⟩ = false) :
    ∀ (other : Nat) (found : Task), (s.apply toml index task turn).tasks[other]? = some found →
      (∀ request, (other, request) ∉ issuedIn history) → found.pending = false := by
  intro other found hfound hnone
  rw [System.apply_tasks] at hfound
  rcases TaskPool.getElem?_advance hfound with ⟨rfl, rfl⟩ | ⟨_, hold⟩ | ⟨_, hnew⟩
  · exact hself hnone
  · exact h.others other found hold hnone
  · exact Task.pending_spawned hturn hnew

/-- A step that takes no effect. -/
theorem silent (h : s.Updates toml config history log) (hadmits : s.Admits toml)
    (htask : s.tasks[index]? = some task) (hturn : task.turn toml s.view external = some turn)
    (hnot : task.takesEffect toml s.inner external = false)
    (hself : ∀ request, (index, request) ∈ issuedIn history →
      request.Stands s.inner.config log index ⟨task.origin, turn.pc, turn.callers⟩)
    (hother : (∀ request, (index, request) ∉ issuedIn history) →
      Task.pending ⟨task.origin, turn.pc, turn.callers⟩ = false) :
    (s.apply toml index task turn).Updates toml config (history ++ [(s, .task index external)]) log := by
  have hissued : issuedIn (history ++ [(s, .task index external)]) = issuedIn history :=
    issuedIn_append_other fun _ h => (by cases h)
  have hmem := List.mem_of_getElem? htask
  have hconfig : (s.apply toml index task turn).inner.config = s.inner.config := by
    rw [System.apply_inner hturn]
    exact Task.config_of_not_takesEffect hadmits.configured.agrees
      (hadmits.configured.prepared task hmem) hnot
  refine ⟨?_, ?_, ?_, ?_, ?_, ?_⟩
  · rw [hconfig]
    exact h.linearizes
  · have hnone : s.effect toml (.task index external) = none := by
      rw [System.effect, htask, Option.any_some, hnot]
      rfl
    rw [effectsIn_append, hnone, Option.toList_none, List.append_nil]
    exact h.effects
  · rw [hissued]
    exact h.issued
  · rw [hissued]
    refine h.others_stand htask ?_ ?_
    · rw [hconfig]
      exact hself
    · rw [hconfig]
      exact fun _ _ _ _ _ hstands => hstands
  · rw [hissued]
    exact h.own
  · rw [hissued]
    exact h.others_pending htask hturn hother

/-- The step that takes effect. -/
theorem effective (h : s.Updates toml config history log) (hadmits : s.Admits toml)
    (htask : s.tasks[index]? = some task) (hturn : task.turn toml s.view external = some turn)
    (hissued : (index, request) ∈ issuedIn history) (hlog : index ∉ log.map Prod.fst)
    (heffect : task.takesEffect toml s.inner external = true)
    (hupdated : request.updated s.inner.config =
      some (s.inner.after toml (task.pc.critical external)).config)
    (hpending : Task.pending ⟨task.origin, turn.pc, turn.callers⟩ = false) :
    (s.apply toml index task turn).Updates toml config (history ++ [(s, .task index external)])
      (log ++ [(index, request)]) := by
  have hsame : issuedIn (history ++ [(s, .task index external)]) = issuedIn history :=
    issuedIn_append_other fun _ h => (by cases h)
  refine ⟨?_, ?_, ?_, ?_, ?_, ?_⟩
  · rw [System.apply_inner hturn]
    exact h.linearizes.append hlog hupdated
  · have hsome : s.effect toml (.task index external) = some index := by
      rw [System.effect, htask, Option.any_some, heffect]
      rfl
    rw [effectsIn_append, hsome, List.map_append, h.effects]
    rfl
  · rw [hsame]
    intro entry hentry
    rcases List.mem_append.mp hentry with hold | hnew
    · exact h.issued entry hold
    · rw [List.mem_singleton.mp hnew]
      exact hissued
  · rw [hsame]
    refine h.others_stand htask ?_ ?_
    · intro other hother
      rw [h.own index other request hother hissued]
      exact .effective (by simp) hpending
    · intro other waiting asked hne hwaiting hstands
      have hfree : waiting.holdsMutations = false := by
        rw [Bool.eq_false_iff]
        exact fun hholds => hne (hadmits.configured.exclusive other index waiting task hwaiting htask hholds
          (Task.holds_of_takesEffect heffect))
      refine hstands.congr (fun entry hentry => List.mem_append_left _ hentry) ?_
        fun hahead => hahead.of_free hfree _
      intro hnot hmem
      rw [List.map_append, List.mem_append] at hmem
      rcases hmem with hold | hnew
      · exact hnot hold
      · exact hne (by simpa using hnew)
  · rw [hsame]
    exact h.own
  · rw [hsame]
    exact h.others_pending htask hturn fun hnone => absurd hissued (hnone request)

/-- A step of the task at `index` takes no effect, or it is the one by which the operation of the task does. -/
theorem task_step (h : s.Updates toml config history log) (hadmits : s.Admits toml)
    (htask : s.tasks[index]? = some task) (hturn : task.turn toml s.view external = some turn) :
    (task.takesEffect toml s.inner external = false ∧
      (s.apply toml index task turn).Updates toml config (history ++ [(s, .task index external)]) log) ∨
    ∃ request, (index, request) ∈ issuedIn history ∧ index ∉ log.map Prod.fst ∧
      request.Ahead s.inner.config task.pc task.callers ∧
      task.takesEffect toml s.inner external = true ∧
      request.updated s.inner.config = some (s.inner.after toml (task.pc.critical external)).config ∧
      (s.apply toml index task turn).Updates toml config (history ++ [(s, .task index external)])
        (log ++ [(index, request)]) := by
  have hmem := List.mem_of_getElem? htask
  have hprepared := hadmits.configured.prepared task hmem
  by_cases hissued : ∃ request, (index, request) ∈ issuedIn history
  · obtain ⟨request, hissued⟩ := hissued
    obtain ⟨found, hfound, hstands⟩ := h.stands index request hissued
    obtain rfl : task = found := Option.some.inj (htask.symm.trans hfound)
    have hquiet : ∀ (hnot : task.takesEffect toml s.inner external = false),
        request.Stands s.inner.config log index ⟨task.origin, turn.pc, turn.callers⟩ →
        task.takesEffect toml s.inner external = false ∧
          (s.apply toml index task turn).Updates toml config (history ++ [(s, .task index external)]) log :=
      fun hnot hafter => ⟨hnot, h.silent hadmits htask hturn hnot
        (fun other hother => by rw [h.own index other request hother hissued]; exact hafter)
        fun hnone => absurd hissued (hnone request)⟩
    cases hstands with
    | ahead hahead hlog =>
        cases Request.Ahead.moves hturn hahead hadmits.configured.agrees hprepared
          (hadmits.removals task hmem) with
        | effect heffect hupdated hpending =>
            exact Or.inr ⟨request, hissued, hlog, hahead, heffect, hupdated,
              h.effective hadmits htask hturn hissued hlog heffect hupdated hpending⟩
        | ahead hnot hahead => exact Or.inl (hquiet hnot (.ahead hahead hlog))
        | failed hnot error hpc hcallers =>
            refine Or.inl (hquiet hnot (.never hlog ?_ fun _ => ⟨error, hpc⟩))
            rw [Task.pending, hpc, hcallers]
            rfl
    | effective hlog hpending =>
        exact Or.inl (hquiet (Task.not_takesEffect hpending)
          (.effective hlog (Task.turn_pending hturn hpending)))
    | never hlog hpending hfailed =>
        refine Or.inl (hquiet (Task.not_takesEffect hpending)
          (.never hlog (Task.turn_pending hturn hpending) fun hconfigures => ?_))
        obtain ⟨error, hpc⟩ := hfailed hconfigures
        rw [Task.turn, hpc] at hturn
        cases hturn
  · have hnone := not_exists.mp hissued
    have hpending := h.others index task htask hnone
    exact Or.inl ⟨Task.not_takesEffect hpending, h.silent hadmits htask hturn (Task.not_takesEffect hpending)
      (fun request hrequest => absurd hrequest (hnone request))
      fun _ => Task.turn_pending hturn hpending⟩

/-- A request. -/
theorem request_step (h : s.Updates toml config history log) (request : Request) :
    System.Updates toml config (history ++ [(s, .request request)]) log
      { s with tasks := s.tasks ++ [request.task] } := by
  have hlast : (s.tasks ++ [request.task])[s.tasks.length]? = some request.task :=
    List.getElem?_concat_length
  have hfresh : s.tasks.length ∉ log.map Prod.fst :=
    h.index_not_mem fun other hother => absurd (h.index_lt hother) (lt_irrefl _)
  have hcases : ∀ index other, (index, other) ∈ issuedIn (history ++ [(s, .request request)]) →
      (index, other) ∈ issuedIn history ∨ (index = s.tasks.length ∧ other = request) := by
    intro index other hother
    rw [issuedIn_append_request, List.mem_append] at hother
    exact hother.imp_right fun hnew => by simpa using hnew
  refine ⟨h.linearizes, ?_, ?_, ?_, ?_, ?_⟩
  · rw [effectsIn_append]
    exact h.effects.trans (List.append_nil _).symm
  · intro entry hentry
    rw [issuedIn_append_request]
    exact List.mem_append_left _ (h.issued entry hentry)
  · intro index other hother
    rcases hcases index other hother with hold | ⟨rfl, rfl⟩
    · obtain ⟨task, htask, hstands⟩ := h.stands index other hold
      exact ⟨task, (List.getElem?_append_left (h.index_lt hold)).trans htask, hstands⟩
    · refine ⟨_, hlast, ?_⟩
      cases hconfigures : other.configures with
      | true => exact .ahead (Request.ahead_task hconfigures _) hfresh
      | false =>
          exact .never hfresh (Request.pending_task hconfigures)
            fun htrue => absurd (hconfigures.symm.trans htrue) Bool.false_ne_true
  · intro index other other' hother hother'
    rcases hcases index other hother with hold | ⟨rfl, rfl⟩
    · rcases hcases index other' hother' with hold' | ⟨rfl, rfl⟩
      · exact h.own index other other' hold hold'
      · exact absurd (h.index_lt hold) (lt_irrefl _)
    · rcases hcases _ other' hother' with hold' | ⟨_, rfl⟩
      · exact absurd (h.index_lt hold') (lt_irrefl _)
      · rfl
  · intro index task htask hnone
    rcases Nat.lt_or_ge index s.tasks.length with hlt | hge
    · refine h.others index task ?_ fun other hother => hnone other ?_
      · rwa [List.getElem?_append_left hlt] at htask
      · rw [issuedIn_append_request]
        exact List.mem_append_left _ hother
    · have hle := (List.getElem?_eq_some_iff.mp htask).1
      rw [List.length_append, List.length_singleton] at hle
      obtain rfl : index = s.tasks.length := by omega
      refine absurd ?_ (hnone request)
      rw [issuedIn_append_request]
      exact List.mem_append_right _ List.mem_cons_self

theorem subscribe_step (h : s.Updates toml config history log) (subscribers : List Subscriber) :
    System.Updates toml config (history ++ [(s, .subscribe)]) log { s with subscribers } := by
  have hsame : issuedIn (history ++ [(s, .subscribe)]) = issuedIn history :=
    issuedIn_append_other fun _ h => (by cases h)
  refine ⟨h.linearizes, ?_, ?_, ?_, ?_, ?_⟩
  · rw [effectsIn_append]
    exact h.effects.trans (List.append_nil _).symm
  all_goals rw [hsame]
  exacts [h.issued, h.stands, h.own, h.others]

theorem step (h : s.Updates toml config history log) (hadmits : s.Admits toml)
    (hstep : System.step toml s label = some t) :
    ∃ log', t.Updates toml config (history ++ [(s, label)]) log' := by
  rcases System.step_cases hstep with
    ⟨index, external, task, turn, rfl, _, htask, hturn, rfl⟩ | ⟨request, rfl, _, rfl⟩ | ⟨rfl, _, rfl⟩
  · rcases h.task_step hadmits htask hturn with ⟨_, hsilent⟩ | ⟨request, _, _, _, _, _, heffective⟩
    · exact ⟨log, hsilent⟩
    · exact ⟨_, heffective⟩
  · exact ⟨log, h.request_step request⟩
  · exact ⟨log, h.subscribe_step _⟩

theorem initial (toml : Toml) (config : DaemonConfig) (file : String) :
    (System.initial config file).Updates toml config [] [] where
  linearizes := .nil config
  effects := rfl
  issued := by simp
  stands := by simp [issuedIn]
  own := by simp [issuedIn]
  others := by
    intro index task htask _
    rw [List.mem_singleton.mp (List.mem_of_getElem? htask)]
    rfl

end System.Updates

theorem System.Run.updates {file : String} (hparses : toml.ParsesBack)
    (hfile : DaemonConfig.parse toml file = .ok config) (hrun : System.Run toml config file history s) :
    ∃ log, s.Updates toml config history log := by
  induction hrun with
  | refl => exact ⟨[], .initial toml config file⟩
  | tail hrun hstep ih =>
      obtain ⟨log, hupdates⟩ := ih
      exact hupdates.step (System.Run.admits hparses hfile hrun).1 hstep

end

/-- What the order of the effects means for the operations of a run. -/
structure Linearizable (toml : Toml) (config : DaemonConfig) (history : List (System × Label)) (s : System)
    (log : List (Nat × Request)) : Prop where
  /-- No operation takes effect twice; carried out alone, one after another, they give the configuration. -/
  sequential : Linearization.Linearizes (fun config request => Request.updated config request) config log
    s.inner.config
  /-- Each takes effect in a step of its own task, in this order, -/
  effects : log.map Prod.fst = effectsIn toml history
  /-- and nothing takes effect that was not asked for. -/
  issued : ∀ entry ∈ log, entry ∈ issuedIn history
  /-- A configuration operation that has succeeded is in effect. -/
  succeeded : ∀ (index : Nat) (request : Request) (task : Task) (reply : Reply),
    (index, request) ∈ issuedIn history → request.configures = true → s.tasks[index]? = some task →
    task.pc = .done (.ok reply) → (index, request) ∈ log

theorem System.Updates.linearizable {toml : Toml} {config : DaemonConfig} {history : List (System × Label)}
    {log : List (Nat × Request)} {s : System} (hupdates : System.Updates toml config history log s) :
    Linearizable toml config history s log := by
  refine ⟨hupdates.linearizes, hupdates.effects, hupdates.issued, ?_⟩
  intro index request task reply hissued hconfigures htask hdone
  obtain ⟨found, hfound, hstands⟩ := hupdates.stands index request hissued
  obtain rfl : task = found := Option.some.inj (htask.symm.trans hfound)
  cases hstands with
  | ahead hahead =>
      rw [hdone] at hahead
      cases request with
      | add => exact hahead.2.elim
      | remove => exact absurd hahead.1 Bool.false_ne_true
      | rename => exact hahead.2.elim
      | enable | setChannel => exact absurd hahead.2 Bool.false_ne_true
      | disable =>
          rcases hahead with ⟨_, h | h⟩ | ⟨_, h⟩
          · cases h
          · cases h
          · cases h
      | _ => cases hconfigures
  | effective hlog => exact hlog
  | never _ _ hfailed =>
      obtain ⟨error, herror⟩ := hfailed hconfigures
      rw [hdone] at herror
      cases herror

/-- **The configuration is linearizable**: in every run of the daemon, whatever the interleaving and the
failures, its configuration is what the operations that took effect give when each is carried out alone,
in the order of their effects; no operation takes effect twice, and every successful one has. -/
theorem config_linearizable {toml : Toml} {config : DaemonConfig} {file : String}
    {history : List (System × Label)} {s : System} (hparses : toml.ParsesBack)
    (hfile : DaemonConfig.parse toml file = .ok config) (hrun : System.Run toml config file history s) :
    ∃ log, Linearizable toml config history s log := by
  obtain ⟨log, hupdates⟩ := System.Run.updates hparses hfile hrun
  exact ⟨log, hupdates.linearizable⟩

/-- A `disable` of the running `tv`, as task 2, and an `enable`, as task 3, which takes effect while the
`disable` still waits for mpv to quit. -/
def enableDuringDisable : List Label :=
  startAttached ++ [.request (.disable "tv"), .request (.enable "tv")] ++ List.replicate 3 (.task 2 .ok) ++
    List.replicate 3 (.task 3 .ok) ++ List.replicate 7 (.task 2 .ok)

/-- Both succeed, and `tv` ends up disabled. -/
theorem config_linearizable_enableDuringDisable : ∃ history s log,
    System.Run tvToml tvNode tvNode.toText history s ∧ history.map Prod.snd = enableDuringDisable ∧
    (s.tasks.map fun task => task.pc.returned?) = [some true, none, some true, some true] ∧
    s.inner.config = tvDisabledNode ∧ Linearizable tvToml tvNode history s log := by
  have hlabels : (runChecked (System.step tvToml) (fun _ _ => true)
      (System.initial tvNode tvNode.toText) enableDuringDisable).any (fun s =>
        decide ((s.tasks.map fun task => task.pc.returned?) = [some true, none, some true, some true]) &&
          decide (s.inner.config = tvDisabledNode)) = true := by
    decide +kernel
  obtain ⟨history, s, hrun, hlabels, _, hresult⟩ := System.exists_run hlabels
  rw [Bool.and_eq_true, decide_eq_true_eq, decide_eq_true_eq] at hresult
  obtain ⟨log, hlinearizable⟩ := config_linearizable tvToml_parsesBack tvNode_parse hrun
  exact ⟨history, s, log, hrun, hlabels, hresult.1, hresult.2, hlinearizable⟩

end MpvTargets

import MpvTargets.ConfigPersistence
import MpvTargets.DeltaExactness

/-! The sections of a run are admissible: the operations enter a committing section only after their
checks, and what they checked still holds there. A removed target in particular stays configured until
its removal commits, also across the call of `stop`. With this every section of a run is exact. -/

namespace MpvTargets

/-- The await points of `stop` called on this name. -/
def Pc.stops (name : String) : Pc → Bool
  | stop stopped | stopQuit stopped | stopGone stopped | stopOffline stopped => stopped = name
  | targetRecord recorded => recorded = name
  | clearObserved cleared clearing | clearObservedSend cleared clearing =>
      cleared = name && clearing = .stop
  | _ => false

/-- The await points of `remove`. -/
def Pc.removes : Pc → Bool
  | removeLock _ | removeCheck _ | removeStage _ | removeCandidate _ | removePersist _ _ => true
  | removeCommit _ _ | removeClean _ => true
  | _ => false

/-- The name a removal has checked. -/
def Pc.removed? : Pc → Option String
  | removeStage name | removeCandidate name | removePersist name _ | removeCommit name _ => some name
  | _ => none

/-- A removal is nobody's callee, it calls nothing but `stop`, and the name it has checked is still
there. -/
structure Task.Removal (inner : Inner) (task : Task) : Prop where
  outermost : task.pc.removes = true → task.callers = []
  checked : ∀ name, task.pc.removed? = some name → name ∈ inner.targets.keys
  stops : ∀ name, Caller.removeStop name ∈ task.callers →
    task.callers = [.removeStop name] ∧ task.pc.stops name = true ∧ name ∈ inner.targets.keys

section

variable {toml : Toml} {view : View} {task : Task} {external : External} {turn : Turn}

theorem Pc.removes_of_removed? {pc : Pc} {name : String} (h : pc.removed? = some name) :
    pc.removes = true := by
  cases pc <;> first | rfl | cases h

theorem resume_removes (result : Outcome) (callers : List Caller)
    (hcallers : ∀ name, Caller.removeStop name ∉ callers) :
    (resume result callers).pc.removes = false ∧
      ∀ name, Caller.removeStop name ∉ (resume result callers).callers := by
  fun_induction resume result callers <;> grind [Pc.removes]

theorem Pc.Next.removes {pc pc' : Pc} (h : pc.Next toml view external pc') (hpc : pc.removes = false) :
    pc'.removes = false := by
  cases h <;> first | rfl | cases hpc

/-- Only a removal comes to an await point of `remove`. -/
theorem Task.turn_removes (h : task.turn toml view external = some turn)
    (hpc : task.pc.removes = false) (hcallers : ∀ name, Caller.removeStop name ∉ task.callers) :
    turn.pc.removes = false ∧ ∀ name, Caller.removeStop name ∉ turn.callers := by
  have hleads := Task.turn_leads h
  rcases turn with ⟨effect, pc', callers', spawned⟩
  cases hleads with
  | next hnext => exact ⟨hnext.removes hpc, hcallers⟩
  | call hcalls =>
      generalize task.pc = pc at hcalls hpc
      cases hcalls with
      | removeStop => cases hpc
      | _ => exact ⟨rfl, by simpa using hcallers⟩
  | ret result => exact resume_removes result task.callers hcallers
  | finish => exact ⟨rfl, fun _ => List.not_mem_nil⟩
  | panic => exact ⟨rfl, fun _ => List.not_mem_nil⟩

/-- `stop` stays on its name until it returns to the removal that called it. -/
theorem Task.turn_stops (h : task.turn toml view external = some turn) {name : String}
    (hpc : task.pc.stops name = true) (hcallers : task.callers = [.removeStop name]) :
    (turn.pc.stops name = true ∧ turn.callers = [.removeStop name]) ∨
      (turn.pc = .removeStage name ∧ turn.callers = []) ∨
      ∃ result, turn.pc = .done result ∧ turn.callers = [] := by
  have hresume : ∀ result, ((resume result [.removeStop name]).pc = .removeStage name ∨
      ∃ result', (resume result [.removeStop name]).pc = .done result') ∧
      (resume result [.removeStop name]).callers = [] := by
    intro result
    cases result <;> simp [resume]
  rcases task with ⟨origin, pc, callers⟩
  cases pc
  all_goals simp only [Pc.stops, decide_eq_true_eq, Bool.false_eq_true] at hpc
  all_goals simp only [Task.turn] at h
  all_goals grind [Pc.stops]

theorem Pc.not_removes_of_stops {pc : Pc} {name : String} (h : pc.stops name = true) :
    pc.removes = false := by
  cases pc <;> first | rfl | cases h

theorem Pc.not_configures_of_stops {pc : Pc} {name : String} (h : pc.stops name = true)
    (external : External) : (pc.critical external).any CriticalSection.configures = false := by
  cases pc <;> first | rfl | cases h

theorem Task.removal_of_not_removes {inner : Inner} (hpc : task.pc.removes = false)
    (hcallers : ∀ name, Caller.removeStop name ∉ task.callers) : task.Removal inner where
  outermost := fun hremoves => by simp [hpc] at hremoves
  checked := fun name hname => by simp [Pc.removes_of_removed? hname] at hpc
  stops := fun name hname => absurd hname (hcallers name)

/-- A step of the removal itself. -/
theorem Task.Removal.of_removes (hremoval : task.Removal view.inner)
    (h : task.turn toml view external = some turn) (hpc : task.pc.removes = true) :
    Task.Removal (view.inner.after toml (task.pc.critical external))
      ⟨task.origin, turn.pc, turn.callers⟩ := by
  have hcallers := hremoval.outermost hpc
  have hchecked := hremoval.checked
  rcases task with ⟨origin, pc, callers⟩
  cases hcallers
  cases pc
  case removeCheck name =>
      simp only [Task.turn, Task.read] at h
      split at h
      · cases h
        exact Task.removal_of_not_removes rfl (by simp [Task.ret, resume])
      · rename_i target htarget
        have hname : name ∈ view.inner.targets.keys :=
          (OrderedMap.mem_keys_iff _).mpr ⟨target, htarget⟩
        split_ifs at h <;> cases h
        · exact ⟨fun _ => rfl, fun _ heq => by cases heq; exact hname, by simp [Task.goto]⟩
        · refine ⟨fun h => (by cases h), fun _ h => (by cases h), fun other hother => ?_⟩
          simp only [Task.call, List.mem_singleton] at hother
          cases hother
          exact ⟨rfl, by simp [Pc.stops, Task.call], hname⟩
  case removeLock name =>
      simp only [Task.turn, Task.acquire, Option.ite_none_right_eq_some] at h
      obtain ⟨_, h⟩ := h
      cases h
      exact ⟨fun _ => rfl, fun _ h => (by cases h), by simp [Task.goto]⟩
  case removeStage name =>
      rcases Task.await_eq_some h with ⟨_, rfl⟩ | ⟨_, _, rfl⟩
      · exact ⟨fun _ => rfl, hchecked, by simp [Task.goto]⟩
      · exact Task.removal_of_not_removes rfl (by simp [Task.ret, resume])
  case removeCandidate name =>
      cases h
      exact ⟨fun _ => rfl, hchecked, by simp [Task.goto]⟩
  case removePersist name candidate =>
      simp only [Task.turn] at h
      split at h <;> cases h
      · exact Task.removal_of_not_removes rfl (by simp [Task.ret, resume])
      · exact ⟨fun _ => rfl, hchecked, by simp [Task.goto]⟩
  case removeCommit name candidate =>
      cases h
      exact ⟨fun _ => rfl, fun _ h => (by cases h), by simp [Task.goto]⟩
  case removeClean name =>
      rcases Task.await_eq_some h with ⟨_, rfl⟩ | ⟨_, _, rfl⟩ <;>
        exact Task.removal_of_not_removes rfl (by simp [Task.ret, resume])
  all_goals cases hpc

/-- A step of any task keeps what its removal relies on. -/
theorem Task.Removal.after_turn (hremoval : task.Removal view.inner)
    (h : task.turn toml view external = some turn) :
    Task.Removal (view.inner.after toml (task.pc.critical external))
      ⟨task.origin, turn.pc, turn.callers⟩ := by
  cases hpc : task.pc.removes with
  | true => exact hremoval.of_removes h hpc
  | false =>
      by_cases hcallers : ∃ name, Caller.removeStop name ∈ task.callers
      · obtain ⟨name, hname⟩ := hcallers
        obtain ⟨hcallers, hstops, hkeys⟩ := hremoval.stops name hname
        have hkeys' : name ∈ (view.inner.after toml (task.pc.critical external)).targets.keys := by
          rwa [(view.inner.after_of_not_configures toml (Pc.not_configures_of_stops hstops _)).2.1]
        rcases Task.turn_stops h hstops hcallers with
          ⟨hstops', hcallers'⟩ | ⟨hpc', hcallers'⟩ | ⟨result, hpc', hcallers'⟩
        · have hpc' := Pc.not_removes_of_stops hstops'
          refine ⟨fun hremoves => by simp [hpc'] at hremoves,
            fun other hother => by simp [Pc.removes_of_removed? hother] at hpc', fun other hother => ?_⟩
          rw [hcallers', List.mem_singleton] at hother
          cases hother
          exact ⟨hcallers', hstops', hkeys'⟩
        · rw [hpc', hcallers']
          exact ⟨fun _ => rfl, fun _ heq => by cases heq; exact hkeys', by simp⟩
        · rw [hpc', hcallers']
          exact Task.removal_of_not_removes rfl (by simp)
      · obtain ⟨hpc', hcallers'⟩ := Task.turn_removes h hpc (not_exists.mp hcallers)
        exact Task.removal_of_not_removes hpc' hcallers'

theorem Task.Removal.congr {inner inner' : Inner} (hremoval : task.Removal inner)
    (hkeys : inner'.targets.keys = inner.targets.keys) : task.Removal inner' where
  outermost := hremoval.outermost
  checked := fun name hname => hkeys ▸ hremoval.checked name hname
  stops := fun name hname => by
    rw [hkeys]
    exact hremoval.stops name hname

/-- A task that does not hold the mutex relies on no name. -/
theorem Task.Removal.of_free {inner : Inner} (hremoval : task.Removal inner)
    (hfree : task.holdsMutations = false) (inner' : Inner) : task.Removal inner' := by
  rw [Task.holdsMutations, Bool.or_eq_false_iff] at hfree
  obtain ⟨hpc, hcallers⟩ := hfree
  refine ⟨hremoval.outermost, fun name hname => ?_, fun name hname => ?_⟩
  · have hholds : task.pc.holdsMutations = true := by
      generalize task.pc = pc at hname
      cases pc <;> first | rfl | cases hname
    rw [hholds] at hpc
    cases hpc
  · rw [List.any_eq_false] at hcallers
    exact absurd rfl (hcallers _ hname)

end

/-- The removals of all tasks go on undisturbed. -/
def System.Removals (s : System) : Prop := ∀ task ∈ s.tasks, task.Removal s.inner

theorem System.Removals.step {toml : Toml} {s s' : System} {label : Label} (h : s.Removals)
    (hconfigured : s.Configured toml) (hstep : System.step toml s label = some s') : s'.Removals := by
  rcases System.step_cases hstep with
    ⟨index, external, task, turn, _, _, htask, hturn, rfl⟩ | ⟨request, _, _, rfl⟩ | ⟨_, _, rfl⟩
  · rw [System.Removals, System.apply_inner hturn]
    refine TaskPool.forall_advance ?_ ?_ ?_
    · exact (h task (List.mem_of_getElem? htask)).after_turn hturn
    · intro position other hne hother
      have hremoval := h other (List.mem_of_getElem? hother)
      cases hconfigures : (task.pc.critical external).any CriticalSection.configures with
      | true =>
          refine hremoval.of_free ?_ _
          rw [Bool.eq_false_iff]
          exact fun hholds => hne (hconfigured.exclusive position index other task hother htask hholds
            (Task.holds_of_pc (Pc.holds_of_configures hconfigures)))
      | false => exact hremoval.congr (s.inner.after_of_not_configures toml hconfigures).2.1
    · intro other hother
      rcases Task.turn_spawned hturn hother with ⟨_, rfl⟩ | ⟨_, _, _, _, _, rfl⟩ <;>
        exact Task.removal_of_not_removes rfl (by simp [recoveryTask, observerTask])
  · intro other hother
    rcases List.mem_append.mp hother with hother | hother
    · exact h other hother
    · rw [List.mem_singleton.mp hother]
      cases request
      case remove name => exact ⟨fun _ => rfl, fun _ h => (by cases h), by simp [Request.task]⟩
      all_goals exact Task.removal_of_not_removes rfl (by simp [Request.task])
  · exact h

/-- What every operation relies on when it enters a section holds there. -/
structure System.Admits (toml : Toml) (s : System) : Prop where
  configured : s.Configured toml
  removals : s.Removals

namespace System.Admits

variable {toml : Toml} {s s' : System}

theorem step (h : s.Admits toml) (hparses : toml.ParsesBack) {label : Label}
    (hstep : System.step toml s label = some s') : s'.Admits toml :=
  ⟨h.configured.step hparses hstep, h.removals.step h.configured hstep⟩

theorem admissible (h : s.Admits toml) {task : Task} (htask : task ∈ s.tasks) {external : External}
    {critical : CriticalSection} (hcritical : task.pc.critical external = some critical) :
    critical.Admissible s.inner := by
  have hprepared := h.configured.prepared task htask
  have hchecked := (h.removals task htask).checked
  rcases task with ⟨origin, pc, callers⟩
  cases pc <;> cases hcritical
  case addCommit target candidate => exact ⟨hprepared.1, hprepared.2.1⟩
  case removeCommit name candidate => exact ⟨hchecked name rfl, hprepared.1⟩
  case renameCommit name replacement candidate =>
      exact ⟨hprepared.1, hprepared.2.1, hprepared.2.2.1⟩
  all_goals trivial

/-- Every section of a run is exact. -/
theorem delta (h : s.Admits toml) {task : Task} (htask : task ∈ s.tasks) {external : External}
    {critical : CriticalSection} (hcritical : task.pc.critical external = some critical) :
    Delta s.inner (critical.run toml s.inner) :=
  delta_section toml h.configured.agrees (h.admissible htask hcritical)

end System.Admits

theorem System.Run.admits {toml : Toml} {config : DaemonConfig} {file : String}
    {history : List (System × Label)} {s : System} (hparses : toml.ParsesBack)
    (hfile : DaemonConfig.parse toml file = .ok config)
    (hrun : System.Run toml config file history s) :
    s.Admits toml ∧ ∀ entry ∈ history, entry.1.Admits toml := by
  have hstart : (System.initial config file).Admits toml := by
    refine ⟨System.configured_initial (validate_of_parse hfile) hfile, ?_⟩
    intro task htask
    rw [List.mem_singleton.mp htask]
    exact Task.removal_of_not_removes rfl (by simp [startupTask])
  have hstep : ∀ t label u, System.Admits toml t → True → System.step toml t label = some u →
      System.Admits toml u := fun _ _ _ ht _ hu => ht.step hparses hu
  exact ⟨Trace.invariant hstart hstep hrun fun _ _ => trivial,
    Trace.invariant_visited hstart hstep hrun fun _ _ => trivial⟩

end MpvTargets

import MpvTargets.SupervisorStartup
import MpvTargets.TargetFlags

/-! Which tasks stand where. A client's operation, a recovery loop and an observer each keep to the
await points of their own functions and of those they call, and a recovery loop and an observer keep to
one name. -/

namespace MpvTargets

/-- The await points of client operations. -/
def Pc.requested : Pc → Bool
  | clearObserved _ clearing | clearObservedSend _ clearing => !clearing.loses
  | observeConnect _ | observeRead _ | updateObserved _ _ _ | updateMediaEnd _ _ _ => false
  | clearMediaEnd _ | mediaEndSend _ | targetLost _ => false
  | recoverAdmit _ | recoverCheck _ _ => false
  | startupList | startupNext _ | startupProbe _ _ | startupOnline _ _ => false
  | _ => true

def Caller.requested : Caller → Bool
  | recovery _ _ | startupEnsured _ | startupStarted _ _ => false
  | _ => true

/-- The await points of an observer of this name. -/
def Pc.observes (name : String) : Pc → Bool
  | observeConnect observed | observeRead observed | updateObserved observed _ _ => observed = name
  | updateMediaEnd observed _ _ | clearMediaEnd observed | mediaEndSend observed => observed = name
  | targetLost observed => observed = name
  | clearObserved observed clearing | clearObservedSend observed clearing =>
      observed = name ∧ clearing.loses = true
  | done _ => true
  | _ => false

/-- Where a recovery loop of this name stands: before its admission, before a check, in the `start` it
calls, or at its end. -/
inductive RecoveryAt (name : String) : Pc → List Caller → Prop where
  | admission : RecoveryAt name (.recoverAdmit name) []
  | check (delay : Nat) : RecoveryAt name (.recoverCheck name delay) []
  | start {pc : Pc} (delay : Nat) (hpc : pc.starts name = true) :
      RecoveryAt name pc [.recovery name delay]
  | done (result : Outcome) : RecoveryAt name (.done result) []

/-- The first task is described by `StartupAt`. -/
def Task.Shaped (task : Task) : Prop :=
  match task.origin with
  | .request => task.pc.requested = true ∧ task.callers.all Caller.requested = true
  | .startup => True
  | .recovery => ∃ name, RecoveryAt name task.pc task.callers
  | .observer _ => ∃ name, task.pc.observes name = true ∧ task.callers = []

section

variable {toml : Toml} {view : View} {task : Task} {external : External} {turn : Turn}

theorem resume_requested (result : Outcome) {callers : List Caller}
    (h : callers.all Caller.requested = true) :
    (resume result callers).pc.requested = true ∧
      (resume result callers).callers.all Caller.requested = true := by
  fun_induction resume result callers <;> simp_all [Pc.requested, Caller.requested]

theorem resume_recovery (result : Outcome) (name : String) (delay : Nat) :
    RecoveryAt name (resume result [.recovery name delay]).pc
      (resume result [.recovery name delay]).callers := by
  cases result with
  | ok reply => exact RecoveryAt.done _
  | error error => exact RecoveryAt.check _

theorem Pc.Next.requested {pc pc' : Pc} (h : pc.Next toml view external pc')
    (hpc : pc.requested = true) : pc'.requested = true := by
  cases h <;> first | rfl | exact hpc

/-- A client's operation stays one. -/
theorem Task.turn_requested (h : task.turn toml view external = some turn)
    (hpc : task.pc.requested = true) (hcallers : task.callers.all Caller.requested = true) :
    turn.pc.requested = true ∧ turn.callers.all Caller.requested = true := by
  have hleads := Task.turn_leads h
  rcases turn with ⟨effect, pc', callers', spawned⟩
  cases hleads with
  | next hnext => exact ⟨hnext.requested hpc, hcallers⟩
  | call hcalls =>
      generalize task.pc = pc at hcalls hpc
      cases hcalls with
      | recovery | startupEnsured | startupStarted => cases hpc
      | _ => exact ⟨rfl, by simpa [Caller.requested] using hcallers⟩
  | ret result => exact resume_requested result hcallers
  | finish => exact ⟨rfl, rfl⟩
  | panic => exact ⟨rfl, rfl⟩

theorem Pc.Next.observes {pc pc' : Pc} (h : pc.Next toml view external pc') {name : String}
    (hpc : pc.observes name = true) : pc'.observes name = true := by
  cases h
  case targetLost => simpa [Pc.observes, Clearing.loses] using hpc
  all_goals first | exact hpc | cases hpc | simp [Pc.observes, Clearing.loses] at hpc

/-- An observer keeps to its name. -/
theorem Task.turn_observes (h : task.turn toml view external = some turn) {name : String}
    (hpc : task.pc.observes name = true) (hcallers : task.callers = []) :
    turn.pc.observes name = true ∧ turn.callers = [] := by
  have hleads := Task.turn_leads h
  rcases turn with ⟨effect, pc', callers', spawned⟩
  cases hleads with
  | next hnext => exact ⟨hnext.observes hpc, hcallers⟩
  | call hcalls =>
      generalize task.pc = pc at hcalls hpc
      cases hcalls <;> cases hpc
  | ret result =>
      rw [hcallers]
      exact ⟨rfl, rfl⟩
  | finish => exact ⟨rfl, rfl⟩
  | panic hpanics =>
      generalize task.pc = pc at hpanics hpc
      cases hpanics <;> cases hpc

/-- A recovery loop keeps to its name. -/
theorem Task.turn_recoveryAt (h : task.turn toml view external = some turn) {name : String}
    (hat : RecoveryAt name task.pc task.callers) : RecoveryAt name turn.pc turn.callers := by
  rcases task with ⟨origin, pc, callers⟩
  cases hat with
  | admission =>
      simp only [Task.turn] at h
      split at h
      · cases h
        exact RecoveryAt.check 1
      · cases h
        exact RecoveryAt.done _
  | check delay =>
      simp only [Task.turn] at h
      split at h
      · cases h
        exact RecoveryAt.start delay (by simp [Pc.starts])
      · cases h
        exact RecoveryAt.done _
  | done => cases h
  | start delay hpc =>
      have hresume := fun result => resume_recovery result name delay
      have hstart : ∀ pc' : Pc, pc'.started name = true → RecoveryAt name pc' [.recovery name delay] :=
        fun pc' hstarted => RecoveryAt.start delay (Pc.starts_of_started hstarted)
      cases pc
      all_goals simp only [Pc.starts, Pc.started, Pc.launches, decide_eq_true_eq, Bool.false_eq_true] at hpc
      all_goals simp only [Task.turn] at h
      all_goals grind [Pc.started, Pc.launches]

end

theorem Task.Shaped.turn {toml : Toml} {view : View} {task : Task} {external : External} {turn : Turn}
    (hshaped : task.Shaped) (h : task.turn toml view external = some turn) :
    Task.Shaped ⟨task.origin, turn.pc, turn.callers⟩ := by
  simp only [Task.Shaped] at hshaped ⊢
  cases horigin : task.origin with
  | request =>
      rw [horigin] at hshaped
      exact Task.turn_requested h hshaped.1 hshaped.2
  | startup => trivial
  | recovery =>
      rw [horigin] at hshaped
      obtain ⟨name, hat⟩ := hshaped
      exact ⟨name, Task.turn_recoveryAt h hat⟩
  | observer connection =>
      rw [horigin] at hshaped
      obtain ⟨name, hpc, hcallers⟩ := hshaped
      exact ⟨name, Task.turn_observes h hpc hcallers⟩

theorem Task.shaped_spawned {toml : Toml} {view : View} {task : Task} {external : External}
    {turn : Turn} (h : task.turn toml view external = some turn) {other : Task}
    (hother : other ∈ turn.spawned) : other.Shaped := by
  rcases Task.turn_spawned h hother with ⟨name, rfl⟩ | ⟨name, _, _, _, _, rfl⟩
  · exact ⟨name, RecoveryAt.admission⟩
  · exact ⟨name, by simp [observerTask, Pc.observes], rfl⟩

theorem Request.task_shaped (request : Request) : request.task.Shaped := by
  cases request <;> exact ⟨rfl, rfl⟩

def System.Shaped (s : System) : Prop := ∀ task ∈ s.tasks, task.Shaped

theorem System.shaped_initial (config : DaemonConfig) (file : String) :
    (System.initial config file).Shaped := by
  intro task htask
  rw [List.mem_singleton.mp htask]
  trivial

theorem System.Shaped.step {toml : Toml} {s s' : System} {label : Label} (h : s.Shaped)
    (hstep : System.step toml s label = some s') : s'.Shaped := by
  rcases System.step_cases hstep with
    ⟨index, external, task, turn, rfl, _, htask, hturn, rfl⟩ | ⟨request, rfl, _, rfl⟩ | ⟨_, _, rfl⟩
  · refine TaskPool.forall_advance ?_ ?_ fun other hother => Task.shaped_spawned hturn hother
    · exact (h task (List.mem_of_getElem? htask)).turn hturn
    · exact fun _ other _ hother => h other (List.mem_of_getElem? hother)
  · intro task htask
    rcases List.mem_append.mp htask with hold | hnew
    · exact h task hold
    · rw [List.mem_singleton.mp hnew]
      exact request.task_shaped
  · exact h

/-- The first task has yet to start the targets it comes to. -/
theorem System.Started.startup_at {s : System} (h : s.Started) {task : Task} (htask : task ∈ s.tasks)
    (horigin : task.origin = .startup) :
    ∃ pending, StartupAt task.pc task.callers pending ∧
      ∀ name ∈ pending, ∃ entry, s.inner.targets.get? name = some (.initial entry) := by
  obtain ⟨first, others, pending, h⟩ := h
  rw [h.tasks] at htask
  rcases List.mem_cons.mp htask with rfl | hother
  · exact ⟨pending, h.at_, h.untouched⟩
  · exact absurd horigin (h.apart task hother).1

/-- A target that is about to be marked online by the first task is still as configured. -/
theorem System.startupOnline_initial {s : System} (hstarted : s.Started) (hshaped : s.Shaped)
    {task : Task} (htask : task ∈ s.tasks) {name : String} {rest : List String}
    (hpc : task.pc = .startupOnline name rest) :
    ∃ entry, s.inner.targets.get? name = some (.initial entry) := by
  have htyped := hshaped task htask
  cases horigin : task.origin with
  | startup =>
      obtain ⟨pending, hat, huntouched⟩ := hstarted.startup_at htask horigin
      rw [hpc] at hat
      generalize task.callers = callers at hat
      cases hat with
      | online => exact huntouched name List.mem_cons_self
      | started hstarted => cases hstarted
      | ensured hensures => cases hensures
  | request =>
      rw [Task.Shaped, horigin, hpc] at htyped
      cases htyped.1
  | recovery =>
      rw [Task.Shaped, horigin, hpc] at htyped
      obtain ⟨other, hat⟩ := htyped
      generalize task.callers = callers at hat
      cases hat with
      | start delay hstarts => cases hstarts
  | observer connection =>
      rw [Task.Shaped, horigin, hpc] at htyped
      obtain ⟨other, hobserves, _⟩ := htyped
      cases hobserves

/-- What a run that never restructures this name keeps of its tasks. -/
structure System.Regular (name : String) (s : System) : Prop where
  started : s.Started
  keeps : s.Keeps name
  shaped : s.Shaped

namespace System.Regular

variable {toml : Toml} {name : String} {s s' : System} {label : Label}

theorem initial (name : String) (config : DaemonConfig) (file : String) :
    (System.initial config file).Regular name where
  started := ⟨_, _, _, System.startsUp_initial config file⟩
  keeps := by
    intro task htask
    rw [List.mem_singleton.mp htask]
    rfl
  shaped := System.shaped_initial config file

theorem step (h : s.Regular name) (hlabel : label.restructures name = false)
    (hstep : System.step toml s label = some s') : s'.Regular name :=
  ⟨h.started.step hstep, h.keeps.step hlabel hstep, h.shaped.step hstep⟩

end System.Regular

/-- The first task has finished where no operation is in progress. -/
theorem System.origin_of_quiet {s : System} {name : String} (hquiet : s.quiet name = true) {task : Task}
    (htask : task ∈ s.tasks) (horigin : task.origin = .startup) : ∃ result, task.pc = .done result := by
  have hnot := List.all_eq_true.mp hquiet task htask
  simp only [Bool.and_eq_true, Bool.not_eq_true', Task.operates, horigin] at hnot
  obtain ⟨⟨hoperates, _⟩, _⟩ := hnot
  split at hoperates
  · rename_i result hpc
    exact ⟨result, hpc⟩
  · cases hoperates

/-- A step that does not restructure `name` leaves the target of that name alone, runs one section on
it, or changes its configuration at most. -/
theorem Inner.get?_after_cases (toml : Toml) (inner : Inner) {critical : Option CriticalSection}
    {name : String} (h : critical.any (CriticalSection.restructures name) = false) :
    (critical.any (CriticalSection.actsOn name) = false ∧
      (inner.after toml critical).targets.get? name = inner.targets.get? name) ∨
    (∃ op, critical = some (.onTarget name op) ∧
      (inner.after toml critical).targets.get? name =
        (inner.targets.get? name).map fun target => (op.run target).1) ∨
    ∃ change external, critical = some (.persistTargetChange name change external) ∧
      ((inner.after toml critical).targets.get? name = inner.targets.get? name ∨
        ∃ target config revision, inner.targets.get? name = some target ∧
          (inner.after toml critical).targets.get? name = some { target with config, revision }) := by
  by_cases hacts : critical.any (CriticalSection.actsOn name) = true
  · obtain ⟨section_, rfl, hon⟩ := (Option.any_eq_true ..).mp hacts
    cases section_ with
    | onTarget other op =>
        obtain rfl : other = name := by simpa [CriticalSection.actsOn] using hon
        refine Or.inr (Or.inl ⟨op, rfl, ?_⟩)
        rw [Inner.after, CriticalSection.run, Inner.get?_onTarget, if_pos rfl]
    | persistTargetChange other change external =>
        obtain rfl : other = name := by simpa [CriticalSection.actsOn] using hon
        refine Or.inr (Or.inr ⟨change, external, rfl, ?_⟩)
        rcases inner.get?_after toml _ h with
          hsame | ⟨_, _, hop, _, _⟩ | ⟨_, _, target, config, revision, _, htarget, hafter⟩
        · exact Or.inl hsame
        · cases hop
        · exact Or.inr ⟨target, config, revision, htarget, hafter⟩
    | _ => exact absurd (h.symm.trans hon) Bool.false_ne_true
  · have hother := Bool.eq_false_of_not_eq_true hacts
    exact Or.inl ⟨hother, Inner.get?_after_of_not_actsOn toml inner hother⟩

/-- The await points that run a section on this target. -/
def Pc.runs (name : String) (pc : Pc) : TargetOp → Prop
  | .start => pc = start name
  | .stop => pc = stop name
  | .targetLost => pc = targetLost name
  | .admitRecovery => pc = recoverAdmit name
  | .stillExpected => ∃ delay, pc = recoverCheck name delay
  | .ensureDisabledOff => pc = ensureOff name
  | .clearObserved => ∃ clearing, pc = clearObserved name clearing
  | .markOnline => pc = launchOnline name ∨ ∃ rest, pc = startupOnline name rest
  | .markOffline => pc = stopOffline name
  | .clearLaunching => ∃ error, pc = launchFailed name error
  | .updateObserved field value => pc = updateObserved name field value
  | .updateMediaEnd reason error => pc = updateMediaEnd name reason error
  | .clearMediaEnd => pc = clearMediaEnd name

theorem Pc.runs_of_critical {pc : Pc} {external : External} {name : String} {op : TargetOp}
    (h : pc.critical external = some (.onTarget name op)) : pc.runs name op := by
  cases pc <;> cases h <;> simp [Pc.runs]

theorem Pc.critical_of_runs {pc : Pc} {name : String} {op : TargetOp} (h : pc.runs name op)
    (external : External) : pc.critical external = some (.onTarget name op) := by
  cases op <;> simp only [Pc.runs] at h
  case markOnline => rcases h with rfl | ⟨_, rfl⟩ <;> rfl
  case stillExpected | clearObserved | clearLaunching =>
    obtain ⟨_, rfl⟩ := h
    rfl
  all_goals
    subst h
    rfl

/-- What the step of a task does to a target nobody restructures: it stays as it is, one section runs on
it, or its configuration changes. -/
theorem System.target_step {toml : Toml} {s : System} {index : Nat} {task : Task}
    {external : External} {turn : Turn} {name : String} (hkeeps : s.Keeps name)
    (htask : s.tasks[index]? = some task) (hturn : task.turn toml s.view external = some turn) :
    ((task.pc.critical external).any (CriticalSection.actsOn name) = false ∧
      (s.apply toml index task turn).inner.targets.get? name = s.inner.targets.get? name) ∨
    (∃ op, task.pc.runs name op ∧ (s.apply toml index task turn).inner.targets.get? name =
      (s.inner.targets.get? name).map fun target => (op.run target).1) ∨
    ∃ change, task.pc = .persist name change ∧
      ((s.apply toml index task turn).inner.targets.get? name = s.inner.targets.get? name ∨
        ∃ target config revision, s.inner.targets.get? name = some target ∧
          (s.apply toml index task turn).inner.targets.get? name =
            some { target with config, revision }) := by
  have hrestructures := Pc.restructures_critical
    (Bool.or_eq_false_iff.mp (hkeeps task (List.mem_of_getElem? htask))).1 external
  rw [System.apply_inner hturn]
  rcases s.inner.get?_after_cases toml hrestructures with
    hsame | ⟨op, hcritical, hafter⟩ | ⟨change, _, hcritical, hafter⟩
  · exact Or.inl hsame
  · exact Or.inr (Or.inl ⟨op, Pc.runs_of_critical hcritical, hafter⟩)
  · refine Or.inr (Or.inr ⟨change, ?_, hafter⟩)
    revert hcritical
    cases task.pc <;> intro hcritical <;> cases hcritical
    rfl

end MpvTargets

import MpvTargets.Admissibility
import MpvTargets.TaskShapes

/-! Recovery of an enabled target. A target that is due for recovery is attended to: a task goes on to
launch it, to its recovery loop, or has lost its connection and will schedule one. This is kept by every
section but three, which leave a target to nobody. -/

namespace MpvTargets

/-- The target is to run and does not. -/
def RuntimeTarget.due (target : RuntimeTarget) : Bool :=
  !target.config.disabled && !target.stopped && !target.online

/-- Where a task goes on to launch the target or to a recovery loop of it. -/
def Pc.attends (name : String) : Pc → Bool
  | start started => started = name
  | clearObserved lost clearing | clearObservedSend lost clearing =>
      lost = name ∧ clearing = .targetLost true
  | recoverAdmit recovered | recoverCheck recovered _ => recovered = name
  | pc => pc.launches name

def System.attended (name : String) (s : System) : Bool :=
  s.tasks.any fun task => task.pc.attends name

/-- A recovery loop past its admission that has not come to an end: it waits, is about to start the target,
or launches it. -/
structure Task.Loops (name : String) (online : Bool) (task : Task) : Prop where
  at_ : RecoveryAt name task.pc task.callers
  alive : (∃ delay, task.pc = .recoverCheck name delay) ∨ task.pc = .start name ∨
    (task.pc.launches name = true ∧ online = false)

def Caller.recovers : Caller → Bool
  | recovery _ _ => true
  | _ => false

/-- The sections after which nobody may attend to a target that is due. `stop` marks a target offline that
was started again meanwhile; `enable` commits for a target that runs into nothing; and a recovery loop
finds the target online or being launched by somebody else and ends with `recovering` set. -/
def System.abandons (name : String) (toml : Toml) (s : System) : Label → Bool
  | .task index external =>
      (s.tasks[index]?).any fun task =>
        (s.inner.targets.get? name).any fun target =>
          match task.pc with
          | .stopOffline stopped =>
              stopped = name && !target.config.disabled && !target.stopped && target.online &&
                !s.attended name
          | .persist changed .enable =>
              changed = name && target.config.disabled && !target.stopped && !target.online &&
                (validateAndPersist toml external
                  (s.inner.config.setEntry name { target.config with disabled := false })).isOk &&
                !s.attended name
          | .start started =>
              started = name && task.callers.any Caller.recovers && !target.config.disabled &&
                target.recovering && (target.online || target.launching)
          | _ => false
  | _ => false

section

variable {toml : Toml} {view : View} {task : Task} {external : External} {turn : Turn} {name : String}

theorem resume_recovery_error (error : SupervisorError) (name : String) (delay : Nat) :
    resume (.error error) [.recovery name delay] =
      ⟨.recoverCheck name (nextRecoveryDelay delay), [], []⟩ := rfl

/-- A launch in flight goes on, or comes to `mark_online` or `clear_launching`. -/
theorem Task.turn_launches (h : task.turn toml view external = some turn)
    (hpc : task.pc.launches name = true) :
    (turn.pc.launches name = true ∧ task.pc.critical external = none) ∨
      task.pc = .launchOnline name ∨
      (∃ error, task.pc = .launchFailed name error ∧ recoveryTask name ∈ turn.spawned) := by
  rcases task with ⟨origin, pc, callers⟩
  cases pc
  all_goals simp only [Pc.launches, decide_eq_true_eq, Bool.false_eq_true] at hpc
  all_goals simp only [Task.turn] at h
  all_goals grind [Pc.launches, Pc.critical]

/-- `start` launches an enabled target that is neither online nor being launched. -/
theorem Task.turn_start (h : task.turn toml view external = some turn) (hpc : task.pc = .start name)
    {target : RuntimeTarget} (htarget : view.inner.targets.get? name = some target)
    (henabled : target.config.disabled = false) (hoffline : target.online = false)
    (hlaunching : target.launching = false) : turn.pc.launches name = true := by
  rcases task with ⟨origin, pc, callers⟩
  subst hpc
  simp only [Task.turn, htarget] at h
  grind [Pc.launches, startSection]

/-- What attends to a target leads to its launch or its recovery loop. -/
theorem Task.turn_attends (h : task.turn toml view external = some turn)
    (hpc : task.pc.attends name = true) {target : RuntimeTarget}
    (htarget : view.inner.targets.get? name = some target) (hdue : target.due = true) :
    turn.pc.attends name = true ∨ recoveryTask name ∈ turn.spawned ∨
      task.pc = .launchOnline name ∨
      (task.pc = .recoverAdmit name ∧ target.recovering = true) ∨
      (task.pc = .start name ∧ target.launching = true) := by
  rcases task with ⟨origin, pc, callers⟩
  cases pc
  all_goals simp only [Pc.attends, Pc.launches, decide_eq_true_eq, Bool.false_eq_true] at hpc
  all_goals simp only [Task.turn] at h
  all_goals grind [Pc.attends, Pc.launches, RuntimeTarget.due, startSection, admitRecoverySection,
    stillExpectedSection]

/-- A recovery loop goes on, unless it has launched the target, finds it no longer expected, or finds it
online or being launched by somebody else. -/
theorem Task.Loops.next {target : RuntimeTarget} (hloops : task.Loops name target.online)
    (h : task.turn toml view external = some turn)
    (htarget : view.inner.targets.get? name = some target) :
    Task.Loops name target.online ⟨task.origin, turn.pc, turn.callers⟩ ∨
      task.pc = .launchOnline name ∨
      ((∃ delay, task.pc = .recoverCheck name delay) ∧
        (target.config.disabled = true ∨ target.stopped = true)) ∨
      (task.pc = .start name ∧ task.callers.any Caller.recovers = true ∧
        target.config.disabled = false ∧ (target.online = true ∨ target.launching = true)) := by
  obtain ⟨hat, halive⟩ := hloops
  have hnext := Task.turn_recoveryAt h hat
  have hloop : ((∃ delay, turn.pc = .recoverCheck name delay) ∨ turn.pc = .start name ∨
      (turn.pc.launches name = true ∧ target.online = false)) →
        Task.Loops name target.online ⟨task.origin, turn.pc, turn.callers⟩ := fun hpc => ⟨hnext, hpc⟩
  rcases task with ⟨origin, pc, callers⟩
  cases hat with
  | admission => simp [Pc.launches] at halive
  | done => simp [Pc.launches] at halive
  | check delay =>
      simp only [Task.turn, htarget, Option.map_some] at h
      grind [stillExpectedSection]
  | start delay hstarts =>
      have hrecovers : [Caller.recovery name delay].any Caller.recovers = true := rfl
      cases pc
      all_goals simp only [Pc.starts, Pc.started, Pc.launches, decide_eq_true_eq,
        Bool.false_eq_true] at hstarts halive
      all_goals simp only [Task.turn] at h
      all_goals grind [Pc.launches, startSection, resume_recovery_error]

/-- The loss of a connection of a target that is expected goes on to its recovery. -/
theorem Task.turn_targetLost (h : task.turn toml view external = some turn)
    (hpc : task.pc = .targetLost name) {target : RuntimeTarget}
    (htarget : view.inner.targets.get? name = some target) (henabled : target.config.disabled = false)
    (hstopped : target.stopped = false) (honline : target.online = true) :
    turn.pc.attends name = true := by
  rcases task with ⟨origin, pc, callers⟩
  subst hpc
  simp only [Task.turn, htarget] at h
  grind [Pc.attends, targetLostSection]

/-- An admitted recovery loop goes on to its first check. -/
theorem Task.turn_admitted (h : task.turn toml view external = some turn)
    (hpc : task.pc = .recoverAdmit name) {target : RuntimeTarget}
    (htarget : view.inner.targets.get? name = some target) (henabled : target.config.disabled = false)
    (hstopped : target.stopped = false) (hrecovering : target.recovering = false) :
    turn.pc = .recoverCheck name 1 := by
  rcases task with ⟨origin, pc, callers⟩
  subst hpc
  simp only [Task.turn, htarget] at h
  grind [admitRecoverySection]

theorem Pc.attends_of_launches {pc : Pc} (h : pc.launches name = true) : pc.attends name = true := by
  cases pc <;> first | exact h | cases h

theorem Task.Loops.mono {online online' : Bool} (h : task.Loops name online)
    (honline : online' = true → online = true) : task.Loops name online' := by
  refine ⟨h.at_, ?_⟩
  rcases h.alive with hcheck | hstart | ⟨hlaunches, hoffline⟩
  · exact Or.inl hcheck
  · exact Or.inr (Or.inl hstart)
  · refine Or.inr (Or.inr ⟨hlaunches, ?_⟩)
    rw [Bool.eq_false_iff]
    intro hnow
    rw [honline hnow] at hoffline
    cases hoffline

theorem Task.Loops.attends {online : Bool} (h : task.Loops name online) :
    task.pc.attends name = true := by
  rcases h.alive with ⟨delay, hpc⟩ | hpc | ⟨hlaunches, _⟩
  · simp [hpc, Pc.attends]
  · simp [hpc, Pc.attends]
  · exact Pc.attends_of_launches hlaunches

end

/-- Only `enable` enables. -/
theorem persist_enables {toml : Toml} {inner : Inner} {name : String} {external : External}
    {change : ConfigChange} {target after : RuntimeTarget} (hagrees : inner.Agrees)
    (htarget : inner.targets.get? name = some target)
    (hafter : (persistTargetChange toml external name change inner).1.inner.targets.get? name =
      some after) (hdisabled : target.config.disabled = true) (henabled : after.config.disabled = false) :
    change = .enable ∧ (validateAndPersist toml external
      (inner.config.setEntry name { target.config with disabled := false })).isOk = true := by
  rcases persistTargetChange_cases toml external name change inner with
    ⟨_, he⟩ | ⟨entry, persisted, _, source, hentry, hmutate, hsource, ⟨hnone, _⟩ | ⟨found, hfound, he⟩⟩
  · rw [he, htarget] at hafter
    cases hafter
    rw [hdisabled] at henabled
    cases henabled
  · cases hnone.symm.trans htarget
  · cases htarget.symm.trans hfound
    rw [he, OrderedMap.get?_insert_self] at hafter
    cases hafter
    cases (hagrees.target?_of_get? htarget).symm.trans hentry
    cases change with
    | enable =>
        simp only [ConfigChange.mutate, hdisabled, if_true, Option.some.injEq, Prod.mk.injEq]
          at hmutate
        obtain ⟨rfl, _⟩ := hmutate
        refine ⟨rfl, ?_⟩
        rw [hsource]
        rfl
    | disable =>
        simp [ConfigChange.mutate, hdisabled] at hmutate
    | setChannel channel =>
        rw [ConfigChange.mutate] at hmutate
        split_ifs at hmutate
        cases hmutate
        exact absurd (hdisabled.symm.trans henabled) (by simp)

/-- The first task has still to start the target or to mark it online. -/
def System.Awaits (name : String) (s : System) : Prop :=
  ∃ first others pending, s.StartsUp first others pending ∧ name ∈ pending

theorem System.Awaits.apply {toml : Toml} {s : System} {name : String} (h : s.Awaits name)
    {index : Nat} {task : Task} {external : External} {turn : Turn}
    (htask : s.tasks[index]? = some task) (hturn : task.turn toml s.view external = some turn) :
    (s.apply toml index task turn).Awaits name ∨
      (index = 0 ∧ StartupLeaves s.inner name task.pc turn) := by
  obtain ⟨first, others, pending, hstarts, hname⟩ := h
  rw [hstarts.tasks] at htask
  cases index with
  | zero =>
      cases htask
      obtain ⟨pending', hnext, hleaves⟩ := hstarts.first_step hturn
      by_cases hkept : name ∈ pending'
      · exact Or.inl ⟨_, _, pending', hnext, hkept⟩
      · exact Or.inr ⟨rfl, hleaves name hname hkept⟩
  | succ index => exact Or.inl ⟨first, _, pending, hstarts.other_step htask hturn, hname⟩

/-- The daemon gives up when its first task ends with an error. -/
theorem System.exited_apply {toml : Toml} {s : System} {task : Task} {turn : Turn}
    {error : SupervisorError} (htask : s.tasks[0]? = some task)
    (hpc : turn.pc = .done (.error error)) : (s.apply toml 0 task turn).exited = true := by
  have hself : (TaskPool.advance s.tasks 0 ⟨task.origin, turn.pc, turn.callers⟩ turn.spawned)[0]? =
      some ⟨task.origin, turn.pc, turn.callers⟩ := TaskPool.getElem?_advance_self htask
  rw [exited, List.head?_eq_getElem?, System.apply_tasks, hself, Option.map_some, hpc]

/-- The section of the await point is what happens to its target. -/
theorem System.eq_run_of_runs {toml : Toml} {s : System} {index : Nat} {task : Task}
    {external : External} {turn : Turn} {name : String} {op : TargetOp} {target after : RuntimeTarget}
    (hturn : task.turn toml s.view external = some turn)
    (hafter : (s.apply toml index task turn).inner.targets.get? name = some after)
    (htarget : s.inner.targets.get? name = some target) (hruns : task.pc.runs name op) :
    after = (op.run target).1 := by
  rw [apply_inner hturn, Pc.critical_of_runs hruns external] at hafter
  change (s.inner.onTarget name op).inner.targets.get? name = some after at hafter
  rw [Inner.get?_onTarget, if_pos rfl, htarget] at hafter
  exact (Option.some.inj hafter).symm

theorem System.exited_of_serving {s : System} (h : s.serving = true) : s.exited = false := by
  rw [serving] at h
  rw [exited]
  split at h
  · rename_i hdone
    rw [hdone]
  · cases h

/-- Only recovery loops come to the admission and the check. -/
theorem System.Regular.recoveryAt {s : System} {name : String} (h : s.Regular name) {task : Task}
    (htask : task ∈ s.tasks)
    (hpc : task.pc = .recoverAdmit name ∨ ∃ delay, task.pc = .recoverCheck name delay) :
    RecoveryAt name task.pc task.callers := by
  have hshaped := h.shaped task htask
  cases horigin : task.origin with
  | recovery =>
      rw [Task.Shaped, horigin] at hshaped
      obtain ⟨other, hat⟩ := hshaped
      generalize task.callers = callers at hat
      rcases hpc with hpc | ⟨delay, hpc⟩
      all_goals
        rw [hpc] at hat ⊢
        cases hat with
        | start delay hstarts => cases hstarts
        | _ => constructor
  | startup =>
      obtain ⟨pending, hat, _⟩ := h.started.startup_at htask horigin
      generalize task.callers = callers at hat
      rcases hpc with hpc | ⟨delay, hpc⟩
      all_goals
        rw [hpc] at hat
        cases hat with
        | started hstarted => cases hstarted
        | ensured hensures => cases hensures
  | request =>
      rw [Task.Shaped, horigin] at hshaped
      rcases hpc with hpc | ⟨delay, hpc⟩
      all_goals
        rw [hpc] at hshaped
        cases hshaped.1
  | observer connection =>
      rw [Task.Shaped, horigin] at hshaped
      obtain ⟨other, hobserves, _⟩ := hshaped
      rcases hpc with hpc | ⟨delay, hpc⟩
      all_goals
        rw [hpc] at hobserves
        cases hobserves

/-- Recovery is not lost: see the fields. -/
structure System.Recovered (toml : Toml) (name : String) (s : System) : Prop where
  configured : s.Configured toml
  regular : s.Regular name
  exclusive : ∀ target, s.inner.targets.get? name = some target → target.online = true →
    target.launching = false
  launching : ∀ target, s.inner.targets.get? name = some target → target.launching = true →
    ∃ task ∈ s.tasks, task.pc.launches name = true
  recovering : ∀ target, s.inner.targets.get? name = some target → target.recovering = true →
    ∃ task ∈ s.tasks, task.Loops name target.online
  due : s.exited = false → ∀ target, s.inner.targets.get? name = some target → target.due = true →
    (∃ task ∈ s.tasks, task.pc.attends name = true) ∨ s.Awaits name

namespace System.Recovered

variable {toml : Toml} {s s' : System} {name : String} {index : Nat} {task : Task}
  {external : External} {turn : Turn} {after : RuntimeTarget}

theorem exclusive_after (h : s.Recovered toml name) (htask : s.tasks[index]? = some task)
    (hturn : task.turn toml s.view external = some turn)
    (hafter : (s.apply toml index task turn).inner.targets.get? name = some after)
    (honline : after.online = true) : after.launching = false := by
  rcases target_step h.regular.keeps htask hturn with
    ⟨_, hsame⟩ | ⟨op, hruns, hop⟩ | ⟨_, _, hsame | ⟨target, _, _, htarget, hchanged⟩⟩
  · rw [hsame] at hafter
    exact h.exclusive after hafter honline
  · rw [hop] at hafter
    obtain ⟨target, htarget, rfl⟩ := Option.map_eq_some_iff.mp hafter
    have hold := h.exclusive target htarget
    rw [op.run_online] at honline
    rw [op.run_launching]
    cases op with
    | start => simp [hold honline, show target.online = true from honline]
    | markOnline =>
        cases hwas : target.online with
        | true => simp [hold hwas]
        | false => simp
    | targetLost | markOffline | ensureDisabledOff => cases honline
    | clearLaunching => rfl
    | _ => exact hold honline
  · rw [hsame] at hafter
    exact h.exclusive after hafter honline
  · rw [hchanged] at hafter
    cases hafter
    exact h.exclusive target htarget honline

/-- A launch in flight goes on where the flag stays set. -/
theorem launches_after (h : s.Recovered toml name) (htask : s.tasks[index]? = some task)
    (hturn : task.turn toml s.view external = some turn)
    (hafter : (s.apply toml index task turn).inner.targets.get? name = some after)
    (hlaunching : after.launching = true) {target : RuntimeTarget}
    (htarget : s.inner.targets.get? name = some target) (hwas : target.launching = true) :
    ∃ other ∈ (s.apply toml index task turn).tasks, other.pc.launches name = true := by
  refine TaskPool.exists_advance (h.launching target htarget hwas) htask fun hpc => ?_
  rcases Task.turn_launches hturn hpc with ⟨hnext, _⟩ | honline | ⟨error, hfailed, _⟩
  · exact ⟨_, TaskPool.mem_advance_self htask, hnext⟩
  · have hruns : task.pc.runs name .markOnline := Or.inl honline
    rw [eq_run_of_runs hturn hafter htarget hruns, TargetOp.run_launching, Bool.and_eq_true]
      at hlaunching
    rw [h.exclusive target htarget hlaunching.2] at hwas
    cases hwas
  · have hruns : task.pc.runs name .clearLaunching := ⟨error, hfailed⟩
    rw [eq_run_of_runs hturn hafter htarget hruns, TargetOp.run_launching] at hlaunching
    cases hlaunching

theorem launching_after (h : s.Recovered toml name) (htask : s.tasks[index]? = some task)
    (hturn : task.turn toml s.view external = some turn)
    (hafter : (s.apply toml index task turn).inner.targets.get? name = some after)
    (hlaunching : after.launching = true) :
    ∃ other ∈ (s.apply toml index task turn).tasks, other.pc.launches name = true := by
  have hkept : ∀ target, s.inner.targets.get? name = some target → target.launching = true →
      ∃ other ∈ (s.apply toml index task turn).tasks, other.pc.launches name = true :=
    fun target => h.launches_after htask hturn hafter hlaunching
  rcases target_step h.regular.keeps htask hturn with
    ⟨_, hsame⟩ | ⟨op, hruns, hop⟩ | ⟨_, _, hsame | ⟨target, _, _, htarget, hchanged⟩⟩
  · rw [hsame] at hafter
    exact hkept after hafter hlaunching
  · rw [hop] at hafter
    obtain ⟨target, htarget, rfl⟩ := Option.map_eq_some_iff.mp hafter
    cases hwas : target.launching with
    | true => exact hkept target htarget hwas
    | false =>
        rw [op.run_launching] at hlaunching
        cases op with
        | start =>
            rw [hwas, Bool.false_or, Bool.and_eq_true, Bool.not_eq_true', Bool.not_eq_true']
              at hlaunching
            exact ⟨_, TaskPool.mem_advance_self htask,
              Task.turn_start hturn hruns htarget hlaunching.1 hlaunching.2 hwas⟩
        | clearLaunching | ensureDisabledOff => cases hlaunching
        | _ => simp [hwas] at hlaunching
  · rw [hsame] at hafter
    exact hkept after hafter hlaunching
  · rw [hchanged] at hafter
    cases hafter
    exact hkept target htarget hlaunching

/-- A recovery loop is still alive where `recovering` stays set. -/
theorem loops_after (h : s.Recovered toml name)
    (habandons : s.abandons name toml (.task index external) = false)
    (htask : s.tasks[index]? = some task) (hturn : task.turn toml s.view external = some turn)
    (hafter : (s.apply toml index task turn).inner.targets.get? name = some after)
    (hrecovering : after.recovering = true) {target : RuntimeTarget}
    (htarget : s.inner.targets.get? name = some target) (hwas : target.recovering = true)
    (honline : after.online = true → target.online = true) :
    ∃ other ∈ (s.apply toml index task turn).tasks, other.Loops name after.online := by
  obtain ⟨other, hother, hloops⟩ := h.recovering target htarget hwas
  obtain ⟨position, hposition⟩ := List.mem_iff_getElem?.mp hother
  by_cases hne : position = index
  · subst hne
    cases htask.symm.trans hposition
    rcases hloops.next hturn htarget with
      hnext | hlaunched | ⟨hcheck, hoff⟩ | ⟨hstart, hrecovers, henabled, hbusy⟩
    · exact ⟨_, TaskPool.mem_advance_self htask, hnext.mono honline⟩
    · -- the loop itself has brought the target online
      have hruns : task.pc.runs name .markOnline := Or.inl hlaunched
      rcases hloops.alive with ⟨_, hpc⟩ | hpc | ⟨_, hoffline⟩
      · cases hlaunched.symm.trans hpc
      · cases hlaunched.symm.trans hpc
      · rw [eq_run_of_runs hturn hafter htarget hruns, TargetOp.run_recovering, hoffline,
          Bool.and_false] at hrecovering
        cases hrecovering
    · have hruns : task.pc.runs name .stillExpected := hcheck
      rw [eq_run_of_runs hturn hafter htarget hruns, TargetOp.run_recovering] at hrecovering
      rcases hoff with hdisabled | hstopped
      · simp [hdisabled] at hrecovering
      · simp [hstopped] at hrecovering
    · have hbusy' : (target.online || target.launching) = true := Bool.or_eq_true_iff.mpr hbusy
      simp [abandons, htask, htarget, hstart, hrecovers, henabled, hwas, hbusy'] at habandons
  · exact ⟨other, List.mem_of_getElem? (TaskPool.getElem?_advance_of_ne hne hposition),
      hloops.mono honline⟩

theorem recovering_after (h : s.Recovered toml name)
    (habandons : s.abandons name toml (.task index external) = false)
    (htask : s.tasks[index]? = some task) (hturn : task.turn toml s.view external = some turn)
    (hafter : (s.apply toml index task turn).inner.targets.get? name = some after)
    (hrecovering : after.recovering = true) :
    ∃ other ∈ (s.apply toml index task turn).tasks, other.Loops name after.online := by
  have hkept : ∀ target, s.inner.targets.get? name = some target → target.recovering = true →
      (after.online = true → target.online = true) →
      ∃ other ∈ (s.apply toml index task turn).tasks, other.Loops name after.online :=
    fun target => h.loops_after habandons htask hturn hafter hrecovering
  rcases target_step h.regular.keeps htask hturn with
    ⟨_, hsame⟩ | ⟨op, hruns, hop⟩ | ⟨_, _, hsame | ⟨target, _, _, htarget, hchanged⟩⟩
  · rw [hsame] at hafter
    exact hkept after hafter hrecovering id
  · rw [hop] at hafter
    obtain ⟨target, htarget, rfl⟩ := Option.map_eq_some_iff.mp hafter
    rw [op.run_recovering] at hrecovering
    cases hwas : target.recovering with
    | true =>
        refine hkept target htarget hwas fun honline => ?_
        rw [op.run_online] at honline
        cases op with
        | markOnline => exact (Bool.and_eq_true_iff.mp hrecovering).2
        | targetLost | markOffline | ensureDisabledOff => cases honline
        | _ => exact honline
    | false =>
        cases op with
        | admitRecovery =>
            rw [hwas, Bool.false_or, Bool.and_eq_true, Bool.not_eq_true', Bool.not_eq_true']
              at hrecovering
            have hcheck := Task.turn_admitted hturn hruns htarget hrecovering.1 hrecovering.2 hwas
            have hat := Task.turn_recoveryAt hturn
              (h.regular.recoveryAt (List.mem_of_getElem? htask) (Or.inl hruns))
            exact ⟨_, TaskPool.mem_advance_self htask, hat, Or.inl ⟨1, hcheck⟩⟩
        | ensureDisabledOff => cases hrecovering
        | _ => simp [hwas] at hrecovering
  · rw [hsame] at hafter
    exact hkept after hafter hrecovering id
  · rw [hchanged] at hafter
    cases hafter
    exact hkept target htarget hrecovering id

/-- What another task does for the target is not lost by a step. -/
theorem attends_other (htask : s.tasks[index]? = some task) (hself : task.pc.attends name = false)
    (hattended : ∃ other ∈ s.tasks, other.pc.attends name = true) :
    ∃ other ∈ (s.apply toml index task turn).tasks, other.pc.attends name = true := by
  refine TaskPool.exists_advance hattended htask fun hattends => ?_
  rw [hself] at hattends
  cases hattends

/-- A target that was due and still is, is still attended to. -/
theorem attends_after (h : s.Recovered toml name) (hexited : s.exited = false)
    (htask : s.tasks[index]? = some task) (hturn : task.turn toml s.view external = some turn)
    (hexited' : (s.apply toml index task turn).exited = false)
    (hafter : (s.apply toml index task turn).inner.targets.get? name = some after)
    (hdue : after.due = true) {target : RuntimeTarget}
    (htarget : s.inner.targets.get? name = some target) (hwas : target.due = true) :
    (∃ other ∈ (s.apply toml index task turn).tasks, other.pc.attends name = true) ∨
      (s.apply toml index task turn).Awaits name := by
  have hoffline : after.online = false := by
    simp only [RuntimeTarget.due, Bool.and_eq_true, Bool.not_eq_true'] at hdue
    exact hdue.2
  have honline : ¬task.pc.runs name .markOnline := by
    intro hruns
    rw [eq_run_of_runs hturn hafter htarget hruns, TargetOp.run_online] at hoffline
    cases hoffline
  have hloop : ∀ other ∈ s.tasks, other.pc.attends name = true → other.pc ≠ task.pc →
      ∃ other ∈ (s.apply toml index task turn).tasks, other.pc.attends name = true := by
    intro other hother hattends hne
    obtain ⟨position, hposition⟩ := List.mem_iff_getElem?.mp hother
    have hindex : position ≠ index := by
      rintro rfl
      cases htask.symm.trans hposition
      exact hne rfl
    exact ⟨other, List.mem_of_getElem? (TaskPool.getElem?_advance_of_ne hindex hposition), hattends⟩
  have hself : task.pc.attends name = true →
      ∃ other ∈ (s.apply toml index task turn).tasks, other.pc.attends name = true := by
    intro hpc
    rcases Task.turn_attends hturn hpc htarget hwas with
      hnext | hspawned | hlaunched | ⟨hadmission, hrecovering⟩ | ⟨hstart, hlaunching⟩
    · exact ⟨_, TaskPool.mem_advance_self htask, hnext⟩
    · exact ⟨_, TaskPool.mem_advance_of_spawned hspawned, by simp [recoveryTask, Pc.attends]⟩
    · exact absurd (Or.inl hlaunched) honline
    · -- another loop holds the flag
      obtain ⟨other, hother, hloops⟩ := h.recovering target htarget hrecovering
      refine hloop other hother hloops.attends ?_
      rw [hadmission]
      rcases hloops.alive with ⟨_, hpc⟩ | hpc | ⟨hlaunches, _⟩
      · simp [hpc]
      · simp [hpc]
      · intro hsame
        rw [hsame] at hlaunches
        cases hlaunches
    · obtain ⟨other, hother, hlaunches⟩ := h.launching target htarget hlaunching
      refine hloop other hother (Pc.attends_of_launches hlaunches) ?_
      rw [hstart]
      intro hsame
      rw [hsame] at hlaunches
      cases hlaunches
  rcases h.due hexited target htarget hwas with hattended | hawaits
  · exact Or.inl (TaskPool.exists_advance hattended htask hself)
  · rcases hawaits.apply htask hturn with hstill | ⟨rfl, hleaves⟩
    · exact Or.inr hstill
    · cases hleaves with
      | disabled rest found hpc hfound hdisabled =>
          cases htarget.symm.trans hfound
          simp [RuntimeTarget.due, hdisabled] at hwas
      | online rest hpc => exact absurd (Or.inr ⟨rest, hpc⟩) honline
      | start hpc => exact Or.inl (hself (by simp [hpc, Pc.attends]))
      | failed error hpc =>
          rw [exited_apply htask hpc] at hexited'
          cases hexited'

theorem due_after (h : s.Recovered toml name) (hexited : s.exited = false)
    (habandons : s.abandons name toml (.task index external) = false)
    (htask : s.tasks[index]? = some task) (hturn : task.turn toml s.view external = some turn)
    (hexited' : (s.apply toml index task turn).exited = false)
    (hafter : (s.apply toml index task turn).inner.targets.get? name = some after)
    (hdue : after.due = true) :
    (∃ other ∈ (s.apply toml index task turn).tasks, other.pc.attends name = true) ∨
      (s.apply toml index task turn).Awaits name := by
  have hkept : ∀ target, s.inner.targets.get? name = some target → target.due = true →
      (∃ other ∈ (s.apply toml index task turn).tasks, other.pc.attends name = true) ∨
        (s.apply toml index task turn).Awaits name :=
    fun target => h.attends_after hexited htask hturn hexited' hafter hdue
  rcases target_step h.regular.keeps htask hturn with
    ⟨_, hsame⟩ | ⟨op, hruns, hop⟩ | ⟨change, hpc, hsame | ⟨target, config, _, htarget, hchanged⟩⟩
  · rw [hsame] at hafter
    exact hkept after hafter hdue
  · have hfound := hafter
    rw [hop] at hafter
    obtain ⟨target, htarget, rfl⟩ := Option.map_eq_some_iff.mp hafter
    cases hwas : target.due with
    | true => exact hkept target htarget hwas
    | false =>
        simp only [RuntimeTarget.due, op.run_config, op.run_stopped, op.run_online, Bool.and_eq_true,
          Bool.not_eq_true'] at hdue
        obtain ⟨⟨henabled, hrunning⟩, hoffline⟩ := hdue
        cases op with
        | start =>
            cases hlaunching : target.launching with
            | true =>
                have hflag : (TargetOp.start.run target).1.launching = true := by
                  rw [TargetOp.run_launching, hlaunching, Bool.true_or]
                obtain ⟨other, hother, hlaunches⟩ := h.launching_after htask hturn hfound hflag
                exact Or.inl ⟨other, hother, Pc.attends_of_launches hlaunches⟩
            | false =>
                exact Or.inl ⟨_, TaskPool.mem_advance_self htask, Pc.attends_of_launches
                  (Task.turn_start hturn hruns htarget henabled hoffline hlaunching)⟩
        | targetLost =>
            have honline : target.online = true := by
              simpa [RuntimeTarget.due, henabled, show target.stopped = false from hrunning] using hwas
            exact Or.inl ⟨_, TaskPool.mem_advance_self htask,
              Task.turn_targetLost hturn hruns htarget henabled hrunning honline⟩
        | markOffline =>
            have honline : target.online = true := by
              simpa [RuntimeTarget.due, henabled, show target.stopped = false from hrunning] using hwas
            have hpc : task.pc = .stopOffline name := hruns
            refine Or.inl (attends_other htask (by rw [hpc]; rfl) ?_)
            have hattended : s.attended name = true := by
              simpa [abandons, htask, htarget, hpc, henabled, honline,
                show target.stopped = false from hrunning] using habandons
            exact List.any_eq_true.mp hattended
        | stop | ensureDisabledOff => cases hrunning
        | markOnline => cases hoffline
        | _ =>
            simp [RuntimeTarget.due, henabled, show target.stopped = false from hrunning,
              show target.online = false from hoffline] at hwas
  · rw [hsame] at hafter
    exact hkept after hafter hdue
  · have hfound := hafter
    rw [hchanged] at hafter
    cases hafter
    cases hwas : target.due with
    | true => exact hkept target htarget hwas
    | false =>
        simp only [RuntimeTarget.due, Bool.and_eq_true, Bool.not_eq_true'] at hdue
        obtain ⟨⟨henabled, hrunning⟩, hoffline⟩ := hdue
        have hdisabled : target.config.disabled = true := by
          simpa [RuntimeTarget.due, hrunning, hoffline] using hwas
        rw [apply_inner hturn, hpc] at hfound
        obtain ⟨rfl, hpersisted⟩ :=
          persist_enables h.configured.agrees htarget hfound hdisabled henabled
        refine Or.inl (attends_other htask (by rw [hpc]; rfl) ?_)
        have hattended : s.attended name = true := by
          simpa [abandons, htask, htarget, hpc, hdisabled, hrunning, hoffline, hpersisted]
            using habandons
        exact List.any_eq_true.mp hattended

theorem step {label : Label} (h : s.Recovered toml name) (hparses : toml.ParsesBack)
    (hlabel : label.restructures name = false) (habandons : s.abandons name toml label = false)
    (hstep : System.step toml s label = some s') : s'.Recovered toml name := by
  have hconfigured := h.configured.step hparses hstep
  have hregular := h.regular.step hlabel hstep
  rcases step_cases hstep with
    ⟨index, external, task, turn, rfl, hexited, htask, hturn, rfl⟩ | ⟨request, rfl, hserving, rfl⟩ |
      ⟨rfl, _, rfl⟩
  · exact {
      configured := hconfigured
      regular := hregular
      exclusive := fun _ hafter => h.exclusive_after htask hturn hafter
      launching := fun _ hafter => h.launching_after htask hturn hafter
      recovering := fun _ hafter => h.recovering_after habandons htask hturn hafter
      due := fun hexited' _ hafter =>
        h.due_after hexited habandons htask hturn hexited' hafter }
  · have hmem : ∀ {P : Task → Prop}, (∃ task ∈ s.tasks, P task) →
        ∃ task ∈ s.tasks ++ [request.task], P task :=
      fun ⟨task, htask, hP⟩ => ⟨task, List.mem_append_left _ htask, hP⟩
    exact {
      configured := hconfigured
      regular := hregular
      exclusive := h.exclusive
      launching := fun target htarget hlaunching => hmem (h.launching target htarget hlaunching)
      recovering := fun target htarget hrecovering => hmem (h.recovering target htarget hrecovering)
      due := by
        intro _ target htarget hdue
        rcases h.due (exited_of_serving hserving) target htarget hdue with
          hattended | ⟨first, others, pending, hstarts, hname⟩
        · exact Or.inl (hmem hattended)
        · exact Or.inr ⟨first, _, pending, hstarts.request_step hserving request, hname⟩ }
  · exact {
      configured := hconfigured
      regular := hregular
      exclusive := h.exclusive
      launching := h.launching
      recovering := h.recovering
      due := by
        intro hexited target htarget hdue
        rcases h.due hexited target htarget hdue with
          hattended | ⟨first, others, pending, hstarts, hname⟩
        · exact Or.inl hattended
        · exact Or.inr ⟨first, others, pending, { hstarts with }, hname⟩ }

end System.Recovered

theorem System.Recovered.initial {toml : Toml} {config : DaemonConfig} {file name : String}
    (hfile : DaemonConfig.parse toml file = .ok config) :
    (System.initial config file).Recovered toml name := by
  have hinitial : ∀ target, (Inner.new config).targets.get? name = some target →
      target.online = false ∧ target.launching = false ∧ target.recovering = false := by
    intro target htarget
    obtain ⟨entry, _, hentry⟩ := List.mem_map.mp (OrderedMap.mem_of_get?_ofList htarget)
    cases hentry
    exact ⟨rfl, rfl, rfl⟩
  exact {
    configured := System.configured_initial (validate_of_parse hfile) hfile
    regular := System.Regular.initial name config file
    exclusive := fun target htarget _ => (hinitial target htarget).2.1
    launching := by
      intro target htarget hlaunching
      rw [(hinitial target htarget).2.1] at hlaunching
      cases hlaunching
    recovering := by
      intro target htarget hrecovering
      rw [(hinitial target htarget).2.2] at hrecovering
      cases hrecovering
    due := by
      intro _ target htarget _
      exact Or.inr ⟨_, _, _, System.startsUp_initial config file,
        (OrderedMap.mem_keys_iff _).mpr ⟨target, htarget⟩⟩ }

/-- A `start` that is no operation's belongs to a recovery loop. -/
theorem System.Regular.recoveryAt_start {s : System} {name : String} (h : s.Regular name)
    {task : Task} (htask : task ∈ s.tasks) (hpc : task.pc = .start name)
    (hoperates : task.operates name = false) : RecoveryAt name task.pc task.callers := by
  have hshaped := h.shaped task htask
  cases horigin : task.origin with
  | recovery =>
      rw [Task.Shaped, horigin] at hshaped
      obtain ⟨other, hat⟩ := hshaped
      generalize task.callers = callers at hat
      rw [hpc] at hat ⊢
      cases hat with
      | start delay hstarts =>
          obtain rfl : name = other := by simpa [Pc.starts] using hstarts
          exact RecoveryAt.start delay hstarts
  | startup => simp [Task.operates, horigin, hpc] at hoperates
  | request => simp [Task.operates, horigin, Task.names, hpc, Pc.names] at hoperates
  | observer connection =>
      rw [Task.Shaped, horigin, hpc] at hshaped
      obtain ⟨other, hobserves, _⟩ := hshaped
      cases hobserves

/-- A recovery loop of the target is alive: past its admission, or certain to pass it. -/
def System.RecoveryAlive (toml : Toml) (name : String) (s : System) : Prop :=
  ∃ task ∈ s.tasks, RecoveryAt name task.pc task.callers ∧
    ((∃ delay, task.pc = .recoverCheck name delay) ∨ task.pc = .start name ∨
      (task.pc = .recoverAdmit name ∧ ∀ external, ∃ turn,
        task.turn toml s.view external = some turn ∧ turn.pc = .recoverCheck name 1))

/-- In a quiet state only a recovery loop attends to a target. -/
theorem System.recoveryAlive_of_quiet {toml : Toml} {s : System} {name : String}
    (h : s.Recovered toml name) (hquiet : s.quiet name = true) {target : RuntimeTarget}
    (htarget : s.inner.targets.get? name = some target) (hdue : target.due = true) {task : Task}
    (htask : task ∈ s.tasks) (hattends : task.pc.attends name = true) : s.RecoveryAlive toml name := by
  have hquieted : ∀ other ∈ s.tasks, other.operates name = false ∧ other.pc.launches name = false ∧
      other.pc.loses name = false := by
    intro other hother
    have hnot := List.all_eq_true.mp hquiet other hother
    simp only [Bool.and_eq_true, Bool.not_eq_true'] at hnot
    exact ⟨hnot.1.1, hnot.1.2, hnot.2⟩
  obtain ⟨hoperates, hlaunches, hloses⟩ := hquieted task htask
  obtain ⟨⟨henabled, hrunning⟩, _⟩ : (target.config.disabled = false ∧ target.stopped = false) ∧
      target.online = false := by
    simpa [RuntimeTarget.due] using hdue
  cases hpc : task.pc with
  | start started =>
      obtain rfl : started = name := by simpa [hpc, Pc.attends] using hattends
      refine ⟨task, htask, ?_, Or.inr (Or.inl hpc)⟩
      exact h.regular.recoveryAt_start htask hpc hoperates
  | recoverCheck recovered delay =>
      obtain rfl : recovered = name := by simpa [hpc, Pc.attends] using hattends
      exact ⟨task, htask, h.regular.recoveryAt htask (Or.inr ⟨delay, hpc⟩), Or.inl ⟨delay, hpc⟩⟩
  | recoverAdmit recovered =>
      obtain rfl : recovered = name := by simpa [hpc, Pc.attends] using hattends
      cases hrecovering : target.recovering with
      | true =>
          -- the admission will decline, but the loop that holds the flag is past it
          obtain ⟨other, hother, hloops⟩ := h.recovering target htarget hrecovering
          refine ⟨other, hother, hloops.at_, ?_⟩
          rcases hloops.alive with hcheck | hstart | ⟨hlaunching, _⟩
          · exact Or.inl hcheck
          · exact Or.inr (Or.inl hstart)
          · rw [(hquieted other hother).2.1] at hlaunching
            cases hlaunching
      | false =>
          refine ⟨task, htask, h.regular.recoveryAt htask (Or.inl hpc),
            Or.inr (Or.inr ⟨hpc, fun external => ?_⟩)⟩
          have hadmits : (admitRecoverySection target).value = true := by
            simp [admitRecoverySection, henabled, hrunning, hrecovering]
          have hfound : s.view.inner.targets.get? recovered = some target := htarget
          simp [Task.turn, hpc, hfound, hadmits, Task.goto]
  | clearObserved lost clearing => simp_all [Pc.attends, Pc.loses, Clearing.loses]
  | clearObservedSend lost clearing => simp_all [Pc.attends, Pc.loses, Clearing.loses]
  | _ => simp_all [Pc.attends, Pc.launches]

/-- **Recovery is never lost** in a run that leaves no target to nobody: `recovering` is set only while a
loop is alive, and where no operation, launch or loss handler is in progress a target that is to run and
does not has a recovery loop. -/
theorem recovery_never_lost {toml : Toml} {config : DaemonConfig} {file name : String}
    {history : List (System × Label)} {s : System} (hparses : toml.ParsesBack)
    (hfile : DaemonConfig.parse toml file = .ok config)
    (hrun : System.Run toml config file history s)
    (hhistory : ∀ entry ∈ history, entry.2.restructures name = false)
    (habandons : ∀ entry ∈ history, entry.1.abandons name toml entry.2 = false)
    {target : RuntimeTarget} (htarget : s.inner.targets.get? name = some target) :
    (target.recovering = true → ∃ task ∈ s.tasks, task.Loops name target.online) ∧
        (s.exited = false → s.quiet name = true → target.due = true → s.RecoveryAlive toml name) := by
  have hstep : ∀ t label u, System.Recovered toml name t →
      (label.restructures name = false ∧ t.abandons name toml label = false) →
      System.step toml t label = some u → System.Recovered toml name u :=
    fun t label u ht hlabel hu => ht.step hparses hlabel.1 hlabel.2 hu
  have hrecovered := Trace.invariant (System.Recovered.initial hfile) hstep hrun
    fun entry hentry => ⟨hhistory entry hentry, habandons entry hentry⟩
  refine ⟨hrecovered.recovering target htarget, fun hexited hquiet hdue => ?_⟩
  rcases hrecovered.due hexited target htarget hdue with
    ⟨task, htask, hattends⟩ | ⟨first, others, pending, hstarts, hname⟩
  · exact System.recoveryAlive_of_quiet hrecovered hquiet htarget hdue htask hattends
  · have hfirst : first ∈ s.tasks := by
      rw [hstarts.tasks]
      exact List.mem_cons_self
    obtain ⟨result, hdone⟩ := System.origin_of_quiet hquiet hfirst hstarts.origin
    rw [hstarts.pending_of_done hdone] at hname
    cases hname

/-- After its mpv has exited `tv` has a recovery loop. -/
theorem recovery_never_lost_after_exit :
    ∃ history s, System.Run tvToml tvNode tvNode.toText history s ∧ history.map Prod.snd = lost ∧
      s.quiet "tv" = true ∧ (∃ target, s.inner.targets.get? "tv" = some target ∧ target.due = true) ∧
      s.RecoveryAlive tvToml "tv" := by
  have hlabels : (runChecked (System.step tvToml)
      (fun s label => !label.restructures "tv" && !s.abandons "tv" tvToml label)
      (System.initial tvNode tvNode.toText) lost).any
        (fun s => !s.exited && s.quiet "tv" && (s.inner.targets.get? "tv").any RuntimeTarget.due) =
          true := by
    decide +kernel
  obtain ⟨history, s, hrun, hlabels, hchecks, hresult⟩ := System.exists_run hlabels
  simp only [Bool.and_eq_true, Bool.not_eq_true', Option.any_eq_true] at hchecks hresult
  obtain ⟨⟨hexited, hquiet⟩, target, htarget, hdue⟩ := hresult
  refine ⟨history, s, hrun, hlabels, hquiet, ⟨target, htarget, hdue⟩, ?_⟩
  exact (recovery_never_lost tvToml_parsesBack tvNode_parse hrun
    (fun entry hentry => (hchecks entry hentry).1) (fun entry hentry => (hchecks entry hentry).2)
    htarget).2 hexited hquiet hdue

/-- A `stop` of the running `tv` up to its `mark_offline`, and a `start` that finds `tv` still online. -/
def startDuringStop : List Label :=
  startAttached ++ .request (.stop "tv") :: List.replicate 4 (.task 2 .ok) ++
    .request (.start "tv") :: List.replicate 2 (.task 3 .ok)

/-- The `stop` then marks `tv` offline, its observer has nothing left to report, and nobody recovers it. -/
theorem started_target_abandoned :
    ∃ history s, System.Run tvToml tvNode tvNode.toText history s ∧
      history.map Prod.snd =
        startDuringStop ++ [.task 2 .ok, .task 2 .ok, .task 1 unavailable, .task 1 .ok] ∧
      (∀ entry ∈ history, entry.2.restructures "tv" = false) ∧ s.exited = false ∧
      s.quiet "tv" = true ∧ (∃ target, s.inner.targets.get? "tv" = some target ∧ target.due = true) ∧
      ¬s.RecoveryAlive tvToml "tv" := by
  have hlabels : (runChecked (System.step tvToml) (fun _ label => !label.restructures "tv")
      (System.initial tvNode tvNode.toText)
      (startDuringStop ++ [.task 2 .ok, .task 2 .ok, .task 1 unavailable, .task 1 .ok])).any
        (fun s => !s.exited && s.quiet "tv" && (s.inner.targets.get? "tv").any RuntimeTarget.due &&
          !s.attended "tv") = true := by
    decide +kernel
  obtain ⟨history, s, hrun, hlabels, hchecks, hresult⟩ := System.exists_run hlabels
  simp only [Bool.and_eq_true, Bool.not_eq_true', Option.any_eq_true] at hchecks hresult
  obtain ⟨⟨⟨hexited, hquiet⟩, hdue⟩, hattended⟩ := hresult
  refine ⟨history, s, hrun, hlabels, hchecks, hexited, hquiet, hdue, ?_⟩
  rintro ⟨task, htask, _, halive⟩
  have hattends : task.pc.attends "tv" = true := by
    rcases halive with ⟨_, hpc⟩ | hpc | ⟨hpc, _⟩ <;> simp [hpc, Pc.attends]
  rw [System.attended, List.any_eq_true.mpr ⟨task, htask, hattends⟩] at hattended
  cases hattended

end MpvTargets

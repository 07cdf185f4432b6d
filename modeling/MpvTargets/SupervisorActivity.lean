import MpvTargets.SupervisorSteps

/-! Which targets a task works on, and at what. Tasks keep to the names they were spawned with; only
`add`, `remove` and `rename` bring names in or take them away. A target is quiet when no operation,
launch or loss handler of it is in progress. -/

namespace MpvTargets

/-- The names the rest of the current operation is about. -/
def Pc.names : Pc → List String
  | start name | launchConfig name | launchProbe name | launchSpawn name | launchOnline name => [name]
  | launchFailed name _ => [name]
  | stop name | stopQuit name | stopGone name | stopOffline name => [name]
  | clearObserved name _ | clearObservedSend name _ => [name]
  | ensureProbe name | ensureQuit name | ensureGone name | ensureOff name => [name]
  | restart name | restartStopped name | disable name | targetRecord name => [name]
  | persistLock name _ | persist name _ => [name]
  | addLock name _ _ | addCheck name _ _ | addRecord name => [name]
  | addPrepare target | addCandidate target | addPersist target _ | addCommit target _ => [target.name]
  | removeLock name | removeCheck name | removeStage name | removeCandidate name => [name]
  | removePersist name _ | removeCommit name _ | removeClean name => [name]
  | renameLock name replacement | renameCheck name replacement => [name, replacement]
  | renameMove name replacement | renameCandidate name replacement => [name, replacement]
  | renamePersist name replacement _ | renameCommit name replacement _ => [name, replacement]
  | renameRecord replacement => [replacement]
  | mpvOnline name | mpvIpc name | saveLock name | saveWrite name => [name]
  | observeConnect name | observeRead name | updateObserved name _ _ => [name]
  | updateMediaEnd name _ _ | clearMediaEnd name | mediaEndSend name | targetLost name => [name]
  | recoverAdmit name | recoverCheck name _ => [name]
  | startupNext rest => rest
  | startupProbe name rest | startupOnline name rest => name :: rest
  | startupList | done _ | panicked => []

def Caller.names : Caller → List String
  | restartStop name | restartEnsured name | setChannel name _ | disableStop name => [name]
  | removeStop name | saveChannel name | recovery name _ => [name]
  | startupEnsured rest => rest
  | startupStarted name rest => name :: rest

def Task.names (task : Task) : List String := task.pc.names ++ task.callers.flatMap Caller.names

section

variable {toml : Toml} {view : View} {task : Task} {external : External} {turn : Turn}

theorem resume_names (result : Outcome) (callers : List Caller) {name : String}
    (h : name ∈ (resume result callers).pc.names ∨
      name ∈ (resume result callers).callers.flatMap Caller.names) :
    name ∈ callers.flatMap Caller.names := by
  fun_induction resume result callers <;> simp_all [Pc.names, Caller.names]

theorem resume_spawned_names (result : Outcome) (callers : List Caller) {other : Task}
    (h : other ∈ (resume result callers).spawned) {name : String} (hname : name ∈ other.names) :
    name ∈ callers.flatMap Caller.names := by
  fun_induction resume result callers <;>
    simp_all [Task.names, Pc.names, Caller.names, recoveryTask]

theorem Pc.Next.names {pc pc' : Pc} (h : pc.Next toml view external pc') {name : String}
    (hname : name ∈ pc'.names) : name ∈ pc.names ∨ pc = .startupList := by
  cases h with
  | addCheck _ _ _ _ hchecked =>
      rw [Pc.names, addChecked_name hchecked] at hname
      exact Or.inl hname
  | startupList => exact Or.inr rfl
  | _ => simp_all [Pc.names]

/-- A task keeps to its names, but for the start of the configured targets, which takes up all. -/
theorem Task.turn_names (h : task.turn toml view external = some turn) {name : String}
    (hname : name ∈ Task.names ⟨task.origin, turn.pc, turn.callers⟩) :
    name ∈ task.names ∨ task.pc = .startupList := by
  simp only [Task.names, List.mem_append, List.mem_flatMap] at hname ⊢
  refine (Task.turn_leads h).before (fun pc => name ∈ pc.names) (fun caller => name ∈ caller.names) _
    (fun pc' hnext => hnext.names) ?_ ?_ ?_ hname
  · intro pc pc' caller hcalls hmem
    cases hcalls <;> simp_all [Pc.names, Caller.names]
  · intro result hmem
    exact List.mem_flatMap.mp (resume_names result task.callers (hmem.imp_right List.mem_flatMap.mpr))
  · rintro _ (rfl | rfl) hmem <;> cases hmem

/-- The tasks a step spawns work on names of the task. -/
theorem Task.turn_spawned_names (h : task.turn toml view external = some turn) {other : Task}
    (hother : other ∈ turn.spawned) {name : String} (hname : name ∈ other.names) :
    name ∈ task.names := by
  rcases task with ⟨origin, pc, callers⟩
  cases pc
  all_goals simp only [Task.turn] at h
  all_goals grind [Task.names, Pc.names, Caller.names, resume_spawned_names, recoveryTask,
    observerTask, onlineObservers]

end

/-- The sections on a target or its configuration, and those that restructure it. -/
def CriticalSection.actsOn (name : String) : CriticalSection → Bool
  | onTarget other _ => other = name
  | persistTargetChange other _ _ => other = name
  | critical => critical.restructures name

theorem Inner.get?_after_of_not_actsOn (toml : Toml) (inner : Inner)
    {critical : Option CriticalSection} {name : String}
    (h : critical.any (CriticalSection.actsOn name) = false) :
    (inner.after toml critical).targets.get? name = inner.targets.get? name := by
  have hrestructures : critical.any (CriticalSection.restructures name) = false := by
    rcases critical with _ | critical
    · rfl
    · cases critical <;> first | rfl | exact h
  rcases inner.get?_after toml critical hrestructures with
    heq | ⟨op, target, hcritical, _, _⟩ | ⟨change, external, target, _, _, hcritical, _, _⟩
  · exact heq
  all_goals
    rw [hcritical] at h
    simp [CriticalSection.actsOn] at h

theorem Pc.mem_names_of_actsOn {pc : Pc} {external : External} {name : String}
    (h : (pc.critical external).any (CriticalSection.actsOn name) = true) : name ∈ pc.names := by
  cases pc <;> grind [Pc.critical, Pc.names, CriticalSection.actsOn, CriticalSection.restructures]

/-- The await points of `add`, `remove` and `rename` of this name. -/
def Pc.restructures (name : String) : Pc → Bool
  | addLock added _ _ | addCheck added _ _ => added = name
  | addPrepare target | addCandidate target | addPersist target _ | addCommit target _ =>
      target.name = name
  | removeLock removed | removeCheck removed | removeStage removed => removed = name
  | removeCandidate removed | removePersist removed _ | removeCommit removed _ => removed = name
  | renameLock old replacement | renameCheck old replacement => old = name || replacement = name
  | renameMove old replacement | renameCandidate old replacement => old = name || replacement = name
  | renamePersist old replacement _ => old = name || replacement = name
  | renameCommit old replacement _ => old = name || replacement = name
  | _ => false

def Caller.restructures (name : String) : Caller → Bool
  | removeStop removed => removed = name
  | _ => false

def Task.restructures (name : String) (task : Task) : Bool :=
  task.pc.restructures name || task.callers.any (Caller.restructures name)

/-- A request to add, remove or rename this name, or to rename another target to it. -/
def Label.restructures (name : String) : Label → Bool
  | request (.add added _ _) => added = name
  | request (.remove removed) => removed = name
  | request (.rename old replacement) => old = name || replacement = name
  | _ => false

theorem Pc.restructures_critical {pc : Pc} {name : String} (h : pc.restructures name = false)
    (external : External) :
    (pc.critical external).any (CriticalSection.restructures name) = false := by
  cases pc <;> first | rfl | exact h

theorem resume_restructures (result : Outcome) (callers : List Caller) {name : String}
    (h : (resume result callers).pc.restructures name = true ∨
      ∃ caller ∈ (resume result callers).callers, caller.restructures name = true) :
    ∃ caller ∈ callers, caller.restructures name = true := by
  fun_induction resume result callers <;> simp_all [Pc.restructures, Caller.restructures]

theorem Pc.Next.restructures {toml : Toml} {view : View} {external : External} {pc pc' : Pc}
    (h : pc.Next toml view external pc') {name : String} (hpc : pc'.restructures name = true) :
    pc.restructures name = true := by
  cases h with
  | addCheck _ _ _ _ hchecked =>
      rw [Pc.restructures, addChecked_name hchecked] at hpc
      exact hpc
  | _ => first | exact hpc | cases hpc

/-- Only a request brings a task to restructure a name. -/
theorem Task.turn_restructures {toml : Toml} {view : View} {task : Task} {external : External}
    {turn : Turn} (h : task.turn toml view external = some turn) {name : String}
    (htask : task.restructures name = false) :
    Task.restructures name ⟨task.origin, turn.pc, turn.callers⟩ = false := by
  rw [Bool.eq_false_iff] at htask ⊢
  intro hafter
  refine htask ?_
  simp only [Task.restructures, Bool.or_eq_true, List.any_eq_true] at hafter ⊢
  refine ((Task.turn_leads h).before (fun pc => pc.restructures name = true)
    (fun caller => caller.restructures name = true) False ?_ ?_ ?_ ?_ hafter).resolve_right id
  · exact fun pc' hnext hpc => Or.inl (hnext.restructures hpc)
  · intro pc pc' caller hcalls hafter
    cases hcalls <;> simp_all [Pc.restructures, Caller.restructures]
  · exact fun result => resume_restructures result task.callers
  · rintro _ (rfl | rfl) hpc <;> cases hpc

theorem spawned_restructures {toml : Toml} {view : View} {task : Task} {external : External}
    {turn : Turn} (h : task.turn toml view external = some turn) {other : Task}
    (hother : other ∈ turn.spawned) (name : String) : other.restructures name = false := by
  rcases Task.turn_spawned h hother with ⟨_, rfl⟩ | ⟨_, _, _, _, _, rfl⟩ <;> rfl

/-- No task is about to restructure this name. -/
def System.Keeps (name : String) (s : System) : Prop :=
  ∀ task ∈ s.tasks, task.restructures name = false

theorem System.Keeps.step {toml : Toml} {name : String} {s s' : System} {label : Label}
    (hkeeps : s.Keeps name) (hlabel : label.restructures name = false)
    (h : System.step toml s label = some s') : s'.Keeps name := by
  rcases System.step_cases h with
    ⟨index, external, task, turn, rfl, _, htask, hturn, rfl⟩ | ⟨request, rfl, _, rfl⟩ | ⟨_, _, rfl⟩
  · refine TaskPool.forall_advance ?_ ?_ fun other hother => spawned_restructures hturn hother name
    · exact Task.turn_restructures hturn (hkeeps task (List.mem_of_getElem? htask))
    · exact fun _ other _ hother => hkeeps other (List.mem_of_getElem? hother)
  · intro other hother
    rcases List.mem_append.mp hother with hother | hother
    · exact hkeeps other hother
    · rw [List.mem_singleton.mp hother]
      cases request <;> first
        | rfl
        | simpa [Request.task, Task.restructures, Pc.restructures, Caller.restructures,
            Label.restructures] using hlabel
  · exact hkeeps

/-- A run without requests to restructure a name never restructures it. -/
theorem System.Run.keeps {toml : Toml} {config : DaemonConfig} {file name : String}
    {history : List (System × Label)} {s : System} (hrun : System.Run toml config file history s)
    (hhistory : ∀ entry ∈ history, entry.2.restructures name = false) :
    s.Keeps name ∧ ∀ entry ∈ history, entry.1.Keeps name := by
  have hstart : (System.initial config file).Keeps name := by
    intro task htask
    rw [List.mem_singleton.mp htask]
    rfl
  have hstep : ∀ t label u, System.Keeps name t → label.restructures name = false →
      System.step toml t label = some u → System.Keeps name u :=
    fun t label u ht hlabel hu => ht.step hlabel hu
  exact ⟨Trace.invariant hstart hstep hrun hhistory,
    Trace.invariant_visited hstart hstep hrun hhistory⟩

/-- A launch is in progress: from the decision of `start` to `mark_online` or `clear_launching`. -/
def Pc.launches (name : String) : Pc → Bool
  | launchConfig launched | launchProbe launched | launchSpawn launched => launched = name
  | launchOnline launched | launchFailed launched _ => launched = name
  | _ => false

def Clearing.loses : Clearing → Bool
  | targetLost _ => true
  | _ => false

/-- `on_target_lost` is in progress. -/
def Pc.loses (name : String) : Pc → Bool
  | targetLost lost => lost = name
  | clearObserved lost clearing | clearObservedSend lost clearing => lost = name && clearing.loses
  | _ => false

/-- A client's operation on the target is in progress; the start of the configured targets counts as
one on all of them. -/
def Task.operates (name : String) (task : Task) : Bool :=
  match task.origin with
  | .request => task.names.contains name
  | .startup =>
      match task.pc with
      | .done _ => false
      | _ => true
  | .recovery | .observer _ => false

/-- No operation, launch or loss handler of the target is in progress. -/
def System.quiet (name : String) (s : System) : Bool :=
  s.tasks.all fun task =>
    !task.operates name && !task.pc.launches name && !task.pc.loses name

end MpvTargets

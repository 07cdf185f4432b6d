import MpvTargets.ConfigPersistence

/-! One operation run to its end while every other task stands still, together with the directories of
the targets. The operation moves by the same turns as in the daemon; at an await point that calls the
file system, the entries under `targets/` decide which results the calls can have. -/

namespace MpvTargets

inductive FileTree where
  | file (contents : String)
  | directory (entries : List (String × FileTree))

def FileTree.child? (name : String) : FileTree → Option FileTree
  | file _ => none
  | directory entries => entries.lookup name

/-- The entries under `targets/`. -/
abbrev TargetEntries := OrderedMap String FileTree

/-- `base_mpv_conf` at volume 100. -/
def baseMpvConf (startPaused startMuted : Bool) : String :=
  "# Generated by mpv-targets. Edit this target-local file for advanced mpv settings.\n" ++
    "force-window=yes\nidle=yes\nreally-quiet=yes\npause=" ++ (if startPaused then "yes" else "no") ++
    "\nvolume=100\nmute=" ++ (if startMuted then "yes" else "no") ++ "\ndirectory-mode=recursive\n"

/-- The arguments of `add` that say what goes into the new directory. -/
structure AddArguments where
  source : Option String
  startPaused : Bool
  startMuted : Bool

/-- The directory a successful preparation leaves: the base configuration, or copies of the source's
`mpv.conf` and of what is under its `scripts`. -/
def preparedDirectory (arguments : AddArguments) (entries : TargetEntries) : Option FileTree :=
  match arguments.source with
  | none =>
      some (.directory [
        ("mpv.conf", .file (baseMpvConf arguments.startPaused arguments.startMuted)),
        ("scripts", .directory [])])
  | some source => do
      let directory ← entries.get? source
      match directory.child? "mpv.conf", directory.child? "scripts" with
      | some (.file conf), none =>
          some (.directory [("mpv.conf", .file conf), ("scripts", .directory [])])
      | some (.file conf), some (.directory scripts) =>
          some (.directory [("mpv.conf", .file conf), ("scripts", .directory scripts)])
      | _, _ => none

/-- The arguments an operation is issued with; the ones for the base configuration go to `add` alone. -/
def Request.arguments (request : Request) (startPaused startMuted : Bool) : AddArguments where
  source :=
    match request with
    | add _ source _ => source
    | _ => none
  startPaused := startPaused
  startMuted := startMuted

/-- The process, and what a recursive delete that fails leaves of a tree. -/
structure Host where
  pid : Nat
  remainder : FileTree → FileTree

/-- `.remove-{name}-{pid}`. -/
def Host.stagingName (host : Host) (name : String) : String :=
  ".remove-" ++ name ++ "-" ++ host.pid.repr

/-- What `rename` of a tree may replace: nothing, a file by a file, an empty directory by a directory. -/
def FileTree.replaces (tree : FileTree) (existing : Option FileTree) : Bool :=
  match tree, existing with
  | _, none => true
  | file _, some (file _) => true
  | directory _, some (directory []) => true
  | _, _ => false

def TargetEntries.move (entries : TargetEntries) (source destination : String) (tree : FileTree) :
    TargetEntries :=
  (entries.erase source).insert destination tree

/-- `fs::rename` as a rollback: nothing happens when the source is not there. -/
def TargetEntries.moveBack (entries : TargetEntries) (source destination : String) : TargetEntries :=
  match entries.get? source with
  | none => entries
  | some tree => entries.move source destination tree

/-- The file system calls at an await point, the rollback of a failed write with them: the entries
afterwards, or `none` when the calls cannot have this result. Rollback steps succeed. -/
def Host.call (host : Host) (toml : Toml) (arguments : AddArguments) (pc : Pc) (external : External)
    (entries : TargetEntries) : Option TargetEntries :=
  match pc with
  | .addPrepare target =>
      match entries.get? target.name, external with
      | some _, .failed (.targetExists name) => if name = target.name then some entries else none
      | none, .failed (.config _) => some entries
      | none, .ok => (preparedDirectory arguments entries).map (entries.insert target.name)
      | _, _ => none
  | .addPersist target candidate =>
      match validateAndPersist toml external candidate with
      | .ok _ => some entries
      | .error _ => some (entries.erase target.name)
  | .removeStage name =>
      match entries.get? name, external with
      | none, .ok => some entries
      | some tree, .ok =>
          if tree.replaces (entries.get? (host.stagingName name)) then
            some (entries.move name (host.stagingName name) tree)
          else none
      | some _, .failed (.config _) => some entries
      | _, _ => none
  | .removePersist name candidate =>
      match validateAndPersist toml external candidate with
      | .ok _ => some entries
      | .error _ => some (entries.moveBack (host.stagingName name) name)
  | .removeClean name =>
      match entries.get? (host.stagingName name), external with
      | none, .ok => some entries
      | some (.directory _), .ok => some (entries.erase (host.stagingName name))
      | some tree, .failed (.config _) =>
          some (entries.insert (host.stagingName name) (host.remainder tree))
      | _, _ => none
  | .renameMove name replacement =>
      match entries.get? replacement, entries.get? name, external with
      | some _, _, .failed (.targetExists other) => if other = replacement then some entries else none
      | none, some tree, .ok => some (entries.move name replacement tree)
      | none, _, .failed (.config _) => some entries
      | _, _, _ => none
  | .renamePersist name replacement candidate =>
      match validateAndPersist toml external candidate with
      | .ok _ => some entries
      | .error _ => some (entries.moveBack replacement name)
  | _ => some entries

namespace Host

variable {host : Host} {toml : Toml} {arguments : AddArguments} {external : External}
  {entries after : TargetEntries}

/-- The calls of `add` before its candidate leave a new directory or nothing. -/
theorem call_addPrepare {target : TargetConfig}
    (h : host.call toml arguments (.addPrepare target) external entries = some after) :
    (external = .ok ∧ entries.get? target.name = none ∧ ∃ directory,
      preparedDirectory arguments entries = some directory ∧
      after = entries.insert target.name directory) ∨
    ((∃ error, external = .failed error) ∧ after = entries) := by
  simp only [call] at h
  split at h
  · split_ifs at h
    cases h
    exact Or.inr ⟨⟨_, rfl⟩, rfl⟩
  · cases h
    exact Or.inr ⟨⟨_, rfl⟩, rfl⟩
  · rename_i hnone
    obtain ⟨directory, hdirectory, rfl⟩ := Option.map_eq_some_iff.mp h
    exact Or.inl ⟨rfl, hnone, directory, hdirectory, rfl⟩
  · cases h

/-- The directory of a target to be removed is moved aside, if it is there. -/
theorem call_removeStage {name : String}
    (h : host.call toml arguments (.removeStage name) external entries = some after) :
    (external = .ok ∧ entries.get? name = none ∧ after = entries) ∨
    (external = .ok ∧ (∃ tree, entries.get? name = some tree ∧
      after = entries.move name (host.stagingName name) tree)) ∨
    ((∃ error, external = .failed error) ∧ after = entries) := by
  simp only [call] at h
  split at h
  · rename_i hnone
    cases h
    exact Or.inl ⟨rfl, hnone, rfl⟩
  · rename_i tree htree
    split_ifs at h
    cases h
    exact Or.inr (Or.inl ⟨rfl, tree, htree, rfl⟩)
  · cases h
    exact Or.inr (Or.inr ⟨⟨_, rfl⟩, rfl⟩)
  · cases h

/-- What was moved aside is deleted, or its delete fails. -/
theorem call_removeClean {name : String}
    (h : host.call toml arguments (.removeClean name) external entries = some after) :
    (external = .ok ∧ after = entries.erase (host.stagingName name)) ∨
    ((∃ error, external = .failed error) ∧ ∃ tree, entries.get? (host.stagingName name) = some tree ∧
      after = entries.insert (host.stagingName name) (host.remainder tree)) := by
  simp only [call] at h
  split at h
  · rename_i hnone
    cases h
    refine Or.inl ⟨rfl, OrderedMap.ext_get? fun other => ?_⟩
    rw [OrderedMap.get?_erase]
    split_ifs with hother
    · rw [hother, hnone]
    · rfl
  · cases h
    exact Or.inl ⟨rfl, rfl⟩
  · rename_i tree _ htree
    cases h
    exact Or.inr ⟨⟨_, rfl⟩, tree, htree, rfl⟩
  · cases h

/-- The directory of a renamed target is moved, or stays. -/
theorem call_renameMove {name replacement : String}
    (h : host.call toml arguments (.renameMove name replacement) external entries = some after) :
    (external = .ok ∧ entries.get? replacement = none ∧ ∃ tree, entries.get? name = some tree ∧
      after = entries.move name replacement tree) ∨
    ((∃ error, external = .failed error) ∧ after = entries) := by
  simp only [call] at h
  split at h
  · split_ifs at h
    cases h
    exact Or.inr ⟨⟨_, rfl⟩, rfl⟩
  · rename_i hnone htree
    cases h
    exact Or.inl ⟨rfl, hnone, _, htree, rfl⟩
  · cases h
    exact Or.inr ⟨⟨_, rfl⟩, rfl⟩
  · cases h

end Host

/-- The shared state, the configuration file, the entries and the one task that moves, with the tasks it
has spawned. -/
structure Solo where
  inner : Inner
  file : String
  entries : TargetEntries
  task : Task
  spawned : List Task

namespace Solo

/-- The daemon with this task alone. -/
def system (s : Solo) : System where
  inner := s.inner
  file := s.file
  tasks := [s.task]
  outbox := []
  subscribers := []
  connections := fun _ => 0

def step (toml : Toml) (host : Host) (arguments : AddArguments) (s : Solo) (external : External) :
    Option Solo := do
  let entries ← host.call toml arguments s.task.pc external s.entries
  let turn ← s.task.turn toml s.system.view external
  let after := s.system.apply toml 0 s.task turn
  return {
    inner := after.inner
    file := after.file
    entries
    task := ⟨s.task.origin, turn.pc, turn.callers⟩
    spawned := s.spawned ++ turn.spawned }

/-- The task about to take its first step. -/
def begun (inner : Inner) (file : String) (entries : TargetEntries) (task : Task) : Solo where
  inner := inner
  file := file
  entries := entries
  task := task
  spawned := []

end Solo

/-- The runs of one task on its own. -/
abbrev Solo.Run (toml : Toml) (host : Host) (arguments : AddArguments) :=
  Trace (Solo.step toml host arguments)

namespace Solo

variable {toml : Toml} {host : Host} {arguments : AddArguments} {external : External} {s t : Solo}

theorem step_cases (h : s.step toml host arguments external = some t) :
    ∃ turn, host.call toml arguments s.task.pc external s.entries = some t.entries ∧
      s.task.turn toml s.system.view external = some turn ∧
      t.inner = s.inner.after toml (s.task.pc.critical external) ∧
      t.file = (s.system.apply toml 0 s.task turn).file ∧
      t.task = ⟨s.task.origin, turn.pc, turn.callers⟩ ∧ t.spawned = s.spawned ++ turn.spawned := by
  obtain ⟨entries, hcall, h⟩ := Option.bind_eq_some_iff.mp h
  obtain ⟨turn, hturn, h⟩ := Option.bind_eq_some_iff.mp h
  obtain rfl := Option.some.inj h
  exact ⟨turn, hcall, hturn, System.apply_inner hturn, rfl, rfl, rfl⟩

/-- A step that neither writes the file nor changes the configuration leaves both and the names of the
targets alone. -/
theorem step_keeps (h : s.step toml host arguments external = some t)
    (hconfigures : (s.task.pc.critical external).any CriticalSection.configures = false)
    (hcandidate : s.task.pc.candidate? = none) :
    t.inner.config = s.inner.config ∧ t.inner.targets.keys = s.inner.targets.keys ∧ t.file = s.file := by
  obtain ⟨turn, _, hturn, hinner, hfile, _⟩ := step_cases h
  obtain ⟨hconfig, hkeys, hkept⟩ := s.inner.after_of_not_configures toml hconfigures
  have hwrite := Task.turn_effect_of_candidate? hturn hcandidate
  rw [hinner, hfile, System.apply_file hturn hwrite]
  exact ⟨hconfig, hkeys, hkept s.file⟩

/-- The shared state agrees, and the task relies on what it has found out. -/
structure Agrees (s : Solo) : Prop where
  inner : s.inner.Agrees
  prepared : s.task.pc.Prepared s.inner

theorem Agrees.step (h : s.Agrees) (hstep : s.step toml host arguments external = some t) :
    t.Agrees := by
  obtain ⟨turn, _, hturn, hinner, _, htask, _⟩ := step_cases hstep
  constructor
  · rw [hinner]
    exact h.inner.after h.prepared external
  · rw [hinner, htask]
    exact Task.turn_prepared hturn h.prepared

theorem Run.agrees {history : List (Solo × External)} (hrun : Run toml host arguments s history t)
    (h : s.Agrees) : t.Agrees := by
  induction hrun with
  | refl => exact h
  | tail _ hstep ih => exact ih.step hstep

end Solo

/-- The number of an observer's connection is all a step takes from the connection counts. -/
theorem Task.turn_connections {toml : Toml} {view : View} {task : Task} {external : External}
    {turn : Turn} (h : task.turn toml view external = some turn) (connections : String → Nat) :
    ∃ other, task.turn toml { view with connections } external = some other ∧
      other.effect = turn.effect ∧ other.pc = turn.pc ∧ other.callers = turn.callers := by
  rcases task with ⟨origin, pc, callers⟩
  cases pc
  case launchOnline name => cases h; exact ⟨_, rfl, rfl, rfl, rfl⟩
  case startupOnline name rest => cases h; exact ⟨_, rfl, rfl, rfl, rfl⟩
  case startupNext rest => cases rest <;> exact ⟨turn, h, rfl, rfl, rfl⟩
  all_goals exact ⟨turn, h, rfl, rfl, rfl⟩

/-- The task at `index` of the daemon is where the task on its own is, over the same state and file, and
no other task holds the `mutations` mutex. -/
structure System.Hosts (s : System) (index : Nat) (solo : Solo) : Prop where
  task : s.tasks[index]? = some solo.task
  inner : s.inner = solo.inner
  file : s.file = solo.file
  others : ∀ (position : Nat) (other : Task), position ≠ index → s.tasks[position]? = some other →
    other.holdsMutations = false
  running : index ≠ 0 → s.exited = false

section

variable {toml : Toml} {host : Host} {arguments : AddArguments} {external : External} {s : System}
  {index : Nat} {solo solo' : Solo}

theorem System.Hosts.mutationsFree (h : s.Hosts index solo) :
    s.mutationsFree = solo.system.mutationsFree := by
  have hself : solo.system.mutationsFree = !solo.task.holdsMutations := by
    simp [System.mutationsFree, Solo.system]
  rw [hself, Bool.eq_iff_iff, System.mutationsFree, List.all_eq_true]
  constructor
  · exact fun hall => hall solo.task (List.mem_of_getElem? h.task)
  · intro hfree other hother
    obtain ⟨position, hposition⟩ := List.mem_iff_getElem?.mp hother
    by_cases hne : position = index
    · rw [hne, h.task] at hposition
      cases hposition
      exact hfree
    · rw [h.others position other hne hposition]
      rfl

theorem System.perform_file_congr {s t : System} (hinner : s.inner = t.inner) (hfile : s.file = t.file)
    (left right : Nat) (effect : Effect) :
    (s.perform toml left effect).file = (t.perform toml right effect).file := by
  cases effect <;> simp [System.perform, System.commit, System.send, hinner, hfile]

/-- A step of the task on its own is a step of the daemon. -/
theorem System.Hosts.step (h : s.Hosts index solo)
    (hstep : solo.step toml host arguments external = some solo') :
    ∃ s', System.step toml s (.task index external) = some s' ∧ s'.Hosts index solo' := by
  obtain ⟨turn, _, hturn, hinner, hfile, htask, _⟩ := Solo.step_cases hstep
  have hview : s.view = { solo.system.view with connections := s.connections } := by
    simp only [System.view, h.mutationsFree, h.inner]
    rfl
  obtain ⟨other, hother, heffect, hpc, hcallers⟩ := Task.turn_connections hturn s.connections
  rw [← hview] at hother
  have hexited : s.exited = false := by
    by_cases hindex : index = 0
    · have hhead : s.tasks.head? = some solo.task := by
        rw [List.head?_eq_getElem?, ← hindex]
        exact h.task
      rw [System.exited, hhead]
      cases hdone : solo.task.pc with
      | done result => simp [Task.turn, hdone] at hturn
      | panicked => simp [Task.turn, hdone] at hturn
      | _ => simp [hdone]
    · exact h.running hindex
  refine ⟨s.apply toml index solo.task other, ?_, ?_⟩
  · rw [System.step, hexited, h.task, Option.bind_some, hother]
    rfl
  · refine ⟨?_, ?_, ?_, fun position task' hne htask' => ?_, fun hne => ?_⟩
    · rw [htask, ← hpc, ← hcallers]
      exact TaskPool.getElem?_advance_self h.task
    · rw [System.apply_inner hother, h.inner, hinner]
    · rw [hfile, System.apply, System.apply, ← heffect]
      exact System.perform_file_congr h.inner h.file _ _ _
    · rcases TaskPool.getElem?_advance htask' with ⟨heq, _⟩ | ⟨_, hold⟩ | ⟨_, hnew⟩
      · exact absurd heq hne
      · exact h.others position task' hne hold
      · exact spawned_holdsMutations hother hnew
    · have hlt := (List.getElem?_eq_some_iff.mp h.task).1
      obtain ⟨first, hfirst⟩ : ∃ first, s.tasks[0]? = some first :=
        ⟨_, List.getElem?_eq_getElem (Nat.zero_lt_of_lt hlt)⟩
      have hkept : (TaskPool.advance s.tasks index ⟨solo.task.origin, other.pc, other.callers⟩
          other.spawned)[0]? = some first :=
        TaskPool.getElem?_advance_of_ne (Ne.symm hne) hfirst
      have hrunning := h.running hne
      rw [System.exited, List.head?_eq_getElem?, hfirst] at hrunning
      rw [System.exited, List.head?_eq_getElem?, System.apply_tasks, hkept]
      exact hrunning

/-- A run of an operation on its own is a run of the daemon in which only its task moves. -/
theorem System.Hosts.run {history : List (Solo × External)} (h : s.Hosts index solo)
    (hrun : Solo.Run toml host arguments solo history solo') :
    ∃ later s', Trace (System.step toml) s later s' ∧
      later.map Prod.snd = history.map (fun entry => Label.task index entry.2) ∧
      s'.Hosts index solo' := by
  induction hrun with
  | refl => exact ⟨[], s, .refl, rfl, h⟩
  | tail _ hstep ih =>
      obtain ⟨later, s', hlater, hlabels, hhosts⟩ := ih
      obtain ⟨s'', hstep', hhosts'⟩ := hhosts.step hstep
      exact ⟨_, s'', hlater.tail hstep', by simp [hlabels], hhosts'⟩

end

/-- Labels of the daemon, and then results of the operation's calls, accepted one after another. -/
theorem Solo.exists_run {toml : Toml} {config : DaemonConfig} {file : String} {labels : List Label}
    {host : Host} {arguments : AddArguments} {entries : TargetEntries} {task : Task}
    {externals : List External} {result : System → Solo → Bool}
    (h : (runChecked (System.step toml) (fun _ _ => true) (System.initial config file) labels).any (fun s =>
      (runChecked (Solo.step toml host arguments) (fun _ _ => true) (.begun s.inner s.file entries task)
        externals).any (result s)) = true) :
    ∃ history s steps t, System.Run toml config file history s ∧
      Solo.Run toml host arguments (.begun s.inner s.file entries task) steps t ∧
      steps.map Prod.snd = externals ∧ result s t = true := by
  obtain ⟨history, s, hrun, _, _, hresult⟩ := System.exists_run h
  rw [Option.any_eq_true] at hresult
  obtain ⟨t, ht, hresult⟩ := hresult
  obtain ⟨steps, hsteps, hlabels, _⟩ := exists_trace_of_runChecked ht
  exact ⟨history, s, steps, t, hrun, hsteps, hlabels, hresult⟩

end MpvTargets

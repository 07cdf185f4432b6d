import MpvTargets.SupervisorActivity

/-! The start of the configured targets. The first task works through the configured names one after
another while the observers and recovery loops of the names it has passed already run; no task but the
first touches a name it has still to come to, and clients are served once it is through. -/

namespace MpvTargets

/-- The await points of `start` on this name after its first section. -/
def Pc.started (name : String) : Pc → Bool
  | targetRecord recorded => recorded = name
  | pc => pc.launches name

/-- The await points of `start` called on this name. -/
def Pc.starts (name : String) : Pc → Bool
  | start started => started = name
  | pc => pc.started name

/-- The await points of `ensure_disabled_off` called on this name. -/
def Pc.ensures (name : String) : Pc → Bool
  | ensureProbe ensured | ensureQuit ensured | ensureGone ensured | ensureOff ensured => ensured = name
  | clearObserved ensured clearing | clearObservedSend ensured clearing =>
      ensured = name ∧ clearing = .ensureDisabledOff
  | _ => false

/-- Where the first task stands with these names still to come. The name it is about to start or to
mark online still counts. -/
inductive StartupAt : Pc → List Caller → List String → Prop where
  | list (keys : List String) : StartupAt .startupList [] keys
  | next (rest : List String) : StartupAt (.startupNext rest) [] rest
  | probe (name : String) (rest : List String) :
      StartupAt (.startupProbe name rest) [] (name :: rest)
  | online (name : String) (rest : List String) :
      StartupAt (.startupOnline name rest) [] (name :: rest)
  | start (name : String) (rest : List String) :
      StartupAt (.start name) [.startupStarted name rest] (name :: rest)
  | started {pc : Pc} {name : String} {rest : List String} (hpc : pc.started name = true)
      (hname : name ∉ rest) : StartupAt pc [.startupStarted name rest] rest
  | ensured {pc : Pc} {name : String} {rest : List String} (hpc : pc.ensures name = true)
      (hname : name ∉ rest) : StartupAt pc [.startupEnsured rest] rest
  | done (result : Outcome) : StartupAt (.done result) [] []

/-- How a name leaves those still to come: its target is disabled, is marked online or started, or the
daemon gives up. -/
inductive StartupLeaves (inner : Inner) (name : String) (pc : Pc) (turn : Turn) : Prop where
  | disabled (rest : List String) (target : RuntimeTarget) (hpc : pc = .startupNext rest)
      (htarget : inner.targets.get? name = some target) (hdisabled : target.config.disabled = true)
  | online (rest : List String) (hpc : pc = .startupOnline name rest)
  | start (hpc : pc = .start name)
  | failed (error : SupervisorError) (hturn : turn.pc = .done (.error error))

/-- What a step of the first task leaves to come: no new names, and none of those the step acted on or
spawned tasks for. -/
structure StartupTurn (toml : Toml) (inner : Inner) (task : Task) (external : External) (turn : Turn)
    (pending pending' : List String) : Prop where
  at_ : StartupAt turn.pc turn.callers pending'
  sublist : pending'.Sublist pending
  acts : ∀ name ∈ pending', (task.pc.critical external).any (CriticalSection.actsOn name) = false
  spawned : ∀ other ∈ turn.spawned, ∀ name ∈ pending', name ∉ other.names
  leaves : ∀ name ∈ pending, name ∉ pending' → StartupLeaves inner name task.pc turn

section

variable {toml : Toml} {view : View} {task : Task} {external : External} {turn : Turn}
  {pending : List String}

theorem resume_startupStarted (result : Outcome) (name : String) (rest : List String) :
    (resume result [.startupStarted name rest]).pc = .startupNext rest ∧
    (resume result [.startupStarted name rest]).callers = [] ∧
    ∀ other ∈ (resume result [.startupStarted name rest]).spawned, other.names = [name] := by
  cases result with
  | ok reply => simp [resume]
  | error error => simp [resume, recoveryTask, Task.names, Pc.names]

theorem resume_startupEnsured (result : Outcome) (rest : List String) :
    (((resume result [.startupEnsured rest]).pc = .startupNext rest ∨
      ∃ error, (resume result [.startupEnsured rest]).pc = .done (.error error)) ∧
      (resume result [.startupEnsured rest]).callers = []) ∧
    (resume result [.startupEnsured rest]).spawned = [] := by
  cases result <;> simp [resume]

theorem Pc.names_of_starts {pc : Pc} {name : String} (h : pc.starts name = true) :
    pc.names = [name] := by
  cases pc <;> simp_all [Pc.starts, Pc.started, Pc.launches, Pc.names]

theorem Pc.starts_of_started {pc : Pc} {name : String} (h : pc.started name = true) :
    pc.starts name = true := by
  cases pc <;> first | exact h | cases h

theorem Pc.names_of_ensures {pc : Pc} {name : String} (h : pc.ensures name = true) :
    pc.names = [name] := by
  cases pc <;> grind [Pc.ensures, Pc.names]

/-- `start` stays on its name until it returns. -/
theorem Task.turn_starts (h : task.turn toml view external = some turn) {name : String}
    {rest : List String} (hpc : task.pc.starts name = true)
    (hcallers : task.callers = [.startupStarted name rest]) :
    ((turn.pc.started name = true ∧ turn.callers = [.startupStarted name rest]) ∨
      (turn.pc = .startupNext rest ∧ turn.callers = [])) ∧
    ∀ other ∈ turn.spawned, other.names = [name] := by
  rcases task with ⟨origin, pc, callers⟩
  cases pc
  all_goals simp only [Pc.starts, Pc.started, Pc.launches, decide_eq_true_eq, Bool.false_eq_true] at hpc
  all_goals simp only [Task.turn] at h
  all_goals grind [Pc.started, Pc.launches, resume_startupStarted, onlineObservers, recoveryTask,
    observerTask, Task.names, Pc.names]

/-- `ensure_disabled_off` stays on its name until it returns. -/
theorem Task.turn_ensures (h : task.turn toml view external = some turn) {name : String}
    {rest : List String} (hpc : task.pc.ensures name = true)
    (hcallers : task.callers = [.startupEnsured rest]) :
    ((turn.pc.ensures name = true ∧ turn.callers = [.startupEnsured rest]) ∨
      ((turn.pc = .startupNext rest ∨ ∃ error, turn.pc = .done (.error error)) ∧
        turn.callers = [])) ∧
    turn.spawned = [] := by
  rcases task with ⟨origin, pc, callers⟩
  cases pc
  all_goals simp only [Pc.ensures, decide_eq_true_eq, Bool.false_eq_true] at hpc
  all_goals simp only [Task.turn] at h
  all_goals grind [Pc.ensures, resume_startupEnsured]

/-- A step that acts only on names of its await point leaves names apart from those alone. -/
theorem not_actsOn_of_names {pc : Pc} {name other : String} (hnames : pc.names = [name])
    (hother : other ≠ name) (external : External) :
    (pc.critical external).any (CriticalSection.actsOn other) = false := by
  rw [Bool.eq_false_iff]
  intro hacts
  have hmem := Pc.mem_names_of_actsOn hacts
  rw [hnames, List.mem_singleton] at hmem
  exact hother hmem

theorem startupAt_of_started {name : String} {rest : List String} (hname : name ∉ rest)
    (h : (turn.pc.started name = true ∧ turn.callers = [.startupStarted name rest]) ∨
      (turn.pc = .startupNext rest ∧ turn.callers = [])) :
    StartupAt turn.pc turn.callers rest := by
  rcases h with ⟨hstarted, hcallers⟩ | ⟨hpc, hcallers⟩
  · rw [hcallers]
    exact StartupAt.started hstarted hname
  · rw [hpc, hcallers]
    exact StartupAt.next rest

theorem startupTurn (h : task.turn toml view external = some turn)
    (hat : StartupAt task.pc task.callers pending) (hnodup : pending.Nodup)
    (hkeys : task.pc = .startupList → pending = view.inner.targets.keys)
    (hpending : ∀ name ∈ pending, ∃ target, view.inner.targets.get? name = some target) :
    ∃ pending', StartupTurn toml view.inner task external turn pending pending' := by
  rcases task with ⟨origin, pc, callers⟩
  cases hat with
  | list keys =>
      rw [hkeys rfl]
      cases h
      exact ⟨_, StartupAt.next _, List.Sublist.refl _, fun _ _ => rfl, by simp [Task.goto],
        fun _ hname hnot => absurd hname hnot⟩
  | next =>
      cases pending with
      | nil =>
          cases h
          exact ⟨[], StartupAt.done _, List.Sublist.refl _, by simp, by simp [Task.ret, resume],
            fun _ hname hnot => absurd hname hnot⟩
      | cons name rest =>
          obtain ⟨target, htarget⟩ := hpending name List.mem_cons_self
          simp only [Task.turn, htarget] at h
          split at h
          · rename_i hdisabled
            cases h
            refine ⟨rest, StartupAt.ensured (by simp [Pc.ensures, Task.call])
              (List.nodup_cons.mp hnodup).1, List.sublist_cons_self _ _, fun _ _ => rfl,
              by simp [Task.call], fun other hother hnot => ?_⟩
            obtain rfl := (List.mem_cons.mp hother).resolve_right hnot
            exact StartupLeaves.disabled _ target rfl htarget hdisabled
          · cases h
            exact ⟨name :: rest, StartupAt.probe name rest, List.Sublist.refl _, fun _ _ => rfl,
              by simp [Task.goto], fun _ hname hnot => absurd hname hnot⟩
  | probe name rest =>
      rw [Task.turn] at h
      rcases External.probe_eq_some h with rfl | rfl
      · exact ⟨name :: rest, StartupAt.online name rest, List.Sublist.refl _, fun _ _ => rfl,
          by simp [Task.goto], fun _ hname hnot => absurd hname hnot⟩
      · exact ⟨name :: rest, StartupAt.start name rest, List.Sublist.refl _, fun _ _ => rfl,
          by simp [Task.call], fun _ hname hnot => absurd hname hnot⟩
  | online name rest =>
      cases h
      have hname := (List.nodup_cons.mp hnodup).1
      refine ⟨rest, StartupAt.next rest, List.sublist_cons_self _ _, ?_, ?_, ?_⟩
      · intro other hother
        simp only [Pc.critical, Option.any_some, CriticalSection.actsOn, decide_eq_false_iff_not]
        exact fun heq => hname (heq ▸ hother)
      · intro other hother name' hname' hmem
        simp only [onlineObservers] at hother
        split at hother
        · simp at hother
        · split_ifs at hother
          · rw [List.mem_singleton.mp hother] at hmem
            simp only [observerTask, Task.names, Pc.names, List.flatMap_nil, List.append_nil,
              List.mem_singleton] at hmem
            exact hname (hmem ▸ hname')
          · simp at hother
      · intro other hother hnot
        obtain rfl := (List.mem_cons.mp hother).resolve_right hnot
        exact StartupLeaves.online rest rfl
  | start name rest =>
      have hname := (List.nodup_cons.mp hnodup).1
      have hstarts : Pc.starts name (.start name) = true := by simp [Pc.starts]
      obtain ⟨hnext, hspawned⟩ := Task.turn_starts h hstarts rfl
      refine ⟨rest, startupAt_of_started hname hnext, List.sublist_cons_self _ _, ?_, ?_, ?_⟩
      · intro other hother
        exact not_actsOn_of_names rfl (fun (heq : other = name) => hname (heq ▸ hother)) external
      · intro other hother name' hname' hmem
        rw [hspawned other hother, List.mem_singleton] at hmem
        exact hname (hmem ▸ hname')
      · intro other hother hnot
        obtain rfl := (List.mem_cons.mp hother).resolve_right hnot
        exact StartupLeaves.start rfl
  | started hpc hname =>
      have hstarts := Pc.starts_of_started hpc
      obtain ⟨hnext, hspawned⟩ := Task.turn_starts h hstarts rfl
      refine ⟨pending, startupAt_of_started hname hnext, List.Sublist.refl _, ?_, ?_,
        fun _ hname hnot => absurd hname hnot⟩
      · intro other hother
        exact not_actsOn_of_names (Pc.names_of_starts hstarts) (fun heq => hname (heq ▸ hother)) external
      · intro other hother name' hname' hmem
        rw [hspawned other hother, List.mem_singleton] at hmem
        exact hname (hmem ▸ hname')
  | ensured hpc hname =>
      obtain ⟨hnext, hspawned⟩ := Task.turn_ensures h hpc rfl
      have hacts : ∀ other ∈ pending,
          (pc.critical external).any (CriticalSection.actsOn other) = false := fun other hother =>
        not_actsOn_of_names (Pc.names_of_ensures hpc) (fun heq => hname (heq ▸ hother)) external
      rcases hnext with ⟨hensures, hcallers⟩ | ⟨hpc | ⟨error, hpc⟩, hcallers⟩
      · exact ⟨pending, hcallers ▸ StartupAt.ensured hensures hname, List.Sublist.refl _, hacts,
          by simp [hspawned], fun _ hname hnot => absurd hname hnot⟩
      · exact ⟨pending, hpc ▸ hcallers ▸ StartupAt.next pending, List.Sublist.refl _, hacts,
          by simp [hspawned], fun _ hname hnot => absurd hname hnot⟩
      · exact ⟨[], hpc ▸ hcallers ▸ StartupAt.done _, List.nil_sublist _, by simp, by simp,
          fun _ _ _ => StartupLeaves.failed error hpc⟩
  | done result => cases h

end

/-- The await points of `start_configured_targets`. -/
def Pc.startsUp : Pc → Bool
  | startupList | startupNext _ | startupProbe _ _ | startupOnline _ _ => true
  | _ => false

def Caller.startsUp : Caller → Bool
  | startupEnsured _ | startupStarted _ _ => true
  | _ => false

/-- `start_configured_targets` is under way in the task. -/
def Task.startsUp (task : Task) : Bool :=
  task.pc.startsUp || task.callers.any Caller.startsUp

theorem resume_startsUp (result : Outcome) (callers : List Caller)
    (h : (resume result callers).pc.startsUp = true ∨
      ∃ caller ∈ (resume result callers).callers, caller.startsUp = true) :
    ∃ caller ∈ callers, caller.startsUp = true := by
  fun_induction resume result callers <;> simp_all [Pc.startsUp, Caller.startsUp]

/-- Nobody else comes to start the configured targets. -/
theorem Task.turn_startsUp {toml : Toml} {view : View} {task : Task} {external : External}
    {turn : Turn} (h : task.turn toml view external = some turn) (htask : task.startsUp = false) :
    Task.startsUp ⟨task.origin, turn.pc, turn.callers⟩ = false := by
  rw [Bool.eq_false_iff] at htask ⊢
  intro hafter
  refine htask ?_
  simp only [Task.startsUp, Bool.or_eq_true, List.any_eq_true] at hafter ⊢
  refine ((Task.turn_leads h).before (fun pc => pc.startsUp = true)
    (fun caller => caller.startsUp = true) False ?_ ?_ ?_ ?_ hafter).resolve_right id
  · intro pc' hnext hpc
    generalize task.pc = pc at hnext ⊢
    cases hnext <;> first | exact Or.inl rfl | cases hpc
  · intro pc pc' caller hcalls hafter
    cases hcalls <;> simp_all [Pc.startsUp, Caller.startsUp]
  · exact fun result => resume_startsUp result task.callers
  · rintro _ (rfl | rfl) hpc <;> cases hpc

theorem Pc.Leads.ne_startupList {toml : Toml} {view : View} {external : External} {pc pc' : Pc}
    (h : pc.Leads toml view external pc') : pc' ≠ .startupList := by
  rintro rfl
  cases h with
  | next hnext => cases hnext
  | call hcalls => cases hcalls
  | resume hresumes => cases hresumes

/-- The first task with the names it has still to come to, which are as configured and which no other
task works on. -/
structure System.StartsUp (s : System) (first : Task) (others : List Task) (pending : List String) :
    Prop where
  tasks : s.tasks = first :: others
  origin : first.origin = .startup
  at_ : StartupAt first.pc first.callers pending
  nodup : pending.Nodup
  keys : first.pc = .startupList → pending = s.inner.targets.keys
  alone : first.pc = .startupList → others = []
  untouched : ∀ name ∈ pending, ∃ entry, s.inner.targets.get? name = some (.initial entry)
  apart : ∀ other ∈ others, other.origin ≠ .startup ∧ other.startsUp = false ∧
    ∀ name ∈ pending, name ∉ other.names

theorem spawned_apart {toml : Toml} {view : View} {task : Task} {external : External} {turn : Turn}
    (h : task.turn toml view external = some turn) {other : Task} (hother : other ∈ turn.spawned) :
    other.origin ≠ .startup ∧ other.startsUp = false := by
  rcases Task.turn_spawned h hother with ⟨_, rfl⟩ | ⟨_, _, _, _, _, rfl⟩
  · exact ⟨nofun, rfl⟩
  · exact ⟨nofun, rfl⟩

theorem System.startsUp_initial (config : DaemonConfig) (file : String) :
    (System.initial config file).StartsUp startupTask [] (Inner.new config).targets.keys where
  tasks := rfl
  origin := rfl
  at_ := StartupAt.list _
  nodup := OrderedMap.keys_nodup _
  keys := fun _ => rfl
  alone := fun _ => rfl
  untouched := by
    intro name hname
    obtain ⟨target, htarget⟩ := (OrderedMap.mem_keys_iff _).mp hname
    obtain ⟨entry, _, hentry⟩ := List.mem_map.mp (OrderedMap.mem_of_get?_ofList htarget)
    cases hentry
    exact ⟨entry, htarget⟩
  apart := by simp

namespace System.StartsUp

variable {toml : Toml} {s s' : System} {label : Label} {first : Task} {others : List Task}
  {pending : List String}

theorem view_pending (h : s.StartsUp first others pending) :
    ∀ name ∈ pending, ∃ target, s.view.inner.targets.get? name = some target := by
  intro name hname
  obtain ⟨entry, hentry⟩ := h.untouched name hname
  exact ⟨_, hentry⟩

/-- Once the first task is through, nothing is left to come. -/
theorem pending_of_done (h : s.StartsUp first others pending) {result : Outcome}
    (hdone : first.pc = .done result) : pending = [] := by
  have hat := h.at_
  rw [hdone] at hat
  generalize first.callers = callers at hat
  cases hat with
  | started hpc => cases hpc
  | ensured hpc => cases hpc
  | done => rfl

theorem pending_of_serving (h : s.StartsUp first others pending) (hserving : s.serving = true) :
    pending = [] := by
  rw [System.serving, h.tasks, List.head?_cons, Option.map_some] at hserving
  split at hserving
  · rename_i hdone
    exact h.pending_of_done (Option.some.inj hdone)
  · cases hserving

/-- A step of the first task. -/
theorem first_step (h : s.StartsUp first others pending) {external : External} {turn : Turn}
    (hturn : first.turn toml s.view external = some turn) :
    ∃ pending', (s.apply toml 0 first turn).StartsUp ⟨first.origin, turn.pc, turn.callers⟩
        (others ++ turn.spawned) pending' ∧
      ∀ name ∈ pending, name ∉ pending' → StartupLeaves s.inner name first.pc turn := by
  obtain ⟨pending', hnext⟩ := startupTurn hturn h.at_ h.nodup h.keys h.view_pending
  refine ⟨pending', ?_, hnext.leaves⟩
  have hmem : ∀ name ∈ pending', name ∈ pending := fun name => (hnext.sublist.subset ·)
  exact {
    tasks := by rw [System.apply_tasks, h.tasks]; rfl
    origin := h.origin
    at_ := hnext.at_
    nodup := hnext.sublist.nodup h.nodup
    keys := fun hlist => absurd hlist ((Task.turn_leads hturn).pc.ne_startupList)
    alone := fun hlist => absurd hlist ((Task.turn_leads hturn).pc.ne_startupList)
    untouched := by
      intro name hname
      rw [System.apply_inner hturn, Inner.get?_after_of_not_actsOn _ _ (hnext.acts name hname)]
      exact h.untouched name (hmem name hname)
    apart := by
      intro other hother
      rcases List.mem_append.mp hother with hother | hother
      · obtain ⟨horigin, hpast, hnames⟩ := h.apart other hother
        exact ⟨horigin, hpast, fun name hname => hnames name (hmem name hname)⟩
      · obtain ⟨horigin, hpast⟩ := spawned_apart hturn hother
        exact ⟨horigin, hpast, hnext.spawned other hother⟩ }

/-- A step of another task. -/
theorem other_step (h : s.StartsUp first others pending) {index : Nat} {task : Task}
    {external : External} {turn : Turn} (htask : others[index]? = some task)
    (hturn : task.turn toml s.view external = some turn) :
    (s.apply toml (index + 1) task turn).StartsUp first
      (TaskPool.advance others index ⟨task.origin, turn.pc, turn.callers⟩ turn.spawned) pending := by
  obtain ⟨horigin, hpast, hnames⟩ := h.apart task (List.mem_of_getElem? htask)
  have hpc : task.pc ≠ .startupList := by
    intro hlist
    simp [Task.startsUp, Pc.startsUp, hlist] at hpast
  have hacts : ∀ name ∈ pending,
      (task.pc.critical external).any (CriticalSection.actsOn name) = false := by
    intro name hname
    rw [Bool.eq_false_iff]
    exact fun hacts => hnames name hname (List.mem_append_left _ (Pc.mem_names_of_actsOn hacts))
  have hget : ∀ name ∈ pending, (s.apply toml (index + 1) task turn).inner.targets.get? name =
      s.inner.targets.get? name := by
    intro name hname
    rw [System.apply_inner hturn, Inner.get?_after_of_not_actsOn _ _ (hacts name hname)]
  have hpassed : first.pc ≠ .startupList := by
    intro hlist
    simp [h.alone hlist] at htask
  exact {
    tasks := by rw [System.apply_tasks, h.tasks]; rfl
    origin := h.origin
    at_ := h.at_
    nodup := h.nodup
    keys := fun hlist => absurd hlist hpassed
    alone := fun hlist => absurd hlist hpassed
    untouched := fun name hname => hget name hname ▸ h.untouched name hname
    apart := by
      refine TaskPool.forall_advance ?_ ?_ ?_
      · refine ⟨horigin, Task.turn_startsUp hturn hpast, fun name hname hmem => ?_⟩
        rcases Task.turn_names hturn hmem with hold | hlist
        · exact hnames name hname hold
        · exact hpc hlist
      · exact fun _ other _ hother => h.apart other (List.mem_of_getElem? hother)
      · intro other hother
        obtain ⟨horigin', hpast'⟩ := spawned_apart hturn hother
        exact ⟨horigin', hpast', fun name hname hmem =>
          hnames name hname (Task.turn_spawned_names hturn hother hmem)⟩ }

/-- A request comes when nothing is left to come. -/
theorem request_step (h : s.StartsUp first others pending) (hserving : s.serving = true)
    (request : Request) :
    System.StartsUp { s with tasks := s.tasks ++ [request.task] } first
      (others ++ [request.task]) pending := by
  have hpending := h.pending_of_serving hserving
  have hpassed : first.pc ≠ .startupList := by
    intro hlist
    rw [System.serving, h.tasks, List.head?_cons, Option.map_some, hlist] at hserving
    cases hserving
  exact {
    tasks := by rw [h.tasks]; rfl
    origin := h.origin
    at_ := h.at_
    nodup := h.nodup
    keys := fun hlist => absurd hlist hpassed
    alone := fun hlist => absurd hlist hpassed
    untouched := h.untouched
    apart := by
      intro other hother
      rcases List.mem_append.mp hother with hother | hother
      · exact h.apart other hother
      · rw [List.mem_singleton.mp hother, hpending]
        cases request <;> exact ⟨nofun, rfl, by simp⟩ }

end System.StartsUp

/-- The first task is at work on the configured targets or through. -/
def System.Started (s : System) : Prop := ∃ first others pending, s.StartsUp first others pending

theorem System.Started.step {toml : Toml} {s s' : System} {label : Label} (h : s.Started)
    (hstep : System.step toml s label = some s') : s'.Started := by
  obtain ⟨first, others, pending, h⟩ := h
  rcases System.step_cases hstep with
    ⟨index, external, task, turn, _, _, htask, hturn, rfl⟩ | ⟨request, _, hserving, rfl⟩ | ⟨_, _, rfl⟩
  · rw [h.tasks] at htask
    cases index with
    | zero =>
        cases htask
        obtain ⟨pending', hnext, _⟩ := h.first_step hturn
        exact ⟨_, _, pending', hnext⟩
    | succ index => exact ⟨first, _, pending, h.other_step htask hturn⟩
  · exact ⟨first, _, pending, h.request_step hserving request⟩
  · exact ⟨first, others, pending, { h with }⟩

theorem System.Run.started {toml : Toml} {config : DaemonConfig} {file : String}
    {history : List (System × Label)} {s : System} (hrun : System.Run toml config file history s) :
    s.Started ∧ ∀ entry ∈ history, entry.1.Started := by
  have hstart : (System.initial config file).Started := ⟨_, _, _, System.startsUp_initial config file⟩
  have hstep : ∀ t label u, System.Started t → True → System.step toml t label = some u →
      System.Started u := fun _ _ _ ht _ hu => ht.step hu
  exact ⟨Trace.invariant hstart hstep hrun fun _ _ => trivial,
    Trace.invariant_visited hstart hstep hrun fun _ _ => trivial⟩

end MpvTargets

import MpvTargets.ConfigPersistence
import MpvTargets.Library.Always
import MpvTargets.TaskShapes

/-! Operations one at a time. Between two of them every task has ended or waits for something outside:
for mpv to speak or to go away, for a delay to pass, for its first turn. What an operation, or such a
task when it goes on, does until every task rests again is followed on the shared state and the one task
that moves. -/

namespace MpvTargets

/-- Where a task stands that has ended or moves only when something outside happens. -/
def Pc.rests : Pc → Bool
  | observeConnect _ | observeRead _ | recoverAdmit _ | recoverCheck _ _ | done _ | panicked => true
  | _ => false

def System.atRest (s : System) : Bool := s.tasks.all fun task => task.pc.rests

/-- What calls outside the mutex may come back with, by the await point. -/
abbrev Answers := Pc → External → Bool

/-- mpv quits when it is told to, and its socket disappears. -/
def quitObeyed : Answers
  | .stopQuit _, .ok | .stopGone _, .ok | .ensureQuit _, .ok | .ensureGone _, .ok => true
  | .stopQuit _, _ | .stopGone _, _ | .ensureQuit _, _ | .ensureGone _, _ => false
  | _, _ => true

/-- From one state at rest to the next: a client's operation, or a resting task that goes on, with the
results of the calls on the way. -/
inductive Episode where
  | operation (request : Request) (externals : List External)
  | resume (index : Nat) (external : External) (externals : List External)

namespace Episode

/-- The task that moves. -/
def index (s : System) : Episode → Nat
  | operation _ _ => s.tasks.length
  | resume index _ _ => index

def first (episode : Episode) : Label :=
  match episode with
  | operation request _ => .request request
  | resume index external _ => .task index external

def externals : Episode → List External
  | operation _ externals | resume _ _ externals => externals

/-- The steps of the daemon. -/
def labels (s : System) (episode : Episode) : List Label :=
  episode.first :: episode.externals.map (.task (episode.index s))

end Episode

/-- Some task does not rest, and what the moving task awaits comes back as allowed. -/
def System.proceeds (answers : Answers) (s : System) : Label → Bool
  | .task index external =>
      !s.atRest && (s.tasks[index]?).all fun task => answers task.pc external
  | _ => false

def System.play (toml : Toml) (answers : Answers) (s : System) (episode : Episode) : Option System :=
  (s.step toml episode.first).bind fun begun =>
    (runChecked (System.step toml) (System.proceeds answers) begun
      (episode.externals.map (.task (episode.index s)))).filter System.atRest

/-- `Supervisor::new`, its clients served at once. -/
def System.ready (config : DaemonConfig) (file : String) : System :=
  { System.initial config file with tasks := [⟨.startup, .done (.ok .done), []⟩] }

/-- The runs in which every episode ends before the next one begins. -/
abbrev System.SequentialRun (toml : Toml) (answers : Answers) (config : DaemonConfig) (file : String) :=
  Trace (System.play toml answers) (System.ready config file)

section

variable {toml : Toml} {answers : Answers} {s t : System} {episode : Episode}

/-- The first step of an episode, and the steps that follow while the task is on its way. -/
theorem System.play_cases (h : s.play toml answers episode = some t) :
    ∃ begun history, s.step toml episode.first = some begun ∧
      Trace (System.step toml) begun history t ∧
      history.map Prod.snd = episode.externals.map (.task (episode.index s)) ∧
      (∀ entry ∈ history, ∃ external, entry.2 = .task (episode.index s) external ∧
        entry.1.proceeds answers entry.2 = true) ∧ t.atRest = true := by
  obtain ⟨begun, hbegun, h⟩ := Option.bind_eq_some_iff.mp h
  obtain ⟨hrun, hrest⟩ := Option.filter_eq_some_iff.mp h
  obtain ⟨history, htrace, hlabels, hchecks⟩ := exists_trace_of_runChecked hrun
  refine ⟨begun, history, hbegun, htrace, hlabels, fun entry hentry => ?_, hrest⟩
  have hmem : entry.2 ∈ history.map Prod.snd := List.mem_map_of_mem hentry
  rw [hlabels] at hmem
  obtain ⟨external, _, hlabel⟩ := List.mem_map.mp hmem
  exact ⟨external, hlabel.symm, hchecks entry hentry⟩

/-- An episode is a run of the daemon. -/
theorem System.play_trace (h : s.play toml answers episode = some t) :
    ∃ history, Trace (System.step toml) s history t ∧ history.map Prod.snd = episode.labels s := by
  obtain ⟨begun, history, hbegun, htrace, hlabels, _⟩ := System.play_cases h
  refine ⟨(s, episode.first) :: history, (Trace.single hbegun).trans htrace, ?_⟩
  rw [List.map_cons, hlabels]
  rfl

/-- The steps of an episode are its first step and those of the task on its way. -/
theorem System.play_steps (h : s.play toml answers episode = some t) {steps : List (System × Label)}
    {u : System} (hsteps : Trace (System.step toml) s steps u)
    (hlabels : steps.map Prod.snd = episode.labels s) :
    ∃ begun history, steps = (s, episode.first) :: history ∧ s.step toml episode.first = some begun ∧
      Trace (System.step toml) begun history t ∧
      (∀ entry ∈ history, ∃ external, entry.2 = .task (episode.index s) external ∧
        entry.1.proceeds answers entry.2 = true) ∧ t.atRest = true ∧ u = t := by
  obtain ⟨begun, history, hbegun, htrace, hhistory, hchecks, hrest⟩ := System.play_cases h
  have hlabels' : steps.map Prod.snd = ((s, episode.first) :: history).map Prod.snd := by
    rw [hlabels, List.map_cons, hhistory]
    rfl
  obtain ⟨rfl, rfl⟩ := hsteps.unique ((Trace.single hbegun).trans htrace) hlabels'
  exact ⟨begun, history, rfl, hbegun, htrace, hchecks, hrest, rfl⟩

/-- What every step of the daemon keeps, every episode keeps. -/
theorem System.play_keeps {Inv : System → Prop}
    (hstep : ∀ t label u, Inv t → System.step toml t label = some u → Inv u)
    (h : s.play toml answers episode = some t) (hs : Inv s) : Inv t := by
  obtain ⟨history, htrace, _⟩ := System.play_trace h
  have hstep' : ∀ t label u, Inv t → True → System.step toml t label = some u → Inv u :=
    fun t label u ht _ => hstep t label u ht
  exact Trace.invariant hs hstep' htrace fun _ _ => trivial

/-- A sequential run comes from one state at rest to another. -/
theorem System.SequentialRun.atRest {config : DaemonConfig} {file : String}
    {history : List (System × Episode)} (hrun : System.SequentialRun toml answers config file history s) :
    s.atRest = true := by
  cases hrun with
  | refl => rfl
  | tail _ hplay =>
      obtain ⟨_, _, _, _, _, _, hrest⟩ := System.play_cases hplay
      exact hrest

/-- Every episode of a sequential run begins at rest. -/
theorem System.SequentialRun.plays {config : DaemonConfig} {file : String}
    {history : List (System × Episode)} (hrun : System.SequentialRun toml answers config file history s)
    {entry : System × Episode} (hentry : entry ∈ history) :
    entry.1.atRest = true ∧ ∃ next, entry.1.play toml answers entry.2 = some next := by
  obtain ⟨left, right, rfl⟩ := List.append_of_mem hentry
  obtain ⟨hleft, next, hplay, _⟩ := hrun.split rfl
  exact ⟨System.SequentialRun.atRest hleft, next, hplay⟩

end

/-- A step of a task on its way, with the shared state it leaves. -/
def Task.Moves (toml : Toml) (answers : Answers) (before after : Inner × Task) : Prop :=
  before.2.pc.rests = false ∧ ∃ view external turn,
    view.inner = before.1 ∧ answers before.2.pc external = true ∧
    before.2.turn toml view external = some turn ∧
    after = (before.1.after toml (before.2.pc.critical external), ⟨before.2.origin, turn.pc, turn.callers⟩)

/-- The task at `index` and the shared state are these, and every other task rests. -/
structure System.Lone (index : Nat) (s : System) (point : Inner × Task) : Prop where
  task : s.tasks[index]? = some point.2
  inner : s.inner = point.1
  others : ∀ (position : Nat) (other : Task), position ≠ index → s.tasks[position]? = some other →
    other.pc.rests = true

section

variable {toml : Toml} {answers : Answers} {s t : System} {index : Nat} {external : External}
  {point : Inner × Task}

theorem Task.spawned_rests {view : View} {task : Task} {turn : Turn}
    (h : task.turn toml view external = some turn) {other : Task} (hother : other ∈ turn.spawned) :
    other.pc.rests = true := by
  rcases Task.turn_spawned h hother with ⟨_, rfl⟩ | ⟨_, _, _, _, _, rfl⟩ <;> rfl

/-- The others rest on while the task at `index` takes a step. -/
theorem System.Lone.step_cases (h : s.Lone index point)
    (hstep : System.step toml s (.task index external) = some t) :
    ∃ turn, point.2.turn toml s.view external = some turn ∧
      t.Lone index (point.1.after toml (point.2.pc.critical external),
        ⟨point.2.origin, turn.pc, turn.callers⟩) := by
  rcases System.step_cases hstep with
    ⟨_, _, task, turn, hlabel, _, htask, hturn, rfl⟩ | ⟨_, hlabel, _⟩ | ⟨hlabel, _⟩
  · cases hlabel
    rw [h.task] at htask
    cases htask
    refine ⟨turn, hturn, TaskPool.getElem?_advance_self h.task, ?_, fun position other hne hother => ?_⟩
    · rw [System.apply_inner hturn, h.inner]
    · rcases TaskPool.getElem?_advance hother with ⟨heq, _⟩ | ⟨_, hold⟩ | ⟨_, hnew⟩
      · exact absurd heq hne
      · exact h.others position other hne hold
      · exact Task.spawned_rests hturn hnew
  · cases hlabel
  · cases hlabel

theorem System.Lone.rests_of_atRest (h : s.Lone index point) :
    point.2.pc.rests = s.atRest := by
  cases hrest : point.2.pc.rests with
  | false =>
      refine (Bool.eq_false_iff.mpr fun hall => ?_).symm
      rw [List.all_eq_true.mp hall point.2 (List.mem_of_getElem? h.task)] at hrest
      cases hrest
  | true =>
      refine (List.all_eq_true.mpr fun other hother => ?_).symm
      obtain ⟨position, hposition⟩ := List.mem_iff_getElem?.mp hother
      by_cases hne : position = index
      · rw [hne, h.task] at hposition
        cases hposition
        exact hrest
      · exact h.others position other hne hposition

theorem System.Lone.moves (h : s.Lone index point)
    (hproceeds : s.proceeds answers (.task index external) = true)
    (hstep : System.step toml s (.task index external) = some t) :
    ∃ next, t.Lone index next ∧ Task.Moves toml answers point next := by
  obtain ⟨turn, hturn, hlone⟩ := h.step_cases hstep
  rw [System.proceeds, h.task, Bool.and_eq_true, Bool.not_eq_true', ← h.rests_of_atRest] at hproceeds
  exact ⟨_, hlone, hproceeds.1, s.view, external, turn, h.inner, hproceeds.2, hturn, rfl⟩

/-- Before the first step of an operation, its task is where the request puts it. -/
theorem System.lone_request (hrest : s.atRest = true) {request : Request}
    (hstep : System.step toml s (.request request) = some t) :
    t.Lone s.tasks.length (s.inner, request.task) := by
  rw [System.step] at hstep
  split at hstep
  · cases hstep
    refine ⟨by simp, rfl, fun position other hne hother => ?_⟩
    rw [List.getElem?_append] at hother
    split at hother
    · exact List.all_eq_true.mp hrest other (List.mem_of_getElem? hother)
    · rename_i hlength
      rw [List.getElem?_eq_some_iff] at hother
      obtain ⟨hlt, _⟩ := hother
      simp only [List.length_singleton] at hlt
      omega
  · cases hstep

/-- Any resting task may be the next to move. -/
theorem System.lone_resting (hrest : s.atRest = true) {task : Task} (htask : s.tasks[index]? = some task) :
    s.Lone index (s.inner, task) :=
  ⟨htask, rfl, fun _ other _ hother => List.all_eq_true.mp hrest other (List.mem_of_getElem? hother)⟩

end

/-- Await points whose section disables, removes or renames a target. -/
def Pc.commits : Pc → Bool
  | persist _ change => change = .disable
  | removeCommit _ _ | renameCommit _ _ _ => true
  | _ => false

/-- From here the task commits only in a shared state with `C`, and when it comes to rest, `Q` holds. -/
def Task.Settles (toml : Toml) (answers : Answers) (C : Inner → Prop) (Q : Inner → Task → Prop)
    (inner : Inner) (task : Task) : Prop :=
  Always (Task.Moves toml answers) (fun point =>
    (point.2.pc.commits = true → C point.1) ∧ (point.2.pc.rests = true → Q point.1 point.2)) (inner, task)

namespace Task.Settles

variable {toml : Toml} {answers : Answers} {C : Inner → Prop} {Q : Inner → Task → Prop} {inner : Inner}
  {task : Task}

theorem rest (hrests : task.pc.rests = true) (hQ : Q inner task) :
    Task.Settles toml answers C Q inner task := by
  refine Always.of_final ⟨fun hcommits => ?_, fun _ => hQ⟩ fun after hmoves => ?_
  · rcases task with ⟨origin, pc, callers⟩
    cases pc <;> cases hrests <;> cases hcommits
  · rw [hmoves.1] at hrests
    cases hrests

theorem step (hrests : task.pc.rests = false) (hcommits : task.pc.commits = true → C inner)
    (hnext : ∀ view external turn, view.inner = inner → answers task.pc external = true →
      task.turn toml view external = some turn →
      Task.Settles toml answers C Q (inner.after toml (task.pc.critical external))
        ⟨task.origin, turn.pc, turn.callers⟩) : Task.Settles toml answers C Q inner task := by
  refine Always.intro ⟨hcommits, fun h => ?_⟩ ?_
  · rw [hrests] at h
    cases h
  · rintro after ⟨_, view, external, turn, hview, hanswers, hturn, rfl⟩
    exact hnext view external turn hview hanswers hturn

/-- The steps of the daemon go along with the task. -/
theorem of_trace {s t : System} {index : Nat} {history : List (System × Label)}
    (h : Task.Settles toml answers C Q inner task) (hlone : s.Lone index (inner, task))
    (htrace : Trace (System.step toml) s history t)
    (hcond : ∀ entry ∈ history, ∃ external, entry.2 = .task index external ∧
      entry.1.proceeds answers entry.2 = true) :
    ∃ after, t.Lone index after ∧
      (after.2.pc.commits = true → C after.1) ∧ (after.2.pc.rests = true → Q after.1 after.2) := by
  have hstep : ∀ u label v point, System.Lone index u point →
      (∃ external, label = .task index external ∧ u.proceeds answers label = true) →
      System.step toml u label = some v →
      ∃ next, System.Lone index v next ∧ Task.Moves toml answers point next := by
    rintro u _ v point hpoint ⟨external, rfl, hproceeds⟩ hstep
    exact hpoint.moves hproceeds hstep
  obtain ⟨after, hafter, hreach⟩ := Trace.reaches hstep htrace hcond hlone
  exact ⟨after, hafter, h after hreach⟩

/-- When every task rests again, the task has come to what it settles. -/
theorem ends {s t : System} {index : Nat} {history : List (System × Label)}
    (h : Task.Settles toml answers C Q inner task) (hlone : s.Lone index (inner, task))
    (htrace : Trace (System.step toml) s history t)
    (hcond : ∀ entry ∈ history, ∃ external, entry.2 = .task index external ∧
      entry.1.proceeds answers entry.2 = true) (hrest : t.atRest = true) :
    ∃ after, t.tasks[index]? = some after ∧ Q t.inner after := by
  obtain ⟨point, hpoint, _, hended⟩ := h.of_trace hlone htrace hcond
  rw [← hpoint.rests_of_atRest] at hrest
  refine ⟨point.2, hpoint.task, ?_⟩
  rw [hpoint.inner]
  exact hended hrest

end Task.Settles

end MpvTargets

import MpvTargets.ClientMirror
import MpvTargets.Library.TaskPool
import MpvTargets.Library.Trace
import MpvTargets.SupervisorTasks

/-! The running daemon: the supervisor's tasks over the shared state, the configuration file and the
clients that have subscribed. One step is one task going from one await point to the next, a client
sending a request or a client subscribing; any of them may come at any time. -/

namespace MpvTargets

/-- A client that ran `snapshot_and_subscribe`, with the events its channel has received since. -/
structure Subscriber where
  snapshot : Snapshot
  events : List Event

/-- The outbox lists, in the order of their sections, the events whose send is still to come, each with
the position of the task that will send it. -/
structure System where
  inner : Inner
  file : String
  tasks : List Task
  outbox : List (Nat × Event)
  subscribers : List Subscriber
  connections : String → Nat

inductive Label where
  | task (index : Nat) (external : External)
  | request (request : Request)
  | subscribe

/-- Where a task holds the `mutations` guard. -/
def Pc.holdsMutations : Pc → Bool
  | persist _ _ => true
  | addCheck _ _ _ | addPrepare _ | addCandidate _ | addPersist _ _ | addCommit _ _ | addRecord _ => true
  | removeCheck _ | removeStage _ | removeCandidate _ | removePersist _ _ | removeCommit _ _ => true
  | removeClean _ => true
  | renameCheck _ _ | renameMove _ _ | renameCandidate _ _ | renamePersist _ _ _ => true
  | renameCommit _ _ _ | renameRecord _ => true
  | saveWrite _ => true
  | _ => false

/-- Callers that hold the `mutations` guard across the call. -/
def Caller.holdsMutations : Caller → Bool
  | removeStop _ | saveChannel _ => true
  | _ => false

def Task.holdsMutations (task : Task) : Bool :=
  task.pc.holdsMutations || task.callers.any Caller.holdsMutations

def System.mutationsFree (s : System) : Bool := s.tasks.all fun task => !task.holdsMutations

/-- The first task is `start_configured_targets`. -/
def startupTask : Task := ⟨.startup, .startupList, []⟩

/-- `main` gives up when the configured targets cannot be started. -/
def System.exited (s : System) : Bool :=
  match s.tasks.head?.map Task.pc with
  | some (.done (.error _)) => true
  | some .panicked => true
  | _ => false

/-- The server accepts clients once the configured targets are started. -/
def System.serving (s : System) : Bool :=
  match s.tasks.head?.map Task.pc with
  | some (.done (.ok _)) => true
  | _ => false

namespace System

variable (s : System)

def view : View where
  inner := s.inner
  mutationsFree := s.mutationsFree
  connections := s.connections

def online (inner : Inner) (name : String) : Bool :=
  (inner.targets.get? name).any RuntimeTarget.online

/-- A name that turns online begins its next connection. -/
def countConnections (before after : Inner) (connections : String → Nat) : String → Nat :=
  fun name =>
    if !online before name && online after name then connections name + 1 else connections name

def broadcast (events : List Event) (subscribers : List Subscriber) : List Subscriber :=
  subscribers.map fun subscriber => { subscriber with events := subscriber.events ++ events }

/-- A section replaces the shared state, and the file when it wrote one. -/
def commit (commit : Commit) : System :=
  { s with
    inner := commit.inner
    file := commit.file.getD s.file
    connections := countConnections s.inner commit.inner s.connections }

/-- Takes the event the task has put off. -/
def send (index : Nat) : System :=
  let own := (s.outbox.filter fun entry => entry.1 = index).map Prod.snd
  { s with
    outbox := s.outbox.filter fun entry => entry.1 ≠ index
    subscribers := broadcast own s.subscribers }

/-- The effect of a step of the task at `index`. -/
def perform (toml : Toml) (index : Nat) : Effect → System
  | .none => s
  | .locked critical =>
      let result := critical.run toml s.inner
      { s.commit result with subscribers := broadcast result.events s.subscribers }
  | .lockedThenSend critical =>
      let result := critical.run toml s.inner
      { s.commit result with outbox := s.outbox ++ result.events.map fun event => (index, event) }
  | .send => s.send index
  | .writeFile source => { s with file := source }

/-- The task at `index` takes its turn. -/
def apply (toml : Toml) (index : Nat) (task : Task) (turn : Turn) : System :=
  { s.perform toml index turn.effect with
    tasks := TaskPool.advance s.tasks index ⟨task.origin, turn.pc, turn.callers⟩ turn.spawned }

end System

def System.step (toml : Toml) (s : System) (label : Label) : Option System :=
  match label with
  | .task index external =>
      if s.exited then none
      else
        (s.tasks[index]?).bind fun task =>
          (task.turn toml s.view external).map (s.apply toml index task)
  | .request request =>
      if s.serving then some { s with tasks := s.tasks ++ [request.task] } else none
  | .subscribe =>
      if s.serving then
        some { s with subscribers := s.subscribers ++ [⟨snapshotFrom s.inner, []⟩] }
      else none

/-- The daemon right after `Supervisor::new`. -/
def System.initial (config : DaemonConfig) (file : String) : System where
  inner := .new config
  file := file
  tasks := [startupTask]
  outbox := []
  subscribers := []
  connections := fun _ => 0

/-- The runs of the daemon from its start on a configuration, with what happened in them. -/
abbrev System.Run (toml : Toml) (config : DaemonConfig) (file : String)
    (history : List (System × Label)) (s : System) : Prop :=
  Trace (System.step toml) (System.initial config file) history s

end MpvTargets

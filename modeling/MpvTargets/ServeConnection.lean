import MpvTargets.Dispatch
import MpvTargets.SupervisorSystem

/-! The server's end of one client connection: `serve_connection` with the dispatches it spawns, its
channel for their responses and its receiver of the supervisor's events. -/

namespace MpvTargets

/-- The text of a supervisor error. The daemon model keeps no text for a failed serialization. -/
def SupervisorError.message (serialization : String) : SupervisorError → String
  | unknownTarget name => "unknown target: " ++ name
  | targetDisabled => "target is disabled; enable it before starting"
  | targetAlreadyStopped => "target is already stopped"
  | targetNotRunning => "target is not running"
  | renameRequiresStopped => "target must be stopped before rename"
  | ipcUnavailable name => "mpv did not create its configured IPC socket: " ++ name
  | mpvRejected message => "mpv rejected the command: " ++ message
  | launch source => "cannot launch mpv: " ++ source
  | config source => "cannot persist configuration: " ++ source
  | configSerialization => "configuration serialization failed: " ++ serialization
  | targetExists name => "target already exists: " ++ name
  | channelExists channel => "channel already exists: " ++ channel
  | invalidPlaylist => "mpv returned an invalid playlist"

namespace Protocol

/-- The first half of `dispatch_request`: a request that passed its checks, or the response that refuses
it. The texts of the JSON reader's errors come from outside. -/
def acceptRequest (source : Except String Value) (unreadable : String) : Except Response Request :=
  match source with
  | .error error => .error (.error "" ⟨.invalidRequest, error⟩)
  | .ok value =>
      let id := ((value.get "id").bind Value.asStr).getD ""
      match Request.decode value with
      | none => .error (.error id ⟨.invalidRequest, unreadable⟩)
      | some request =>
          match request.validate with
          | .error error => .error (.error request.id ⟨.invalidRequest, error.message⟩)
          | .ok () => .ok request

/-- The data of a success. What mpv returned, the number of saved items and the listed channels are
`found`. -/
def Operation.successData (operation : Operation) (target : String) (reply : MpvTargets.Reply)
    (found : Value) : Value :=
  match operation with
  | .mpv _ _ => found
  | .targetSaveChannel channel _ => .object [("channel", .string channel), ("items", found)]
  | .nodeListChannels => .object [("channels", found)]
  | _ => (operation.data target reply).getD .null

/-- The second half of `dispatch_request`. -/
def Request.respond (request : Request) (found : Value) (serialization : String) :
    MpvTargets.Outcome → Response
  | .ok reply =>
      .success request.id (request.operation.successData (request.target.getD "") reply found)
  | .error error => .error request.id ⟨errorCode error, error.message serialization⟩

end Protocol

namespace Server

open Protocol

/-- The capacity of the supervisor's broadcast channel. -/
def changesCapacity : Nat := 128

/-- The capacity of the channel for responses. -/
def responsesCapacity : Nat := 32

/-- How far a spawned `dispatch_request` is. -/
inductive Stage where
  | received
  | operating (request : Protocol.Request)
  | replying (response : Response)
  | sent (response : Response)
  | panicked

/-- A spawned `dispatch_request`: the text it was given, and the position of the daemon's task that runs its
operation. -/
structure Worker where
  source : Except String Value
  task : Option Nat
  stage : Stage

inductive ServerText where
  | event (event : Event)
  | response (response : Response)

def ServerText.encode : ServerText → Value
  | event message => message.encode
  | response message => message.encode

/-- `serve_connection`: its subscription with the number of events it has received, the dispatches in the
order of their texts, the channel for responses, and what it has written. -/
structure Connection where
  subscriber : Nat
  received : Nat
  workers : List Worker
  responses : List Response
  written : List ServerText
  ended : Bool

/-- The connection with its first message written. -/
def Connection.subscribed (subscriber : Nat) (snapshot : Snapshot) : Connection where
  subscriber := subscriber
  received := 0
  workers := []
  responses := []
  written := [.event (.snapshot snapshot)]
  ended := false

/-- What `events.recv()` comes back with: a receiver that is more events behind than the channel holds has
lagged. -/
inductive Received where
  | pending
  | event (event : Event)
  | lagged

def receiveEvent (sent : List Event) (received : Nat) : Received :=
  if received + changesCapacity < sent.length then .lagged
  else match sent[received]? with
    | some event => .event event
    | none => .pending

namespace Connection

variable (c : Connection)

def setWorker (position : Nat) (worker : Worker) (stage : Stage) : Connection :=
  { c with workers := c.workers.set position { worker with stage } }

/-- `reader.next()` yields a text. -/
def readText (source : Except String Value) : Option Connection :=
  if c.ended then none else some { c with workers := c.workers ++ [⟨source, none, .received⟩] }

/-- `reader.next()` yields a close message, an error or nothing, or a write fails. -/
def hangUp : Option Connection := if c.ended then none else some { c with ended := true }

/-- `receive_responses.recv()`. -/
def writeResponse : Option Connection :=
  match c.responses with
  | [] => none
  | response :: responses =>
      if c.ended then none else some { c with responses, written := c.written ++ [.response response] }

/-- `events.recv()`. -/
def writeEvent (sent : List Event) : Option Connection :=
  if c.ended then none
  else match receiveEvent sent c.received with
    | .pending => none
    | .lagged => some { c with ended := true }
    | .event event =>
        some { c with received := c.received + 1, written := c.written ++ [.event event] }

/-- `response_sender.send(response)`; it fails once the connection has ended. -/
def sendResponse (position : Nat) : Option Connection := do
  let worker ← c.workers[position]?
  match worker.stage with
  | .replying response =>
      if c.ended then some (c.setWorker position worker (.sent response))
      else if c.responses.length < responsesCapacity then
        some { c.setWorker position worker (.sent response) with responses := c.responses ++ [response] }
      else none
  | _ => none

end Connection

/-- A spawned dispatch begins: it answers at once, or its operation becomes a task of the daemon. -/
def dispatch (toml : Toml) (daemon : System) (c : Connection) (position : Nat) (unreadable : String) :
    Option (System × Connection) := do
  let worker ← c.workers[position]?
  match worker.stage with
  | .received =>
      match acceptRequest worker.source unreadable with
      | .error response => some (daemon, c.setWorker position worker (.replying response))
      | .ok request =>
          match dispatchOperation request with
          | .operation operation =>
              let daemon' ← System.step toml daemon (.request operation)
              some (daemon', c.setWorker position { worker with task := some daemon.tasks.length }
                (.operating request))
          | .listChannels => some (daemon, c.setWorker position worker (.operating request))
          | .panicked => some (daemon, c.setWorker position worker .panicked)
  | _ => none

/-- What the operation of a dispatch came back with. `list_channels` runs in no task of the daemon, and its
result comes from outside. -/
def operationResult (daemon : System) (task : Option Nat) (listed : MpvTargets.Outcome) :
    Option MpvTargets.Outcome :=
  match task with
  | none => some listed
  | some index =>
      match (daemon.tasks[index]?).map Task.pc with
      | some (.done result) => some result
      | _ => none

/-- The operation of a dispatch has returned. -/
def answer (daemon : System) (c : Connection) (position : Nat) (listed : MpvTargets.Outcome) (found : Value)
    (serialization : String) : Option Connection := do
  let worker ← c.workers[position]?
  match worker.stage with
  | .operating request =>
      let result ← operationResult daemon worker.task listed
      some (c.setWorker position worker (.replying (request.respond found serialization result)))
  | _ => none

section

variable {toml : Toml} {daemon daemon' : System} {c c' : Connection} {position : Nat}

theorem receiveEvent_event {sent : List Event} {received : Nat} {event : Event}
    (h : receiveEvent sent received = .event event) : sent[received]? = some event := by
  unfold receiveEvent at h
  split_ifs at h
  split at h
  · rename_i found hfound
    cases h
    exact hfound
  · cases h

/-- A sent response leaves its dispatch. -/
theorem Connection.sendResponse_cases (h : c.sendResponse position = some c') :
    ∃ after responses, c' = { c with workers := c.workers.set position after, responses } := by
  obtain ⟨worker, _, h⟩ := Option.bind_eq_some_iff.mp h
  split at h
  · split_ifs at h
    · cases h
      exact ⟨_, c.responses, rfl⟩
    · cases h
      exact ⟨_, _, rfl⟩
  · cases h

/-- A dispatch begins at most once, and it asks the daemon for at most one operation. -/
theorem dispatch_cases {unreadable : String}
    (h : dispatch toml daemon c position unreadable = some (daemon', c')) :
    ∃ worker after, c' = { c with workers := c.workers.set position after } ∧
      c.workers[position]? = some worker ∧ worker.stage = .received ∧ after.stage ≠ .received ∧
      (daemon' = daemon ∨ ∃ request, System.step toml daemon (.request request) = some daemon') := by
  obtain ⟨worker, hworker, h⟩ := Option.bind_eq_some_iff.mp h
  split at h
  · rename_i hreceived
    split at h
    · cases h
      exact ⟨worker, _, rfl, hworker, hreceived, nofun, Or.inl rfl⟩
    · split at h
      · obtain ⟨later, hlater, h⟩ := Option.bind_eq_some_iff.mp h
        cases h
        exact ⟨worker, _, rfl, hworker, hreceived, nofun, Or.inr ⟨_, hlater⟩⟩
      · cases h
        exact ⟨worker, _, rfl, hworker, hreceived, nofun, Or.inl rfl⟩
      · cases h
        exact ⟨worker, _, rfl, hworker, hreceived, nofun, Or.inl rfl⟩
  · cases h

theorem answer_cases {listed : MpvTargets.Outcome} {found : Value} {serialization : String}
    (h : answer daemon c position listed found serialization = some c') :
    ∃ after, c' = { c with workers := c.workers.set position after } := by
  obtain ⟨worker, _, h⟩ := Option.bind_eq_some_iff.mp h
  split at h
  · obtain ⟨_, _, h⟩ := Option.bind_eq_some_iff.mp h
    cases h
    exact ⟨_, rfl⟩
  · cases h

end

end Server

end MpvTargets

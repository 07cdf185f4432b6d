import MpvTargets.SupervisorMoves

/-! One command on a connection of its own to an mpv socket. mpv answers it with one reply line, and
sends its events on the same connection whenever they happen; `ipc_command` takes the first line for
the reply. -/

namespace MpvTargets

/-- What becomes of a connection to an mpv socket: whether it comes about, whether a line can be written
to it, and the lines mpv then sends, `none` for a line that is not JSON. -/
structure IpcSocket where
  connects : Bool
  writes : Bool
  lines : Value → List (Option Value)

/-- The failing `error` of a message. -/
def rejects (message : Value) : Bool :=
  ((message.get "error").bind Value.asStr).any fun error => error ≠ "success"

/-- `ipc_command`; `render` is how `serde_json` prints a value. -/
def ipcCommand (render : Value → String) (socket : IpcSocket) (name : String) (command : Value) :
    Except SupervisorError Value :=
  if !socket.connects || !socket.writes then .error (.ipcUnavailable name)
  else
    match socket.lines command with
    | some response :: _ =>
        if rejects response then .error (.mpvRejected (render response))
        else .ok ((response.get "data").getD .null)
    -- The connection ends without a line, or with one that is not JSON.
    | _ => .error (.ipcUnavailable name)

/-- A line mpv sends on its own. -/
structure EventLine where
  message : Value
  event_isSome : (message.get "event").isSome = true

/-- The line that answers a command. -/
structure ReplyLine where
  message : Value
  error : String
  error_eq : message.get "error" = some (.string error)
  event_eq : message.get "event" = none

/-- What a reply says about its command. -/
def ReplyLine.outcome (render : Value → String) (reply : ReplyLine) : Except SupervisorError Value :=
  if reply.error = "success" then .ok ((reply.message.get "data").getD .null)
  else .error (.mpvRejected (render reply.message))

/-- A live mpv: it answers every command, with events before and after the reply. -/
def IpcSocket.answering (before : List EventLine) (reply : ReplyLine) (after : List EventLine) :
    IpcSocket where
  connects := true
  writes := true
  lines _ := before.map (fun event => some event.message) ++
    some reply.message :: after.map fun event => some event.message

theorem ReplyLine.rejects_eq (reply : ReplyLine) :
    rejects reply.message = decide (reply.error ≠ "success") := by
  rw [rejects, reply.error_eq, Option.bind_some, Value.asStr, Option.any_some]

section

variable {render : Value → String} {name : String} {command : Value} {before after : List EventLine}
  {reply : ReplyLine}

/-- The reply decides when it comes first. -/
theorem ipcCommand_reply_first :
    ipcCommand render (.answering [] reply after) name command = reply.outcome render := by
  by_cases h : reply.error = "success"
  · simp [ipcCommand, IpcSocket.answering, ReplyLine.outcome, ReplyLine.rejects_eq, h]
  · simp [ipcCommand, IpcSocket.answering, ReplyLine.outcome, ReplyLine.rejects_eq, h]

/-- An event that comes first decides in its place. -/
theorem ipcCommand_event_first {event : EventLine} :
    ipcCommand render (.answering (event :: before) reply after) name command =
      if rejects event.message then .error (.mpvRejected (render event.message))
      else .ok ((event.message.get "data").getD .null) := by
  simp [ipcCommand, IpcSocket.answering]

end

/-- A command comes back with what its reply says exactly when no event precedes the reply, or the first
that does happens to read like the reply. -/
theorem ipcCommand_eq_outcome_iff (render : Value → String) (name : String) (command : Value)
    (before after : List EventLine) (reply : ReplyLine) :
    ipcCommand render (.answering before reply after) name command = reply.outcome render ↔
      ∀ event, before.head? = some event →
        (reply.error = "success" ∧ rejects event.message = false ∧
          (event.message.get "data").getD .null = (reply.message.get "data").getD .null) ∨
        (reply.error ≠ "success" ∧ rejects event.message = true ∧
          render event.message = render reply.message) := by
  cases before with
  | nil => simp [ipcCommand_reply_first]
  | cons event before =>
      rw [ipcCommand_event_first, ReplyLine.outcome]
      simp only [List.head?_cons, Option.some.injEq, forall_eq']
      by_cases hreply : reply.error = "success" <;> cases hevent : rejects event.message <;>
        simp [hreply]

/-- mpv becomes idle while the command is on its way, and then rejects it: the command counts as
accepted. -/
theorem ipcCommand_ne_outcome :
    ¬∀ (render : Value → String) (name : String) (command : Value)
        (before after : List EventLine) (reply : ReplyLine),
      ipcCommand render (.answering before reply after) name command = reply.outcome render := by
  intro h
  let idle : EventLine := ⟨.object [("event", .string "idle")], rfl⟩
  let rejected : ReplyLine :=
    ⟨.object [("error", .string "error running command")], "error running command", rfl, rfl⟩
  have hquit := h (fun _ => "") "tv" (.object [("command", .array [.string "quit"])]) [idle] [] rejected
  cases hquit

/-- A command whose value is not used, as its caller awaits it. -/
def External.ofCommand : Except SupervisorError Value → External
  | .ok _ => .ok
  | .error error => .failed error

/-- A `stop` goes on exactly when its `quit` came back without an error. -/
theorem stopQuit_goes_on_iff (toml : Toml) (view : View) {task : Task} {name : String}
    (hpc : task.pc = .stopQuit name) (result : Except SupervisorError Value) :
    (task.turn toml view (.ofCommand result)).map Turn.pc = some (.stopGone name) ↔
      ∃ value, result = .ok value := by
  cases result with
  | ok value =>
      have hturn : task.turn toml view (.ofCommand (.ok value)) =
          some (task.goto .none (.stopGone name)) := by
        rw [Task.turn, hpc]
        rfl
      rw [hturn]
      exact ⟨fun _ => ⟨value, rfl⟩, fun _ => rfl⟩
  | error error =>
      have hturn : task.turn toml view (.ofCommand (.error error)) =
          some (task.ret .none [] (.error error)) := by
        rw [Task.turn, hpc]
        rfl
      rw [hturn]
      constructor
      · intro h
        have hresumes := resume_resumes (.error error) task.callers
        rw [show (resume (.error error) task.callers).pc = .stopGone name from Option.some.inj h]
          at hresumes
        cases hresumes
      · rintro ⟨value, h⟩
        cases h

/-- With no event before the reply a `stop` goes on exactly when mpv accepted its `quit`. -/
theorem stopQuit_follows_reply (toml : Toml) (view : View) {task : Task} {name : String}
    (hpc : task.pc = .stopQuit name) (render : Value → String) (command : Value)
    (reply : ReplyLine) (after : List EventLine) :
    (task.turn toml view (.ofCommand
        (ipcCommand render (.answering [] reply after) name command))).map Turn.pc =
      some (.stopGone name) ↔ reply.error = "success" := by
  rw [stopQuit_goes_on_iff toml view hpc, ipcCommand_reply_first, ReplyLine.outcome]
  by_cases h : reply.error = "success" <;> simp [h]

end MpvTargets

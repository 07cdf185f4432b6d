import MpvTargets.RequestValidation
import MpvTargets.SupervisorTasks

/-! From an accepted request to the supervisor's operation, and from the operation's result back to the
response. -/

namespace MpvTargets

/-- What `dispatch_operation` calls; `panicked` is a failed `expect("validated target operation")`. -/
inductive Dispatched where
  | operation (request : Request)
  | listChannels
  | panicked
  deriving DecidableEq, Repr

namespace Protocol

/-- `target.expect("validated target operation")`. -/
def Request.expectTarget (request : Request) (operation : String → MpvTargets.Request) : Dispatched :=
  match request.target with
  | none => .panicked
  | some target => .operation (operation target)

def dispatchOperation (request : Request) : Dispatched :=
  match request.operation with
  | .targetAdd source enable _ _ => request.expectTarget fun target => .add target source enable
  | .targetStart => request.expectTarget .start
  | .targetRemove => request.expectTarget .remove
  | .targetStop => request.expectTarget .stop
  | .targetRestart => request.expectTarget .restart
  | .targetEnable => request.expectTarget .enable
  | .targetDisable => request.expectTarget .disable
  | .targetSetChannel channel restart =>
      request.expectTarget fun target => .setChannel target channel restart
  | .nodeListChannels => .listChannels
  | .targetSaveChannel _ _ => request.expectTarget .saveChannel
  | .targetRename name => request.expectTarget fun target => .rename target name
  | .mpv _ _ => request.expectTarget .mpv

/-- The data of a success, where mpv has no part in it. -/
def Operation.data (operation : Operation) (target : String) (reply : Reply) : Option Value :=
  match operation, reply with
  | .targetAdd source _ _ _, .record record =>
      some (.object [
        ("channel", .optional .string record.channel),
        ("copied", .array (if source.isSome then [.string "mpv.conf", .string "scripts/"]
          else [.string "mpv.conf"])),
        ("disabled", .bool record.disabled),
        ("name", .string record.name),
        ("online", .bool record.online),
        ("stopped", .bool record.stopped)])
  | .targetStart, .record record | .targetStop, .record record | .targetRestart, .record record =>
      some (.object [("online", .bool record.online), ("stopped", .bool record.stopped)])
  | .targetEnable, .record record | .targetDisable, .record record =>
      some (.object [("disabled", .bool record.disabled)])
  | .targetRemove, .done => some (.object [("removed", .string target)])
  | .targetSetChannel channel restart, .record record =>
      some (.object [
        ("channel", .optional .string channel),
        ("restart_completed", .bool (restart && record.online)),
        ("restart_requested", .bool restart)])
  | .targetRename _, .record record =>
      some (.object [("from", .string target), ("to", .string record.name)])
  | _, _ => none

def errorCode : SupervisorError → ErrorCode
  | .unknownTarget _ => .unknownTarget
  | .targetDisabled => .targetDisabled
  | .targetAlreadyStopped => .targetAlreadyStopped
  | .targetNotRunning => .targetNotRunning
  | .renameRequiresStopped => .configRejected
  | .ipcUnavailable _ => .ipcLost
  | .mpvRejected _ => .mpvRejected
  | .launch _ => .targetOffline
  | .config _ | .configSerialization => .configRejected
  | .targetExists _ => .configRejected
  | .channelExists _ => .configRejected
  | .invalidPlaylist => .mpvRejected

/-- The response, less the text of an error. -/
def Operation.answer (operation : Operation) (target : String) : Outcome → Option (Except ErrorCode Value)
  | .ok reply => (operation.data target reply).map .ok
  | .error error => some (.error (errorCode error))

end Protocol

end MpvTargets

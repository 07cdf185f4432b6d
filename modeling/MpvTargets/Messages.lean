import MpvTargets.ClientMirror

/-! Requests and responses in their JSON form, and how the client tells responses from events. `serde`
writes the tag of an operation or response beside its fields. Decoding what was encoded gives it
back, and no response reads as an event. A text stands for its JSON value: that the text keeps finite
numbers is assumed. The decoders read objects, which both sides write; `serde` would also take the fields
of a struct from an array. -/

namespace MpvTargets.Protocol

/-- The explicit service vocabulary and the restricted native mpv escape hatch. -/
inductive Operation where
  | targetAdd (source : Option String) (enable startPaused startMuted : Bool)
  | targetRemove
  | targetStart
  | targetStop
  | targetRestart
  | targetEnable
  | targetDisable
  | targetRename (name : String)
  | targetSetChannel (channel : Option String) (restart : Bool)
  | targetSaveChannel (channel : String) (overwrite : Bool)
  | nodeListChannels
  | mpv (command : String) (args : List Value)
  deriving Repr

/-- A client request; its response carries the same id. -/
structure Request where
  id : String
  target : Option String
  operation : Operation
  deriving Repr

inductive ErrorCode where
  | invalidRequest
  | unknownTarget
  | targetAlreadyStopped
  | targetNotRunning
  | targetDisabled
  | configRejected
  | targetOffline
  | mpvRejected
  | timeout
  | ipcLost
  | shuttingDown
  deriving DecidableEq, Repr

structure ErrorResponse where
  code : ErrorCode
  message : String
  deriving DecidableEq, Repr

/-- A terminal response. -/
inductive Response where
  | success (id : String) (data : Value)
  | error (id : String) (body : ErrorResponse)
  deriving Repr

def Response.id : Response → String
  | success id _ | error id _ => id

/-- `skip_serializing_if = "is_true"`. -/
def unlessTrue (key : String) (value : Bool) : List (String × Value) :=
  if value then [] else [(key, .bool value)]

def Operation.encode : Operation → Value
  | targetAdd source enable startPaused startMuted =>
      .object ([
        ("enable", .bool enable),
        ("from", .optional .string source),
        ("kind", .string "target_add")] ++
        unlessTrue "start_muted" startMuted ++ unlessTrue "start_paused" startPaused)
  | targetRemove => .object [("kind", .string "target_remove")]
  | targetStart => .object [("kind", .string "target_start")]
  | targetStop => .object [("kind", .string "target_stop")]
  | targetRestart => .object [("kind", .string "target_restart")]
  | targetEnable => .object [("kind", .string "target_enable")]
  | targetDisable => .object [("kind", .string "target_disable")]
  | targetRename name => .object [("kind", .string "target_rename"), ("name", .string name)]
  | targetSetChannel channel restart =>
      .object [
        ("channel", .optional .string channel),
        ("kind", .string "target_set_channel"),
        ("restart", .bool restart)]
  | targetSaveChannel channel overwrite =>
      .object [
        ("channel", .string channel),
        ("kind", .string "target_save_channel"),
        ("overwrite", .bool overwrite)]
  | nodeListChannels => .object [("kind", .string "node_list_channels")]
  | mpv command args =>
      .object [("args", .array args), ("command", .string command), ("kind", .string "mpv")]

/-- A request without a target has no such member. -/
def Request.encode (request : Request) : Value :=
  .object ([("id", .string request.id), ("operation", request.operation.encode)] ++
    (request.target.map fun target => ("target", .string target)).toList)

def ErrorCode.encode : ErrorCode → Value
  | invalidRequest => .string "invalid_request"
  | unknownTarget => .string "unknown_target"
  | targetAlreadyStopped => .string "target_already_stopped"
  | targetNotRunning => .string "target_not_running"
  | targetDisabled => .string "target_disabled"
  | configRejected => .string "config_rejected"
  | targetOffline => .string "target_offline"
  | mpvRejected => .string "mpv_rejected"
  | timeout => .string "timeout"
  | ipcLost => .string "ipc_lost"
  | shuttingDown => .string "shutting_down"

def ErrorResponse.encode (error : ErrorResponse) : Value :=
  .object [("code", error.code.encode), ("message", .string error.message)]

def Response.encode : Response → Value
  | success id data =>
      .object [("data", data), ("id", .string id), ("result", .string "success")]
  | error id body =>
      .object [("error", body.encode), ("id", .string id), ("result", .string "error")]

/-- A field with `#[serde(default)]`. -/
def defaultField {α : Type} (decode : Value → Option α) (default : α) (value : Value)
    (key : String) : Option α :=
  match value.get key with
  | none => some default
  | some present => decode present

def Operation.decode (value : Value) : Option Operation :=
  match (value.get "kind").bind Value.asStr with
  | some "target_add" => do
      let source ← optionalField Value.asStr value "from"
      let enable ← requiredField Value.asBool value "enable"
      let startPaused ← defaultField Value.asBool true value "start_paused"
      let startMuted ← defaultField Value.asBool true value "start_muted"
      return .targetAdd source enable startPaused startMuted
  | some "target_remove" => some .targetRemove
  | some "target_start" => some .targetStart
  | some "target_stop" => some .targetStop
  | some "target_restart" => some .targetRestart
  | some "target_enable" => some .targetEnable
  | some "target_disable" => some .targetDisable
  | some "target_rename" => do
      let name ← requiredField Value.asStr value "name"
      return .targetRename name
  | some "target_set_channel" => do
      let channel ← optionalField Value.asStr value "channel"
      let restart ← requiredField Value.asBool value "restart"
      return .targetSetChannel channel restart
  | some "target_save_channel" => do
      let channel ← requiredField Value.asStr value "channel"
      let overwrite ← requiredField Value.asBool value "overwrite"
      return .targetSaveChannel channel overwrite
  | some "node_list_channels" => some .nodeListChannels
  | some "mpv" => do
      let command ← requiredField Value.asStr value "command"
      let args ← defaultField Value.asArray [] value "args"
      return .mpv command args
  | _ => none

def Request.decode (value : Value) : Option Request := do
  let id ← requiredField Value.asStr value "id"
  let target ← optionalField Value.asStr value "target"
  let operation ← requiredField Operation.decode value "operation"
  return { id, target, operation }

def ErrorCode.decode (value : Value) : Option ErrorCode :=
  match value.asUnitVariant with
  | some "invalid_request" => some .invalidRequest
  | some "unknown_target" => some .unknownTarget
  | some "target_already_stopped" => some .targetAlreadyStopped
  | some "target_not_running" => some .targetNotRunning
  | some "target_disabled" => some .targetDisabled
  | some "config_rejected" => some .configRejected
  | some "target_offline" => some .targetOffline
  | some "mpv_rejected" => some .mpvRejected
  | some "timeout" => some .timeout
  | some "ipc_lost" => some .ipcLost
  | some "shutting_down" => some .shuttingDown
  | _ => none

def ErrorResponse.decode (value : Value) : Option ErrorResponse := do
  let code ← requiredField ErrorCode.decode value "code"
  let message ← requiredField Value.asStr value "message"
  return { code, message }

def Response.decode (value : Value) : Option Response :=
  match (value.get "result").bind Value.asStr with
  | some "success" => do
      let id ← requiredField Value.asStr value "id"
      let data ← defaultField some .null value "data"
      return .success id data
  | some "error" => do
      let id ← requiredField Value.asStr value "id"
      let body ← requiredField ErrorResponse.decode value "error"
      return .error id body
  | _ => none

/-- What `handle_message` takes a message for: it tries an event first and a response then. -/
inductive ServerMessage where
  | event (event : Event)
  | response (response : Response)
  | malformed

def ServerMessage.decode (value : Value) : ServerMessage :=
  match Event.decode value with
  | some received => .event received
  | none =>
      match Response.decode value with
      | some received => .response received
      | none => .malformed

/-! ### Round trips -/

@[simp] theorem ErrorCode.decode_encode (code : ErrorCode) :
    ErrorCode.decode code.encode = some code := by
  cases code <;> rfl

@[simp] theorem ErrorResponse.decode_encode (error : ErrorResponse) :
    ErrorResponse.decode error.encode = some error := by
  simp [ErrorResponse.decode, ErrorResponse.encode, requiredField, Value.asStr]

theorem Operation.decode_encode (operation : Operation) :
    Operation.decode operation.encode = some operation := by
  cases operation with
  | targetAdd source enable startPaused startMuted =>
      cases startPaused <;> cases startMuted <;>
        simp [Operation.decode, Operation.encode, unlessTrue, optionalField, requiredField,
          defaultField, Value.asStr, Value.asBool]
  | targetRename name =>
      simp [Operation.decode, Operation.encode, requiredField, Value.asStr]
  | targetSetChannel channel restart =>
      simp [Operation.decode, Operation.encode, optionalField, requiredField, Value.asStr,
        Value.asBool]
  | targetSaveChannel channel overwrite =>
      simp [Operation.decode, Operation.encode, requiredField, Value.asStr, Value.asBool]
  | mpv command args =>
      simp [Operation.decode, Operation.encode, requiredField, defaultField, Value.asStr,
        Value.asArray]
  | _ => rfl

theorem Request.decode_encode (request : Request) :
    Request.decode request.encode = some request := by
  rcases request with ⟨id, target, operation⟩
  cases target <;>
    simp [Request.decode, Request.encode, requiredField, optionalField, Value.asStr,
      Operation.decode_encode, Value.asOptional]

theorem Response.decode_encode (response : Response) :
    Response.decode response.encode = some response := by
  cases response with
  | success id data =>
      simp [Response.decode, Response.encode, requiredField, defaultField, Value.asStr]
  | error id body => simp [Response.decode, Response.encode, requiredField, Value.asStr]

/-- A response has no event tag, whatever its data. -/
theorem event_decode_response (response : Response) : Event.decode response.encode = none := by
  cases response <;> simp [Event.decode, Response.encode]

/-- Requests, events and responses are read back as they were written, and the client takes every
message of the server for what it is. -/
theorem wire_round_trips :
    (∀ request, Request.decode request.encode = some request) ∧
    (∀ event, Event.decode event.encode = some event ∧
      ServerMessage.decode event.encode = .event event) ∧
    ∀ response, Response.decode response.encode = some response ∧
      Event.decode response.encode = none ∧
      ServerMessage.decode response.encode = .response response := by
  refine ⟨Request.decode_encode, fun event => ?_, fun response => ?_⟩
  · have hevent := Event.decode_encode event
    exact ⟨hevent, by rw [ServerMessage.decode, hevent]⟩
  · have hresponse := response.decode_encode
    have hevent := event_decode_response response
    exact ⟨hresponse, hevent, by rw [ServerMessage.decode, hevent, hresponse]⟩

end MpvTargets.Protocol

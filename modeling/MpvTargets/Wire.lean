import MpvTargets.Protocol

/-! The JSON form of the server's events: `serde` writes the `event` tag beside the fields of the
variant and flattens the snapshot. The decoders read the object form, the only one the daemon
writes, and not the arrays of fields that `serde` would also take. Decoding an encoded event gives it
back. -/

namespace MpvTargets

/-- A unit variant is a string, or an object with that one key and `null`. -/
def Value.asUnitVariant : Value → Option String
  | .string name => some name
  | .object [(name, .null)] => some name
  | _ => none

def Value.asOptional {α : Type} (decode : Value → Option α) : Value → Option (Option α)
  | .null => some none
  | value => (decode value).map some

/-- A field that may be missing or `null`. -/
def optionalField {α : Type} (decode : Value → Option α) (value : Value) (key : String) :
    Option (Option α) :=
  match value.get key with
  | none => some none
  | some present => present.asOptional decode

def requiredField {α : Type} (decode : Value → Option α) (value : Value) (key : String) :
    Option α :=
  (value.get key).bind decode

def Value.asU32 (value : Value) : Option UInt32 := value.asU64.bind u32OfU64

def Value.ofU32 (value : UInt32) : Value := .unsigned value.toUInt64

def HealthState.encode : HealthState → Value
  | .ready => .string "ready"
  | .idle => .string "idle"
  | .degraded => .string "degraded"

def HealthState.decode (value : Value) : Option HealthState :=
  match value.asUnitVariant with
  | some "ready" => some .ready
  | some "idle" => some .idle
  | some "degraded" => some .degraded
  | _ => none

def MediaEndReason.encode : MediaEndReason → Value
  | .eof => .string "eof"
  | .stop => .string "stop"
  | .quit => .string "quit"
  | .error => .string "error"
  | .redirect => .string "redirect"
  | .unknown => .string "unknown"

def MediaEndReason.decode (value : Value) : Option MediaEndReason :=
  match value.asUnitVariant with
  | some "eof" => some .eof
  | some "stop" => some .stop
  | some "quit" => some .quit
  | some "error" => some .error
  | some "redirect" => some .redirect
  | some "unknown" => some .unknown
  | _ => none

def Health.encode (health : Health) : Value :=
  .object [
    ("state", health.state.encode),
    ("targets_configured", .ofU32 health.targetsConfigured),
    ("targets_expected_online", .ofU32 health.targetsExpectedOnline),
    ("targets_online", .ofU32 health.targetsOnline)]

def Health.decode (value : Value) : Option Health := do
  let state ← requiredField HealthState.decode value "state"
  let targetsConfigured ← requiredField Value.asU32 value "targets_configured"
  let targetsExpectedOnline ← requiredField Value.asU32 value "targets_expected_online"
  let targetsOnline ← requiredField Value.asU32 value "targets_online"
  return { state, targetsConfigured, targetsExpectedOnline, targetsOnline }

/-- Every field is written, an absent value as `null`. -/
def TargetState.encodeFields (state : TargetState) : List (String × Value) := [
  ("audio_track", .optional .string state.audioTrack),
  ("duration", .optional .float state.duration),
  ("idle_active", .optional .bool state.idleActive),
  ("last_end_error", .optional .string state.lastEndError),
  ("last_end_reason", .optional MediaEndReason.encode state.lastEndReason),
  ("loop_file", .optional .string state.loopFile),
  ("loop_playlist", .optional .string state.loopPlaylist),
  ("muted", .optional .bool state.muted),
  ("paused", .optional .bool state.paused),
  ("playlist_count", .optional .ofU32 state.playlistCount),
  ("playlist_position", .optional .ofU32 state.playlistPosition),
  ("position", .optional .float state.position),
  ("subtitle_track", .optional .string state.subtitleTrack),
  ("subtitles_visible", .optional .bool state.subtitlesVisible),
  ("title", .optional .string state.title),
  ("volume", .optional .float state.volume)]

def TargetState.encode (state : TargetState) : Value := .object state.encodeFields

def TargetState.decode (value : Value) : Option TargetState := do
  let paused ← optionalField Value.asBool value "paused"
  let muted ← optionalField Value.asBool value "muted"
  let volume ← optionalField Value.asF64 value "volume"
  let title ← optionalField Value.asStr value "title"
  let playlistPosition ← optionalField Value.asU32 value "playlist_position"
  let playlistCount ← optionalField Value.asU32 value "playlist_count"
  let idleActive ← optionalField Value.asBool value "idle_active"
  let duration ← optionalField Value.asF64 value "duration"
  let position ← optionalField Value.asF64 value "position"
  let loopFile ← optionalField Value.asStr value "loop_file"
  let loopPlaylist ← optionalField Value.asStr value "loop_playlist"
  let audioTrack ← optionalField Value.asStr value "audio_track"
  let subtitleTrack ← optionalField Value.asStr value "subtitle_track"
  let subtitlesVisible ← optionalField Value.asBool value "subtitles_visible"
  let lastEndReason ← optionalField MediaEndReason.decode value "last_end_reason"
  let lastEndError ← optionalField Value.asStr value "last_end_error"
  return {
    paused, muted, volume, title, playlistPosition, playlistCount, idleActive, duration, position,
    loopFile, loopPlaylist, audioTrack, subtitleTrack, subtitlesVisible, lastEndReason,
    lastEndError }

def TargetRecord.encode (record : TargetRecord) : Value :=
  .object [
    ("channel", .optional .string record.channel),
    ("disabled", .bool record.disabled),
    ("name", .string record.name),
    ("online", .bool record.online),
    ("revision", .unsigned record.revision),
    ("state", record.state.encode),
    ("stopped", .bool record.stopped)]

def TargetRecord.decode (value : Value) : Option TargetRecord := do
  let name ← requiredField Value.asStr value "name"
  let disabled ← requiredField Value.asBool value "disabled"
  let stopped ← requiredField Value.asBool value "stopped"
  let online ← requiredField Value.asBool value "online"
  let channel ← optionalField Value.asStr value "channel"
  let state ← requiredField TargetState.decode value "state"
  let revision ← requiredField Value.asU64 value "revision"
  return { name, disabled, stopped, online, channel, state, revision }

def Event.encode : Event → Value
  | .snapshot current =>
      .object [
        ("event", .string "snapshot"),
        ("health", current.health.encode),
        ("node_id", .string current.nodeId),
        ("protocol_version", .ofU32 current.protocolVersion),
        ("targets", .array (current.targets.map TargetRecord.encode))]
  | .targetChanged change =>
      .object [
        ("changed", change.changed),
        ("event", .string "target_changed"),
        ("revision", .unsigned change.revision),
        ("target", .string change.target)]

def Snapshot.decode (value : Value) : Option Snapshot := do
  let protocolVersion ← requiredField Value.asU32 value "protocol_version"
  let nodeId ← requiredField Value.asStr value "node_id"
  let health ← requiredField Health.decode value "health"
  let elements ← requiredField Value.asArray value "targets"
  let targets ← elements.mapM TargetRecord.decode
  return { protocolVersion, nodeId, health, targets }

def TargetChanged.decode (value : Value) : Option TargetChanged := do
  let target ← requiredField Value.asStr value "target"
  let revision ← requiredField Value.asU64 value "revision"
  let changed ← value.get "changed"
  return { target, revision, changed }

def Event.decode (value : Value) : Option Event :=
  match (value.get "event").bind Value.asStr with
  | some "snapshot" => (Snapshot.decode value).map .snapshot
  | some "target_changed" => (TargetChanged.decode value).map .targetChanged
  | _ => none

@[simp] theorem Value.get_object_nil (key : String) : (Value.object []).get key = none := rfl

@[simp] theorem Value.get_object_cons (name key : String) (value : Value)
    (members : List (String × Value)) :
    (Value.object ((name, value) :: members)).get key =
      if name = key then some value else (Value.object members).get key := by
  by_cases h : name = key <;> simp [Value.get, Value.asObject, h]

@[simp] theorem asU32_ofU32 (value : UInt32) : (Value.ofU32 value).asU32 = some value := by
  have hlt : value.toUInt64.toNat < 2 ^ 32 := by
    rw [UInt32.toNat_toUInt64]
    exact value.toNat_lt
  rw [Value.asU32, Value.ofU32, Value.unsigned, Value.asU64, Number.asU64, Option.bind_some,
    u32OfU64, if_pos hlt, UInt32.toNat_toUInt64, UInt32.ofNat_toNat]

@[simp] theorem asU64_unsigned (value : UInt64) : (Value.unsigned value).asU64 = some value := rfl

@[simp] theorem asF64_float (value : F64) : (Value.float value).asF64 = some value := rfl

@[simp] theorem HealthState.decode_encode (state : HealthState) :
    HealthState.decode state.encode = some state := by
  cases state <;> rfl

@[simp] theorem MediaEndReason.decode_encode (reason : MediaEndReason) :
    MediaEndReason.decode reason.encode = some reason := by
  cases reason <;> rfl

/-- An encoder that never writes `null` can stand behind `Option`. -/
theorem asOptional_optional {α : Type} (encode : α → Value) (decode : Value → Option α)
    (hnull : ∀ a, (encode a).isNull = false) (hround : ∀ a, decode (encode a) = some a)
    (field : Option α) : (Value.optional encode field).asOptional decode = some field := by
  cases field with
  | none => rfl
  | some a =>
      have hsome : ∀ value, Value.isNull value = false →
          value.asOptional decode = (decode value).map some := by
        intro value hvalue
        cases value <;> first | rfl | cases hvalue
      rw [Value.optional, hsome _ (hnull a), hround, Option.map_some]

@[simp] theorem asOptional_bool (field : Option Bool) :
    (Value.optional .bool field).asOptional Value.asBool = some field :=
  asOptional_optional .bool Value.asBool (fun _ => rfl) (fun _ => rfl) field

@[simp] theorem asOptional_string (field : Option String) :
    (Value.optional .string field).asOptional Value.asStr = some field :=
  asOptional_optional .string Value.asStr (fun _ => rfl) (fun _ => rfl) field

@[simp] theorem asOptional_float (field : Option F64) :
    (Value.optional .float field).asOptional Value.asF64 = some field :=
  asOptional_optional _ _ (fun _ => rfl) asF64_float field

@[simp] theorem asOptional_u32 (field : Option UInt32) :
    (Value.optional .ofU32 field).asOptional Value.asU32 = some field :=
  asOptional_optional _ _ (fun _ => rfl) asU32_ofU32 field

@[simp] theorem asOptional_reason (field : Option MediaEndReason) :
    (Value.optional MediaEndReason.encode field).asOptional MediaEndReason.decode = some field :=
  asOptional_optional _ _ (fun reason => by cases reason <;> rfl) MediaEndReason.decode_encode field

@[simp] theorem Health.decode_encode (health : Health) : Health.decode health.encode = some health := by
  simp [Health.decode, Health.encode, requiredField]

@[simp] theorem TargetState.decode_encode (state : TargetState) :
    TargetState.decode state.encode = some state := by
  simp [TargetState.decode, TargetState.encode, TargetState.encodeFields, optionalField]

@[simp] theorem TargetRecord.decode_encode (record : TargetRecord) :
    TargetRecord.decode record.encode = some record := by
  simp [TargetRecord.decode, TargetRecord.encode, requiredField, optionalField, Value.asStr,
    Value.asBool]

theorem mapM_decode_encode (targets : List TargetRecord) :
    targets.mapM (TargetRecord.decode ∘ TargetRecord.encode) = some targets := by
  induction targets with
  | nil => rfl
  | cons record rest ih => simp [ih]

/-- Every event is read back as it was written. -/
theorem Event.decode_encode (event : Event) : Event.decode event.encode = some event := by
  cases event with
  | snapshot current =>
      simp [Event.decode, Event.encode, Snapshot.decode, requiredField, Value.asStr, Value.asArray,
        mapM_decode_encode]
  | targetChanged change =>
      simp [Event.decode, Event.encode, TargetChanged.decode, requiredField, Value.asStr]

end MpvTargets

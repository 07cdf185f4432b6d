import MpvTargets.Wire

/-! The client's side of the event stream: `handle_message` for a message that is an event, with the
snapshot the client mirrors. -/

namespace MpvTargets

/-- The errors a received event can raise; all of them are `ClientError::Protocol` texts. -/
structure ClientError where
  protocol : String
  deriving DecidableEq, Repr

def invalidChangeField (field : String) : ClientError :=
  ⟨"invalid value for target change field `" ++ field ++ "`"⟩

def orInvalid {α : Type} (field : String) : Option α → Except ClientError α
  | some value => .ok value
  | none => .error (invalidChangeField field)

def requiredBool (field : String) (value : Value) : Except ClientError Bool :=
  orInvalid field value.asBool

/-- The five `optional_*` decoders differ in how they read a value that is not `null`. -/
def optionalChange {α : Type} (read : Value → Option α) (field : String) (value : Value) :
    Except ClientError (Option α) :=
  if value.isNull then .ok none else orInvalid field ((read value).map some)

def optionalBool : String → Value → Except ClientError (Option Bool) := optionalChange Value.asBool

def optionalNumber : String → Value → Except ClientError (Option F64) := optionalChange Value.asF64

def optionalU32 : String → Value → Except ClientError (Option UInt32) :=
  optionalChange fun value => value.asU64.bind u32OfU64

def optionalString : String → Value → Except ClientError (Option String) := optionalChange Value.asStr

def optionalTrack : String → Value → Except ClientError (Option String) :=
  optionalChange fun value =>
    match value.asStr with
    | some track => some track
    | none => value.asI64.map fun track => toString track

def optionalEndReason : String → Value → Except ClientError (Option MediaEndReason) :=
  optionalChange MediaEndReason.decode

/-- One entry of the changed fields, applied to the mirrored record. -/
def applyChangedField (target : TargetRecord) (field : String) (value : Value) :
    Except ClientError TargetRecord := do
  match field with
  | "disabled" => return { target with disabled := ← requiredBool field value }
  | "stopped" => return { target with stopped := ← requiredBool field value }
  | "online" => return { target with online := ← requiredBool field value }
  | "channel" => return { target with channel := ← optionalString field value }
  | "paused" => return { target with state.paused := ← optionalBool field value }
  | "muted" => return { target with state.muted := ← optionalBool field value }
  | "volume" => return { target with state.volume := ← optionalNumber field value }
  | "title" => return { target with state.title := ← optionalString field value }
  | "playlist_position" =>
      return { target with state.playlistPosition := ← optionalU32 field value }
  | "playlist_count" => return { target with state.playlistCount := ← optionalU32 field value }
  | "idle_active" => return { target with state.idleActive := ← optionalBool field value }
  | "duration" => return { target with state.duration := ← optionalNumber field value }
  | "position" => return { target with state.position := ← optionalNumber field value }
  | "loop_file" => return { target with state.loopFile := ← optionalString field value }
  | "loop_playlist" => return { target with state.loopPlaylist := ← optionalString field value }
  | "audio_track" => return { target with state.audioTrack := ← optionalTrack field value }
  | "subtitle_track" => return { target with state.subtitleTrack := ← optionalTrack field value }
  | "subtitles_visible" =>
      return { target with state.subtitlesVisible := ← optionalBool field value }
  | "last_end_reason" => return { target with state.lastEndReason := ← optionalEndReason field value }
  | "last_end_error" => return { target with state.lastEndError := ← optionalString field value }
  | _ => throw ⟨"unknown target change field `" ++ field ++ "`"⟩

/-- The part of `apply_target_change` after the target is found. -/
def applyChange (target : TargetRecord) (change : TargetChanged) :
    Except ClientError TargetRecord := do
  if change.revision ≠ target.revision + 1 then
    throw ⟨"target `" ++ change.target ++ "` revision gap: expected " ++
      toString (target.revision + 1) ++ ", received " ++ toString change.revision⟩
  match change.changed.asObject with
  | none => throw ⟨"target change fields must be a JSON object"⟩
  | some fields =>
      let target ← fields.foldlM (fun target entry => applyChangedField target entry.1 entry.2) target
      return { target with revision := change.revision }

/-- The first record of that name is replaced; `none` when there is none. -/
def replaceFirst (name : String) (update : TargetRecord → Except ClientError TargetRecord) :
    List TargetRecord → Option (Except ClientError (List TargetRecord))
  | [] => none
  | target :: rest =>
      if target.name = name then some ((update target).map fun target => target :: rest)
      else (replaceFirst name update rest).map fun result => result.map fun rest => target :: rest

def refreshHealth (snapshot : Snapshot) : Snapshot :=
  let expected := countU32
    (snapshot.targets.filter fun target => !target.disabled && !target.stopped).length
  let online := countU32
    (snapshot.targets.filter fun target =>
      !target.disabled && !target.stopped && target.online).length
  { snapshot with
    health := {
      targetsConfigured := countU32 snapshot.targets.length
      targetsExpectedOnline := expected
      targetsOnline := online
      state :=
        if expected = 0 then .idle else if expected = online then .ready else .degraded } }

def applyTargetChange (snapshot : Snapshot) (change : TargetChanged) :
    Except ClientError Snapshot := do
  match replaceFirst change.target (fun target => applyChange target change) snapshot.targets with
  | none => throw ⟨"target change references unknown target `" ++ change.target ++ "`"⟩
  | some result =>
      let targets ← result
      return refreshHealth { snapshot with targets }

/-- The event half of `handle_message`: the next mirrored snapshot. -/
def handleEvent (mirror : Option Snapshot) : Event → Except ClientError Snapshot
  | .snapshot value =>
      if value.protocolVersion ≠ protocolVersion then
        .error ⟨"unsupported protocol version " ++ toString value.protocolVersion ++
          "; expected " ++ toString protocolVersion⟩
      else .ok value
  | .targetChanged change =>
      match mirror with
      | none => .error ⟨"target change received before snapshot"⟩
      | some current => applyTargetChange current change

/-- `handle_message` on a decoded JSON text. A message that is not an event goes to the pending
requests and leaves the mirrored snapshot as it is. -/
def handleMessage (mirror : Option Snapshot) (message : Value) :
    Option (Except ClientError Snapshot) :=
  (Event.decode message).map (handleEvent mirror)

theorem handleMessage_encode (mirror : Option Snapshot) (event : Event) :
    handleMessage mirror event.encode = some (handleEvent mirror event) := by
  rw [handleMessage, Event.decode_encode, Option.map_some]

/-- Both sides compute the health of a list of records alike. -/
theorem refreshHealth_eq (snapshot : Snapshot) :
    refreshHealth snapshot = { snapshot with health := healthOf snapshot.targets } := rfl

end MpvTargets

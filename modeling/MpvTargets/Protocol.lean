import MpvTargets.Json

/-! The wire types the daemon and its clients share. -/

namespace MpvTargets

def protocolVersion : UInt32 := 1

inductive HealthState where
  | ready
  | idle
  | degraded
  deriving DecidableEq, Repr

structure Health where
  state : HealthState
  targetsConfigured : UInt32
  targetsExpectedOnline : UInt32
  targetsOnline : UInt32
  deriving DecidableEq, Repr

/-- mpv's reported reason for the most recently completed file. -/
inductive MediaEndReason where
  | eof
  | stop
  | quit
  | error
  | redirect
  | unknown
  deriving DecidableEq, Repr

/-- Observed state only. The daemon never treats these fields as desired state. -/
structure TargetState where
  paused : Option Bool
  muted : Option Bool
  volume : Option F64
  title : Option String
  playlistPosition : Option UInt32
  playlistCount : Option UInt32
  idleActive : Option Bool
  duration : Option F64
  position : Option F64
  loopFile : Option String
  loopPlaylist : Option String
  audioTrack : Option String
  subtitleTrack : Option String
  subtitlesVisible : Option Bool
  lastEndReason : Option MediaEndReason
  lastEndError : Option String
  deriving DecidableEq, Repr

/-- `TargetState::default`: nothing observed. -/
def TargetState.default : TargetState :=
  ⟨none, none, none, none, none, none, none, none, none, none, none, none, none, none, none, none⟩

structure TargetRecord where
  name : String
  disabled : Bool
  stopped : Bool
  online : Bool
  channel : Option String
  state : TargetState
  revision : UInt64
  deriving DecidableEq, Repr

structure Snapshot where
  protocolVersion : UInt32
  nodeId : String
  health : Health
  targets : List TargetRecord
  deriving DecidableEq, Repr

structure TargetChanged where
  target : String
  revision : UInt64
  changed : Value
  deriving Repr

/-- Server-to-client messages. A snapshot is always the first message of a connection. -/
inductive Event where
  | snapshot (snapshot : Snapshot)
  | targetChanged (change : TargetChanged)
  deriving Repr

/-- The casts `count() as u32` and `len() as u32`. -/
def countU32 (count : Nat) : UInt32 := UInt32.ofNat count

/-- The health of a list of records, as `snapshot_from` computes it. -/
def healthOf (targets : List TargetRecord) : Health :=
  let expected := countU32 (targets.filter fun target => !target.disabled && !target.stopped).length
  let online := countU32
    (targets.filter fun target => !target.disabled && !target.stopped && target.online).length
  { state :=
      if expected = 0 then .idle else if expected = online then .ready else .degraded
    targetsConfigured := countU32 targets.length
    targetsExpectedOnline := expected
    targetsOnline := online }

end MpvTargets

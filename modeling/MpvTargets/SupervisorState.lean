import Mathlib.Data.String.Basic
import MpvTargets.Config
import MpvTargets.Library.OrderedMap
import MpvTargets.Observed

/-! The supervisor's shared state and its critical sections. Every section below is what one task
does between taking and releasing the `inner` mutex; what a task does in between is in
`SupervisorTasks`. -/

namespace MpvTargets

/-- The errors of supervisor operations, with what their texts carry. -/
inductive SupervisorError where
  | unknownTarget (name : String)
  | targetDisabled
  | targetAlreadyStopped
  | targetNotRunning
  | renameRequiresStopped
  | ipcUnavailable (name : String)
  | mpvRejected (message : String)
  | launch (source : String)
  | config (source : String)
  | configSerialization
  | targetExists (name : String)
  | channelExists (channel : String)
  | invalidPlaylist
  deriving DecidableEq, Repr

/-- What a call outside the mutex came back with: a call of the operating system, of mpv or of the
file system either succeeds or fails, and a read yields one line (`none` when it is not JSON). -/
inductive External where
  | ok
  | failed (error : SupervisorError)
  | line (message : Option Value)
  deriving Repr

structure RuntimeTarget where
  config : TargetConfig
  observed : TargetState
  stopped : Bool
  online : Bool
  launching : Bool
  revision : UInt64
  recovering : Bool
  deriving DecidableEq, Repr

structure Inner where
  config : DaemonConfig
  targets : OrderedMap String RuntimeTarget

def RuntimeTarget.record (name : String) (target : RuntimeTarget) : TargetRecord where
  name := name
  disabled := target.config.disabled
  stopped := target.stopped
  online := target.online
  channel := target.config.channel
  state := target.observed
  revision := target.revision

/-- The runtime of a configured target before anything has happened to it. -/
def RuntimeTarget.initial (config : TargetConfig) : RuntimeTarget where
  config := config
  observed := .default
  stopped := config.disabled
  online := false
  launching := false
  revision := 0
  recovering := false

/-- `Supervisor::new`. -/
def Inner.new (config : DaemonConfig) : Inner where
  config := config
  targets := .ofList (config.targets.map fun target => (target.name, .initial target))

def Inner.records (inner : Inner) : List TargetRecord :=
  inner.targets.entries.map fun entry => entry.2.record entry.1

def snapshotFrom (inner : Inner) : Snapshot where
  protocolVersion := protocolVersion
  nodeId := inner.config.node.id
  health := healthOf inner.records
  targets := inner.records

/-- What a section leaves of its target, the fields it reports as changed (with the revision it
leaves), and the value it hands on. -/
structure TargetSection (α : Type) where
  target : RuntimeTarget
  changed : Option Value
  value : α

/-- `start`: whether to launch. -/
def startSection (target : RuntimeTarget) : TargetSection (Except SupervisorError Bool) :=
  if target.config.disabled then ⟨target, none, .error .targetDisabled⟩
  else
    let started :=
      if target.stopped then { target with stopped := false, revision := target.revision + 1 }
      else target
    let changed := if target.stopped then some (.object [("stopped", .bool false)]) else none
    if started.online || started.launching then ⟨started, changed, .ok false⟩
    else ⟨{ started with launching := true }, changed, .ok true⟩

/-- `stop`: whether the target was online. -/
def stopSection (target : RuntimeTarget) : TargetSection (Except SupervisorError Bool) :=
  if target.stopped then ⟨target, none, .error .targetAlreadyStopped⟩
  else
    ⟨{ target with stopped := true, revision := target.revision + 1 },
      some (.object [("stopped", .bool true)]), .ok target.online⟩

/-- `on_target_lost`: nothing to do, or whether to recover. -/
def targetLostSection (target : RuntimeTarget) : TargetSection (Option Bool) :=
  if target.online then
    ⟨{ target with online := false, launching := false, revision := target.revision + 1 },
      some (.object [("online", .bool false)]), some (!target.config.disabled && !target.stopped)⟩
  else ⟨target, none, none⟩

/-- `schedule_recovery`: the admission check of a spawned loop. -/
def admitRecoverySection (target : RuntimeTarget) : TargetSection Bool :=
  if target.config.disabled || target.stopped || target.recovering then ⟨target, none, false⟩
  else ⟨{ target with recovering := true }, none, true⟩

/-- `schedule_recovery`: whether the target is still expected after the delay. -/
def stillExpectedSection (target : RuntimeTarget) : TargetSection Bool :=
  if target.config.disabled || target.stopped then ⟨{ target with recovering := false }, none, false⟩
  else ⟨target, none, true⟩

def ensureDisabledOffSection (target : RuntimeTarget) : TargetSection Unit :=
  let changed :=
    (if target.online then [("online", Value.bool false)] else []) ++
      (if target.stopped then [] else [("stopped", Value.bool true)])
  let off := { target with stopped := true, online := false, launching := false, recovering := false }
  if changed.isEmpty then ⟨off, none, ()⟩
  else ⟨{ off with revision := target.revision + 1 }, some (.object changed), ()⟩

/-- `clear_observed`: every field that was reported is reported as absent. -/
def clearObservedSection (target : RuntimeTarget) : TargetSection Unit :=
  if target.observed = .default then ⟨target, none, ()⟩
  else
    let changed := (target.observed.encodeFields.filter fun entry => !entry.2.isNull).map
      fun entry => (entry.1, Value.null)
    ⟨{ target with observed := .default, revision := target.revision + 1 },
      some (.object changed), ()⟩

/-- `mark_online`: whether it changed. -/
def markOnlineSection (target : RuntimeTarget) : TargetSection Bool :=
  if target.online then ⟨target, none, false⟩
  else
    ⟨{ target with
        online := true, launching := false, recovering := false, revision := target.revision + 1 },
      some (.object [("online", .bool true)]), true⟩

def markOfflineSection (target : RuntimeTarget) : TargetSection Unit :=
  if target.online then
    ⟨{ target with online := false, launching := false, revision := target.revision + 1 },
      some (.object [("online", .bool false)]), ()⟩
  else ⟨target, none, ()⟩

def clearLaunchingSection (target : RuntimeTarget) : TargetSection Unit :=
  ⟨{ target with launching := false }, none, ()⟩

def updateObservedSection (field : String) (value : Value) (target : RuntimeTarget) :
    TargetSection Unit :=
  let value := normalizeObservedValue field value
  match applyObservedUpdate target.observed field value with
  | none => ⟨target, none, ()⟩
  | some observed =>
      ⟨{ target with observed, revision := target.revision + 1 }, some (.object [(field, value)]), ()⟩

def updateMediaEndSection (reason : MediaEndReason) (error : Option String)
    (target : RuntimeTarget) : TargetSection Unit :=
  if target.observed.lastEndReason = some reason ∧ target.observed.lastEndError = error then
    ⟨target, none, ()⟩
  else
    ⟨{ target with
        observed.lastEndReason := some reason
        observed.lastEndError := error
        revision := target.revision + 1 },
      some (.object [
        ("last_end_error", .optional .string error),
        ("last_end_reason", reason.encode)]), ()⟩

def clearMediaEndSection (target : RuntimeTarget) : TargetSection Unit :=
  if target.observed.lastEndReason.isNone && target.observed.lastEndError.isNone then
    ⟨target, none, ()⟩
  else
    ⟨{ target with
        observed.lastEndReason := none
        observed.lastEndError := none
        revision := target.revision + 1 },
      some (.object [("last_end_error", .null), ("last_end_reason", .null)]), ()⟩

/-- The sections on one target, by name. -/
inductive TargetOp where
  | start
  | stop
  | targetLost
  | admitRecovery
  | stillExpected
  | ensureDisabledOff
  | clearObserved
  | markOnline
  | markOffline
  | clearLaunching
  | updateObserved (field : String) (value : Value)
  | updateMediaEnd (reason : MediaEndReason) (error : Option String)
  | clearMediaEnd

def TargetSection.effect {α : Type} (result : TargetSection α) : RuntimeTarget × Option Value :=
  (result.target, result.changed)

def TargetOp.run (op : TargetOp) (target : RuntimeTarget) : RuntimeTarget × Option Value :=
  match op with
  | start => (startSection target).effect
  | stop => (stopSection target).effect
  | targetLost => (targetLostSection target).effect
  | admitRecovery => (admitRecoverySection target).effect
  | stillExpected => (stillExpectedSection target).effect
  | ensureDisabledOff => (ensureDisabledOffSection target).effect
  | clearObserved => (clearObservedSection target).effect
  | markOnline => (markOnlineSection target).effect
  | markOffline => (markOfflineSection target).effect
  | clearLaunching => (clearLaunchingSection target).effect
  | updateObserved field value => (updateObservedSection field value target).effect
  | updateMediaEnd reason error => (updateMediaEndSection reason error target).effect
  | clearMediaEnd => (clearMediaEndSection target).effect

/-- The three uses of `persist_target_change`. -/
inductive ConfigChange where
  | enable
  | disable
  | setChannel (channel : Option String)
  deriving DecidableEq, Repr

/-- The closure handed to `persist_target_change`: nothing when the entry already is as wanted. -/
def ConfigChange.mutate (change : ConfigChange) (target : TargetConfig) :
    Option (TargetConfig × Value) :=
  match change with
  | enable =>
      if target.disabled then
        some ({ target with disabled := false }, .object [("disabled", .bool false)])
      else none
  | disable =>
      if target.disabled then none
      else some ({ target with disabled := true }, .object [("disabled", .bool true)])
  | setChannel channel =>
      if target.channel = channel then none
      else some ({ target with channel := channel }, .object [("channel", .optional .string channel)])

/-- The first entry of that name is replaced. -/
def setEntry (name : String) (entry : TargetConfig) : List TargetConfig → List TargetConfig
  | [] => []
  | target :: rest =>
      if target.name = name then entry :: rest else target :: setEntry name entry rest

def DaemonConfig.target? (config : DaemonConfig) (name : String) : Option TargetConfig :=
  config.targets.find? fun target => target.name = name

def DaemonConfig.setEntry (config : DaemonConfig) (name : String) (entry : TargetConfig) :
    DaemonConfig :=
  { config with targets := MpvTargets.setEntry name entry config.targets }

/-- `add`'s candidate. -/
def DaemonConfig.push (config : DaemonConfig) (target : TargetConfig) : DaemonConfig :=
  { config with targets := config.targets ++ [target] }

/-- `remove`'s candidate. -/
def DaemonConfig.without (config : DaemonConfig) (name : String) : DaemonConfig :=
  { config with targets := config.targets.filter fun target => target.name ≠ name }

/-- `rename`'s candidate. -/
def DaemonConfig.renamed (config : DaemonConfig) (name replacement : String) : Option DaemonConfig :=
  (config.target? name).map fun entry => config.setEntry name { entry with name := replacement }

/-- `persist_config`: the new contents of the configuration file. -/
def persistConfig (toml : Toml) (external : External) (config : DaemonConfig) :
    Except SupervisorError String :=
  match toml.toStringPretty config with
  | none => .error .configSerialization
  | some source =>
      match external with
      | .failed error => .error error
      | _ => .ok source

/-- `validate` and `persist_config` as the five configuration mutators chain them. -/
def validateAndPersist (toml : Toml) (external : External) (config : DaemonConfig) :
    Except SupervisorError String :=
  match config.validate with
  | .error error => .error (.mpvRejected error.message)
  | .ok () => persistConfig toml external config

/-- The result of `persist_target_change`; `panicked` is a failed `expect`. -/
inductive Persisted where
  | returned (result : Except SupervisorError Unit)
  | panicked
  deriving Repr

/-- What a section leaves of the shared state, the events it produces, and the configuration file if it
wrote one. -/
structure Commit where
  inner : Inner
  events : List Event := []
  file : Option String := none

def targetChanged (name : String) (target : RuntimeTarget) (changed : Value) : Event :=
  .targetChanged ⟨name, target.revision, changed⟩

/-- `persist_target_change` under both mutexes. -/
def persistTargetChange (toml : Toml) (external : External) (name : String) (change : ConfigChange)
    (inner : Inner) : Commit × Persisted :=
  match inner.config.target? name with
  | none => ({ inner }, .returned (.error (.unknownTarget name)))
  | some entry =>
      match change.mutate entry with
      | none => ({ inner }, .returned (.ok ()))
      | some (persisted, changed) =>
          let candidate := inner.config.setEntry name persisted
          match validateAndPersist toml external candidate with
          | .error error => ({ inner }, .returned (.error error))
          | .ok source =>
              match inner.targets.get? name with
              | none =>
                  ({ inner := { inner with config := candidate }, file := some source }, .panicked)
              | some target =>
                  let target := { target with config := persisted, revision := target.revision + 1 }
                  ({ inner := { config := candidate, targets := inner.targets.insert name target }
                     events := [targetChanged name target changed]
                     file := some source }, .returned (.ok ()))

def emitSnapshot (inner : Inner) : Event := .snapshot (snapshotFrom inner)

/-- The committing section of `add`. -/
def addCommit (candidate : DaemonConfig) (target : TargetConfig) (inner : Inner) : Commit :=
  let runtime := { RuntimeTarget.initial target with stopped := true }
  let inner := { inner with
    config := candidate, targets := inner.targets.insert target.name runtime }
  { inner, events := [emitSnapshot inner] }

/-- The committing section of `remove`. -/
def removeCommit (candidate : DaemonConfig) (name : String) (inner : Inner) : Commit :=
  let inner := { inner with config := candidate, targets := inner.targets.erase name }
  { inner, events := [emitSnapshot inner] }

/-- The committing section of `rename`; it panics when the target is gone. -/
def renameCommit (candidate : DaemonConfig) (name replacement : String) (inner : Inner) : Commit :=
  match inner.targets.get? name with
  | none => { inner := { inner with config := candidate } }
  | some runtime =>
      let runtime := { runtime with
        config.name := replacement, revision := runtime.revision + 1 }
      let inner := { inner with
        config := candidate, targets := (inner.targets.erase name).insert replacement runtime }
      { inner, events := [emitSnapshot inner] }

/-- The critical sections that may change the shared state. -/
inductive CriticalSection where
  | onTarget (name : String) (op : TargetOp)
  | persistTargetChange (name : String) (change : ConfigChange) (external : External)
  | addCommit (candidate : DaemonConfig) (target : TargetConfig)
  | removeCommit (candidate : DaemonConfig) (name : String)
  | renameCommit (candidate : DaemonConfig) (name replacement : String)

/-- A section on a target that is not there does nothing. -/
def Inner.onTarget (inner : Inner) (name : String) (op : TargetOp) : Commit :=
  match inner.targets.get? name with
  | none => { inner }
  | some target =>
      let (target, changed) := op.run target
      { inner := { inner with targets := inner.targets.insert name target }
        events := (changed.map (targetChanged name target)).toList }

def CriticalSection.run (toml : Toml) (inner : Inner) : CriticalSection → Commit
  | onTarget name op => inner.onTarget name op
  | persistTargetChange name change external =>
      (MpvTargets.persistTargetChange toml external name change inner).1
  | addCommit candidate target => MpvTargets.addCommit candidate target inner
  | removeCommit candidate name => MpvTargets.removeCommit candidate name inner
  | renameCommit candidate name replacement => MpvTargets.renameCommit candidate name replacement inner

end MpvTargets

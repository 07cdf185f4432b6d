import MpvTargets.SupervisorState

/-! The control flow of the supervisor's tasks. A task stands at one of its await points: a critical
section it is about to enter, or a call outside the mutex whose result it awaits. The operations call
one another; what a call returns to is kept as a list of callers, innermost first. -/

namespace MpvTargets

/-- The client operations that run critical sections. -/
inductive Request where
  | start (name : String)
  | stop (name : String)
  | restart (name : String)
  | enable (name : String)
  | disable (name : String)
  | setChannel (name : String) (channel : Option String) (restart : Bool)
  | add (name : String) (source : Option String) (enable : Bool)
  | remove (name : String)
  | rename (name replacement : String)
  | saveChannel (name : String)
  | mpv (name : String)
  deriving DecidableEq, Repr

inductive Reply where
  | record (record : TargetRecord)
  | done
  deriving DecidableEq, Repr

abbrev Outcome := Except SupervisorError Reply

/-- What spawned a task. Observers carry the number of the connection they were spawned for, counted
per target name. -/
inductive Origin where
  | request
  | startup
  | recovery
  | observer (connection : Nat)
  deriving DecidableEq, Repr

/-- What awaits `clear_observed`. -/
inductive Clearing where
  | stop
  | ensureDisabledOff
  | targetLost (recover : Bool)
  deriving DecidableEq, Repr

/-- What awaits the result of the current operation. -/
inductive Caller where
  | restartStop (name : String)
  | restartEnsured (name : String)
  | setChannel (name : String) (restart : Bool)
  | disableStop (name : String)
  | removeStop (name : String)
  | saveChannel (name : String)
  | recovery (name : String) (delay : Nat)
  | startupEnsured (rest : List String)
  | startupStarted (name : String) (rest : List String)
  deriving DecidableEq, Repr

/-- Await points, by the source function they stand in. -/
inductive Pc where
  -- `start` and `launch`
  | start (name : String)
  | launchConfig (name : String)
  | launchProbe (name : String)
  | launchSpawn (name : String)
  | launchOnline (name : String)
  | launchFailed (name : String) (error : SupervisorError)
  -- `stop`
  | stop (name : String)
  | stopQuit (name : String)
  | stopGone (name : String)
  | stopOffline (name : String)
  -- `clear_observed`: its section, and the send after the guard is dropped
  | clearObserved (name : String) (clearing : Clearing)
  | clearObservedSend (name : String) (clearing : Clearing)
  -- `ensure_disabled_off`
  | ensureProbe (name : String)
  | ensureQuit (name : String)
  | ensureGone (name : String)
  | ensureOff (name : String)
  -- `restart`, `disable`, `persist_target_change`, `target_record`
  | restart (name : String)
  | restartStopped (name : String)
  | disable (name : String)
  | persistLock (name : String) (change : ConfigChange)
  | persist (name : String) (change : ConfigChange)
  | targetRecord (name : String)
  -- `add`
  | addLock (name : String) (source : Option String) (enable : Bool)
  | addCheck (name : String) (source : Option String) (enable : Bool)
  | addPrepare (target : TargetConfig)
  | addCandidate (target : TargetConfig)
  | addPersist (target : TargetConfig) (candidate : DaemonConfig)
  | addCommit (target : TargetConfig) (candidate : DaemonConfig)
  | addRecord (name : String)
  -- `remove`
  | removeLock (name : String)
  | removeCheck (name : String)
  | removeStage (name : String)
  | removeCandidate (name : String)
  | removePersist (name : String) (candidate : DaemonConfig)
  | removeCommit (name : String) (candidate : DaemonConfig)
  | removeClean (name : String)
  -- `rename`
  | renameLock (name replacement : String)
  | renameCheck (name replacement : String)
  | renameMove (name replacement : String)
  | renameCandidate (name replacement : String)
  | renamePersist (name replacement : String) (candidate : DaemonConfig)
  | renameCommit (name replacement : String) (candidate : DaemonConfig)
  | renameRecord (replacement : String)
  -- `mpv_command` and `save_channel`
  | mpvOnline (name : String)
  | mpvIpc (name : String)
  | saveLock (name : String)
  | saveWrite (name : String)
  -- `observe_target` and `on_target_lost`
  | observeConnect (name : String)
  | observeRead (name : String)
  | updateObserved (name field : String) (value : Value)
  | updateMediaEnd (name : String) (reason : MediaEndReason) (error : Option String)
  | clearMediaEnd (name : String)
  | mediaEndSend (name : String)
  | targetLost (name : String)
  -- `schedule_recovery`
  | recoverAdmit (name : String)
  | recoverCheck (name : String) (delay : Nat)
  -- `start_configured_targets`
  | startupList
  | startupNext (rest : List String)
  | startupProbe (name : String) (rest : List String)
  | startupOnline (name : String) (rest : List String)
  -- finished
  | done (result : Outcome)
  | panicked

structure Task where
  origin : Origin
  pc : Pc
  callers : List Caller

/-- What a step does to the state outside the task: events of a section are sent before the guard is
dropped (`locked`) or afterwards by a `send` step of their own (`lockedThenSend`). -/
inductive Effect where
  | none
  | locked (section_ : CriticalSection)
  | lockedThenSend (section_ : CriticalSection)
  | send
  | writeFile (source : String)

/-- One step of a task: its effect, where the task goes, and the tasks it spawns. -/
structure Turn where
  effect : Effect
  pc : Pc
  callers : List Caller
  spawned : List Task

/-- What a step reads besides its task and the external result. -/
structure View where
  inner : Inner
  mutationsFree : Bool
  connections : String → Nat

def recoveryMaxDelay : Nat := 30

def nextRecoveryDelay (delay : Nat) : Nat := min (delay * 2) recoveryMaxDelay

def Request.task (request : Request) : Task :=
  match request with
  | start name => ⟨.request, .start name, []⟩
  | stop name => ⟨.request, .stop name, []⟩
  | restart name => ⟨.request, .restart name, []⟩
  | enable name => ⟨.request, .persistLock name .enable, []⟩
  | disable name => ⟨.request, .disable name, []⟩
  | setChannel name channel thenRestart =>
      ⟨.request, .persistLock name (.setChannel channel), [.setChannel name thenRestart]⟩
  | add name source enabled => ⟨.request, .addLock name source enabled, []⟩
  | remove name => ⟨.request, .removeLock name, []⟩
  | rename name replacement => ⟨.request, .renameLock name replacement, []⟩
  | saveChannel name => ⟨.request, .saveLock name, []⟩
  | mpv name => ⟨.request, .mpvOnline name, []⟩

/-- The task `schedule_recovery` spawns. -/
def recoveryTask (name : String) : Task := ⟨.recovery, .recoverAdmit name, []⟩

/-- The task `mark_online` spawns. -/
def observerTask (connection : Nat) (name : String) : Task :=
  ⟨.observer connection, .observeConnect name, []⟩

structure Resumed where
  pc : Pc
  callers : List Caller
  spawned : List Task

/-- Delivers a result: `?` hands an error on, a recovery loop tries again after it, and the daemon's
start logs it and schedules recovery. -/
def resume (result : Outcome) : List Caller → Resumed
  | [] => ⟨.done result, [], []⟩
  | caller :: callers =>
      match caller, result with
      | .recovery _ _, .ok _ => ⟨.done (.ok .done), [], []⟩
      | .recovery name delay, .error _ => ⟨.recoverCheck name (nextRecoveryDelay delay), callers, []⟩
      | .startupStarted _ rest, .ok _ => ⟨.startupNext rest, callers, []⟩
      | .startupStarted name rest, .error _ => ⟨.startupNext rest, callers, [recoveryTask name]⟩
      | .restartStop name, .ok _ => ⟨.start name, callers, []⟩
      | .restartEnsured name, .ok _ => ⟨.targetRecord name, callers, []⟩
      | .setChannel name true, .ok _ => ⟨.restart name, callers, []⟩
      | .setChannel _ false, .ok reply => resume (.ok reply) callers
      | .disableStop name, .ok _ => ⟨.persistLock name .disable, callers, []⟩
      | .removeStop name, .ok _ => ⟨.removeStage name, callers, []⟩
      | .saveChannel name, .ok _ => ⟨.saveWrite name, callers, []⟩
      | .startupEnsured rest, .ok _ => ⟨.startupNext rest, callers, []⟩
      | _, .error error => resume (.error error) callers

/-- Ends a task that nobody awaits. -/
def finishTurn (effect : Effect) (spawned : List Task) : Turn :=
  ⟨effect, .done (.ok .done), [], spawned⟩

/-- A connection attempt whose failure is not an error. -/
def External.probe (external : External) (live dead : Turn) : Option Turn :=
  match external with
  | .ok => some live
  | .failed _ => some dead
  | .line _ => none

namespace Task

variable (task : Task)

/-- Goes on in the same operation. -/
def goto (effect : Effect) (pc : Pc) : Turn := ⟨effect, pc, task.callers, []⟩

/-- Calls another operation. -/
def call (pc : Pc) (caller : Caller) : Turn := ⟨.none, pc, caller :: task.callers, []⟩

/-- Returns from the current operation, spawning tasks first. -/
def ret (effect : Effect) (spawned : List Task) (result : Outcome) : Turn :=
  let resumed := resume result task.callers
  ⟨effect, resumed.pc, resumed.callers, spawned ++ resumed.spawned⟩

/-- The `?` on a call outside the mutex. -/
def await (external : External) (next : Turn) : Option Turn :=
  match external with
  | .ok => some next
  | .failed error => some (task.ret .none [] (.error error))
  | .line _ => none

/-- Waits for the `mutations` mutex. -/
def acquire (view : View) (pc : Pc) : Option Turn :=
  if view.mutationsFree then some (task.goto .none pc) else none

/-- Reads one target in a critical section that changes nothing. -/
def read (view : View) (name : String) (next : RuntimeTarget → Turn) : Turn :=
  match view.inner.targets.get? name with
  | none => task.ret .none [] (.error (.unknownTarget name))
  | some target => next target

/-- `target_record`, the last thing most operations do. -/
def record (view : View) (name : String) : Turn :=
  task.read view name fun target => task.ret .none [] (.ok (.record (target.record name)))

end Task

/-- The observers a `mark_online` section spawns. -/
def onlineObservers (view : View) (name : String) : List Task :=
  match view.inner.targets.get? name with
  | none => []
  | some target =>
      if (markOnlineSection target).value then [observerTask (view.connections name + 1) name] else []

/-- What follows `clear_observed` in its caller. -/
def Task.afterClear (task : Task) (effect : Effect) (name : String) : Clearing → Turn
  | .stop => task.goto effect (.stopOffline name)
  | .ensureDisabledOff => task.goto effect (.ensureOff name)
  | .targetLost recover => finishTurn effect (if recover then [recoveryTask name] else [])

/-- Where one line of an mpv connection leads its observer. -/
def observeLine (name : String) (message : Option Value) : Pc :=
  match message with
  | none => .observeRead name
  | some message =>
      match (message.get "event").bind Value.asStr with
      | some "property-change" =>
          match (message.get "name").bind Value.asStr with
          | none => .observeRead name
          | some property =>
              match observedProperties.find? fun entry => entry.1 = property with
              | none => .observeRead name
              | some (_, field) => .updateObserved name field ((message.get "data").getD .null)
      | some "end-file" =>
          .updateMediaEnd name (mediaEndReason ((message.get "reason").bind Value.asStr))
            (((message.get "file_error").bind Value.asStr).filter fun error => error ≠ "")
      | some "file-loaded" => .clearMediaEnd name
      | _ => .observeRead name

/-- The first section of `add`: the new entry, or why there is none. -/
def addChecked (inner : Inner) (name : String) (source : Option String) (enable : Bool) :
    Except SupervisorError TargetConfig :=
  match inner.targets.get? name with
  | some _ => .error (.targetExists name)
  | none =>
      match source with
      | none => .ok { name, disabled := !enable, channel := none }
      | some source =>
          match inner.targets.get? source with
          | none => .error (.unknownTarget source)
          | some target => .ok { name, disabled := !enable, channel := target.config.channel }

/-- The first section of `rename`. -/
def renameChecked (inner : Inner) (name replacement : String) : Except SupervisorError Unit :=
  match inner.targets.get? name with
  | none => .error (.unknownTarget name)
  | some target =>
      match inner.targets.get? replacement with
      | some _ => .error (.targetExists replacement)
      | none => if target.stopped then .ok () else .error .renameRequiresStopped

/-- One step of a task; `none` when it cannot move with this external result or has finished. -/
def Task.turn (toml : Toml) (view : View) (task : Task) (external : External) : Option Turn :=
  let onTarget (name : String) (op : TargetOp) : Effect := .locked (.onTarget name op)
  match task.pc with
  | .start name =>
      let effect := onTarget name .start
      match (view.inner.targets.get? name).map fun target => (startSection target).value with
      | none => some (task.ret effect [] (.error (.unknownTarget name)))
      | some (.error error) => some (task.ret effect [] (.error error))
      | some (.ok true) => some (task.goto effect (.launchConfig name))
      | some (.ok false) => some (task.goto effect (.targetRecord name))
  | .launchConfig name =>
      match view.inner.targets.get? name with
      | none => some (task.goto .none (.launchFailed name (.unknownTarget name)))
      | some _ => some (task.goto .none (.launchProbe name))
  | .launchProbe name =>
      external.probe (task.goto .none (.launchOnline name)) (task.goto .none (.launchSpawn name))
  | .launchSpawn name =>
      match external with
      | .ok => some (task.goto .none (.launchOnline name))
      | .failed error => some (task.goto .none (.launchFailed name error))
      | .line _ => none
  | .launchOnline name =>
      some { task.goto (onTarget name .markOnline) (.targetRecord name) with
        spawned := onlineObservers view name }
  | .launchFailed name error =>
      some (task.ret (onTarget name .clearLaunching) [recoveryTask name] (.error error))
  | .stop name =>
      let effect := onTarget name .stop
      match (view.inner.targets.get? name).map fun target => (stopSection target).value with
      | none => some (task.ret effect [] (.error (.unknownTarget name)))
      | some (.error error) => some (task.ret effect [] (.error error))
      | some (.ok true) => some (task.goto effect (.stopQuit name))
      | some (.ok false) => some (task.goto effect (.clearObserved name .stop))
  | .stopQuit name => task.await external (task.goto .none (.stopGone name))
  | .stopGone name => task.await external (task.goto .none (.clearObserved name .stop))
  | .stopOffline name => some (task.goto (onTarget name .markOffline) (.targetRecord name))
  | .clearObserved name clearing =>
      let effect := .lockedThenSend (.onTarget name .clearObserved)
      match (view.inner.targets.get? name).bind fun target => (clearObservedSection target).changed with
      | some _ => some (task.goto effect (.clearObservedSend name clearing))
      | none => some (task.afterClear effect name clearing)
  | .clearObservedSend name clearing => some (task.afterClear .send name clearing)
  | .ensureProbe name =>
      external.probe (task.goto .none (.ensureQuit name))
        (task.goto .none (.clearObserved name .ensureDisabledOff))
  | .ensureQuit name => task.await external (task.goto .none (.ensureGone name))
  | .ensureGone name => task.await external (task.goto .none (.clearObserved name .ensureDisabledOff))
  | .ensureOff name =>
      let effect := onTarget name .ensureDisabledOff
      match view.inner.targets.get? name with
      | none => some (task.ret effect [] (.error (.unknownTarget name)))
      | some _ => some (task.ret effect [] (.ok .done))
  | .restart name =>
      some (task.read view name fun target =>
        if target.config.disabled then task.call (.ensureProbe name) (.restartEnsured name)
        else task.goto .none (.restartStopped name))
  | .restartStopped name =>
      some (task.read view name fun target =>
        if target.stopped then task.goto .none (.start name)
        else task.call (.stop name) (.restartStop name))
  | .disable name =>
      some (task.read view name fun target =>
        if target.stopped then task.goto .none (.persistLock name .disable)
        else task.call (.stop name) (.disableStop name))
  | .persistLock name change => task.acquire view (.persist name change)
  | .persist name change =>
      let effect := .locked (.persistTargetChange name change external)
      match (persistTargetChange toml external name change view.inner).2 with
      | .returned (.ok ()) => some (task.goto effect (.targetRecord name))
      | .returned (.error error) => some (task.ret effect [] (.error error))
      | .panicked => some ⟨effect, .panicked, [], []⟩
  | .targetRecord name => some (task.record view name)
  | .addLock name source enable => task.acquire view (.addCheck name source enable)
  | .addCheck name source enable =>
      match addChecked view.inner name source enable with
      | .error error => some (task.ret .none [] (.error error))
      | .ok target => some (task.goto .none (.addPrepare target))
  | .addPrepare target => task.await external (task.goto .none (.addCandidate target))
  | .addCandidate target =>
      some (task.goto .none (.addPersist target (view.inner.config.push target)))
  | .addPersist target candidate =>
      match validateAndPersist toml external candidate with
      | .error error => some (task.ret .none [] (.error error))
      | .ok source => some (task.goto (.writeFile source) (.addCommit target candidate))
  | .addCommit target candidate =>
      some (task.goto (.locked (.addCommit candidate target)) (.addRecord target.name))
  | .addRecord name => some (task.record view name)
  | .removeLock name => task.acquire view (.removeCheck name)
  | .removeCheck name =>
      some (task.read view name fun target =>
        if target.stopped then task.goto .none (.removeStage name)
        else task.call (.stop name) (.removeStop name))
  | .removeStage name => task.await external (task.goto .none (.removeCandidate name))
  | .removeCandidate name =>
      some (task.goto .none (.removePersist name (view.inner.config.without name)))
  | .removePersist name candidate =>
      match validateAndPersist toml external candidate with
      | .error error => some (task.ret .none [] (.error error))
      | .ok source => some (task.goto (.writeFile source) (.removeCommit name candidate))
  | .removeCommit name candidate =>
      some (task.goto (.locked (.removeCommit candidate name)) (.removeClean name))
  | .removeClean _ => task.await external (task.ret .none [] (.ok .done))
  | .renameLock name replacement => task.acquire view (.renameCheck name replacement)
  | .renameCheck name replacement =>
      match renameChecked view.inner name replacement with
      | .error error => some (task.ret .none [] (.error error))
      | .ok () => some (task.goto .none (.renameMove name replacement))
  | .renameMove name replacement =>
      task.await external (task.goto .none (.renameCandidate name replacement))
  | .renameCandidate name replacement =>
      match view.inner.config.renamed name replacement with
      | none => some (task.ret .none [] (.error (.unknownTarget name)))
      | some candidate => some (task.goto .none (.renamePersist name replacement candidate))
  | .renamePersist name replacement candidate =>
      match validateAndPersist toml external candidate with
      | .error error => some (task.ret .none [] (.error error))
      | .ok source =>
          some (task.goto (.writeFile source) (.renameCommit name replacement candidate))
  | .renameCommit name replacement candidate =>
      let effect := .locked (.renameCommit candidate name replacement)
      match view.inner.targets.get? name with
      | none => some ⟨effect, .panicked, [], []⟩
      | some _ => some (task.goto effect (.renameRecord replacement))
  | .renameRecord replacement => some (task.record view replacement)
  | .mpvOnline name =>
      some (task.read view name fun target =>
        if target.online then task.goto .none (.mpvIpc name)
        else task.ret .none [] (.error .targetNotRunning))
  | .mpvIpc _ => task.await external (task.ret .none [] (.ok .done))
  | .saveLock name =>
      if view.mutationsFree then some (task.call (.mpvOnline name) (.saveChannel name)) else none
  | .saveWrite _ => task.await external (task.ret .none [] (.ok .done))
  | .observeConnect name =>
      external.probe (task.goto .none (.observeRead name)) (task.goto .none (.targetLost name))
  | .observeRead name =>
      match external with
      | .line message => some (task.goto .none (observeLine name message))
      | .failed _ => some (task.goto .none (.targetLost name))
      | .ok => none
  | .updateObserved name field value =>
      some (task.goto (onTarget name (.updateObserved field value)) (.observeRead name))
  | .updateMediaEnd name reason error =>
      let effect := .lockedThenSend (.onTarget name (.updateMediaEnd reason error))
      match (view.inner.targets.get? name).bind fun target =>
          (updateMediaEndSection reason error target).changed with
      | some _ => some (task.goto effect (.mediaEndSend name))
      | none => some (task.goto effect (.observeRead name))
  | .clearMediaEnd name =>
      let effect := .lockedThenSend (.onTarget name .clearMediaEnd)
      match (view.inner.targets.get? name).bind fun target => (clearMediaEndSection target).changed with
      | some _ => some (task.goto effect (.mediaEndSend name))
      | none => some (task.goto effect (.observeRead name))
  | .mediaEndSend name => some (task.goto .send (.observeRead name))
  | .targetLost name =>
      let effect := onTarget name .targetLost
      match (view.inner.targets.get? name).bind fun target => (targetLostSection target).value with
      | none => some (finishTurn effect [])
      | some recover => some (task.goto effect (.clearObserved name (.targetLost recover)))
  | .recoverAdmit name =>
      let effect := onTarget name .admitRecovery
      match (view.inner.targets.get? name).map fun target => (admitRecoverySection target).value with
      | some true => some (task.goto effect (.recoverCheck name 1))
      | _ => some (finishTurn effect [])
  | .recoverCheck name delay =>
      let effect := onTarget name .stillExpected
      match (view.inner.targets.get? name).map fun target => (stillExpectedSection target).value with
      | some true => some ⟨effect, .start name, .recovery name delay :: task.callers, []⟩
      | _ => some (finishTurn effect [])
  | .startupList => some (task.goto .none (.startupNext view.inner.targets.keys))
  | .startupNext [] => some (task.ret .none [] (.ok .done))
  | .startupNext (name :: rest) =>
      match view.inner.targets.get? name with
      | none => some ⟨.none, .panicked, [], []⟩
      | some target =>
          if target.config.disabled then some (task.call (.ensureProbe name) (.startupEnsured rest))
          else some (task.goto .none (.startupProbe name rest))
  | .startupProbe name rest =>
      external.probe (task.goto .none (.startupOnline name rest))
        (task.call (.start name) (.startupStarted name rest))
  | .startupOnline name rest =>
      some { task.goto (onTarget name .markOnline) (.startupNext rest) with
        spawned := onlineObservers view name }
  | .done _ => none
  | .panicked => none

end MpvTargets

import MpvTargets.CommandGrammar
import MpvTargets.Library.CallLog
import MpvTargets.RemoteClient
import Mathlib.Data.List.TakeWhile

/-! The `targets` commands that work on several targets: which targets `lifecycle` and `mpv_action` select
and what they send to each. What they print is left out. -/

namespace MpvTargets

open Protocol RemoteClient CallLog

/-- The name that `{:?}` gives. -/
def Protocol.ErrorCode.debug : ErrorCode → String
  | .invalidRequest => "InvalidRequest"
  | .unknownTarget => "UnknownTarget"
  | .targetAlreadyStopped => "TargetAlreadyStopped"
  | .targetNotRunning => "TargetNotRunning"
  | .targetDisabled => "TargetDisabled"
  | .configRejected => "ConfigRejected"
  | .targetOffline => "TargetOffline"
  | .mpvRejected => "MpvRejected"
  | .timeout => "Timeout"
  | .ipcLost => "IpcLost"
  | .shuttingDown => "ShuttingDown"

def RemoteClient.ClientError.message : ClientError → String
  | .connect message => "cannot connect: " ++ message
  | .disconnected => "transport is disconnected"
  | .timeout => "request timed out"
  | .remote code message => "server returned " ++ code.debug ++ ": " ++ message
  | .protocol message => "invalid server message: " ++ message

namespace Cli

/-- What becomes of a request: the connection is found lost, the command queue is closed, or the request is
sent and ends with an outcome. -/
inductive Reply where
  | disconnected (error : RemoteClient.ClientError)
  | unsent (error : RemoteClient.ClientError)
  | sent (outcome : Outcome)

/-- The connection as a command sees it. The log has the operations that were sent, with their targets; when
no reply is left the connection is lost. `decodeError` is what `serde_json` says of data it cannot decode. -/
structure Session where
  nextId : UInt64
  replies : List Reply
  sent : List (String × Operation)
  decodeError : Value → String

/-- `request_inner`, of a request with a target. -/
def Session.request (session : Session) (target : String) (operation : Operation) : Outcome × Session :=
  match session.replies with
  | [] => (.error .disconnected, session)
  | .disconnected error :: replies => (.error error, { session with replies })
  | reply :: replies =>
      let numbered := { session with replies, nextId := session.nextId + 1 }
      match Request.validate { id := clientId session.nextId, target := some target, operation } with
      | .error error => (.error (.protocol error.message), numbered)
      | .ok () =>
          match reply with
          | .disconnected error | .unsent error => (.error error, numbered)
          | .sent outcome => (outcome, { numbered with sent := session.sent ++ [(target, operation)] })

/-- `TargetClient::request`, with the error as the text that its callers make of it. -/
def request (target : String) (operation : Operation) : Program String Session Response :=
  ExceptT.mk fun session =>
    ((session.request target operation).1.mapError RemoteClient.ClientError.message,
      (session.request target operation).2)

def decodeSuccess {α : Type} (decode : Value → Option α) : Response → Program String Session α
  | .success _ data =>
      match decode data with
      | some decoded => pure decoded
      | none => do
          let session ← get
          throw (RemoteClient.ClientError.protocol (session.decodeError data)).message
  | .error _ error => throw (RemoteClient.ClientError.remote error.code error.message).message

def responseData : Response → Program String Session Value
  | .success _ data => pure data
  | .error _ error => throw (error.code.debug ++ ": " ++ error.message)

structure LifecycleResult where
  online : Bool
  stopped : Bool

/-- A derived `Deserialize` takes a struct from its fields, or from an array of them in order. -/
def LifecycleResult.decode : Value → Option LifecycleResult
  | .array [online, stopped] => do return ⟨← online.asBool, ← stopped.asBool⟩
  | value => do
      return ⟨← requiredField Value.asBool value "online", ← requiredField Value.asBool value "stopped"⟩

structure EnableResult where
  disabled : Bool

def EnableResult.decode : Value → Option EnableResult
  | .array [disabled] => do return ⟨← disabled.asBool⟩
  | value => do return ⟨← requiredField Value.asBool value "disabled"⟩

namespace TargetClient

inductive LoadMode where
  | replace
  | append
  | appendPlay

def LoadMode.asStr : LoadMode → String
  | .replace => "replace"
  | .append => "append"
  | .appendPlay => "append-play"

inductive LoopState where
  | off
  | on

def LoopState.asMpvValue : LoopState → String
  | .off => "no"
  | .on => "inf"

def setProperty (name : String) (value : Value) : Operation := .mpv "set_property" [.string name, value]

def cycle (name : String) : Operation := .mpv "cycle" [.string name]

def load (source : String) (mode : LoadMode) : Operation :=
  .mpv "loadfile" [.string source, .string mode.asStr]

def play : Operation := setProperty "pause" (.bool false)

def pause : Operation := setProperty "pause" (.bool true)

def togglePlay : Operation := cycle "pause"

def next : Operation := .mpv "playlist-next" []

def previous : Operation := .mpv "playlist-prev" []

def shuffle : Operation := .mpv "playlist-shuffle" []

def unshuffle : Operation := .mpv "playlist-unshuffle" []

def mute : Operation := setProperty "mute" (.bool true)

def unmute : Operation := setProperty "mute" (.bool false)

def toggleMute : Operation := cycle "mute"

def fullscreen : Operation := cycle "fullscreen"

def setLoop (state : LoopState) : Operation := setProperty "loop-file" (.string state.asMpvValue)

def setRepeat (state : LoopState) : Operation := setProperty "loop-playlist" (.string state.asMpvValue)

def cycleAudio : Operation := cycle "aid"

def cycleSubtitle : Operation := cycle "sid"

def toggleSubtitle : Operation := cycle "sub-visibility"

end TargetClient

def lifecycleAllTargets (snapshot : Snapshot) (command : LifecycleCommand) : List String :=
  (snapshot.targets.filter fun target =>
    !target.disabled &&
      match command with
      | .start => target.stopped
      | .stop | .restart => target.online
      | _ => false).map TargetRecord.name

def lifecycleTargets (snapshot : Option Snapshot) (command : LifecycleCommand) (args : List String) :
    Except String (List String) :=
  let targets := args.filter fun arg => !isFlag arg
  if targets.head? = some "all" then
    match snapshot with
    | none => .error "daemon did not send a snapshot"
    | some snapshot => .ok (lifecycleAllTargets snapshot command)
  else .ok targets

/-- A request whose response is decoded. -/
def ask {α : Type} (decode : Value → Option α) (target : String) (operation : Operation) :
    Program String Session α :=
  request target operation >>= decodeSuccess decode

/-- The first match of the loop of `lifecycle`. -/
def lifecycleRequest (target : String) : LifecycleCommand → Program String Session PUnit
  | .start => discard (ask LifecycleResult.decode target .targetStart)
  | .stop => discard (ask LifecycleResult.decode target .targetStop)
  | .restart => discard (ask LifecycleResult.decode target .targetRestart)
  | .enable => discard (ask EnableResult.decode target .targetEnable)
  | .disable => discard (ask EnableResult.decode target .targetDisable)

/-- The body of the loop of `lifecycle`. -/
def lifecycleTurn (command : LifecycleCommand) (args : List String) (target : String) :
    Program String Session PUnit := do
  lifecycleRequest target command
  if command = .enable ∧ "--start" ∈ args then
    discard (ask LifecycleResult.decode target .targetStart)

def lifecycle (snapshot : Option Snapshot) (command : LifecycleCommand) (args : List String) :
    Program String Session PUnit :=
  match lifecycleTargets snapshot command args with
  | .error error => throw error
  | .ok targets => targets.forM (lifecycleTurn command args)

/-- The online targets that are not disabled. -/
def runningTargets (snapshot : Snapshot) : List TargetRecord :=
  snapshot.targets.filter fun target => target.online && !target.disabled

def mpvTargets (snapshot : Snapshot) (command : MpvCommand) (args : List String) (firstTarget : String) :
    List String :=
  if firstTarget = "all" then (runningTargets snapshot).map TargetRecord.name
  else
    match command with
    | .loadfile | .append | .fullscreen | .cycleAudio | .cycleSubtitle | .toggleSubtitle => [firstTarget]
    | _ => args

/-- `loop` and `repeat` switch to the state that the snapshot does not show. -/
def toggled (snapshot : Snapshot) (field : TargetState → Option String) (target : String) :
    TargetClient.LoopState :=
  let shown := (snapshot.targets.find? fun candidate => candidate.name == target).bind fun record =>
    field record.state
  if shown = some "on" then .off else .on

/-- The request that a turn of `mpv_action` makes. The grammar gives `loadfile` and `append` two
arguments. -/
def mpvOperation (snapshot : Snapshot) (args : List String) (bulk : Bool) (target : String) :
    MpvCommand → Operation
  | .play => TargetClient.play
  | .pause => TargetClient.pause
  | .togglePlay =>
      if bulk then
        if (runningTargets snapshot).all fun target => target.state.paused == some true then
          TargetClient.play
        else TargetClient.pause
      else TargetClient.togglePlay
  | .loadfile => TargetClient.load (args.getD 1 "") .replace
  | .append => TargetClient.load (args.getD 1 "") .append
  | .next => TargetClient.next
  | .previous => TargetClient.previous
  | .mute => TargetClient.mute
  | .unmute => TargetClient.unmute
  | .toggleMute => TargetClient.toggleMute
  | .fullscreen => TargetClient.fullscreen
  | .loop => TargetClient.setLoop (toggled snapshot TargetState.loopFile target)
  | .repeat => TargetClient.setRepeat (toggled snapshot TargetState.loopPlaylist target)
  | .shuffle => TargetClient.shuffle
  | .unshuffle => TargetClient.unshuffle
  | .cycleAudio => TargetClient.cycleAudio
  | .cycleSubtitle => TargetClient.cycleSubtitle
  | .toggleSubtitle => TargetClient.toggleSubtitle

/-- The body of the loop of `mpv_action`. -/
def mpvTurn (operation : String → Operation) (target : String) : Program String Session PUnit := do
  let response ← request target (operation target)
  discard (responseData response)

def mpvAction (snapshot : Option Snapshot) (command : MpvCommand) :
    List String → Program String Session PUnit
  | [] => throw "target is required"
  | firstTarget :: rest =>
      match snapshot with
      | none => throw "daemon did not send a snapshot"
      | some snapshot =>
          (mpvTargets snapshot command (firstTarget :: rest) firstTarget).forM
            (mpvTurn fun target =>
              mpvOperation snapshot (firstTarget :: rest) (firstTarget == "all") target command)

/-- The part of `run` that ends in `lifecycle` or `mpv_action`. -/
def execute (snapshot : Option Snapshot) (word : String) (args : List String) :
    Program String Session PUnit :=
  match Command.ofWord word with
  | some (.lifecycle command) => lifecycle snapshot command args
  | some (.action command) => mpvAction snapshot command args
  | _ => pure PUnit.unit -- the other commands have functions of their own

/-- A name that a request may carry. -/
def isTargetName (name : String) : Bool := (validateTargetName name).isOk

theorem on_request (target : String) (operation : Operation) (session : Session) :
    (request target operation).on session =
      ((session.request target operation).1.mapError RemoteClient.ClientError.message,
        (session.request target operation).2) := rfl

/-- A request sends its operation to its target or nothing. -/
theorem request_logs (target : String) (operation : Operation) :
    Logs Session.sent (fun call => call.1 = target) (request target operation) := by
  intro session
  rw [on_request]
  unfold Session.request
  split
  · exact ⟨[], by simp, by simp⟩
  · exact ⟨[], by simp, by simp⟩
  · split
    · exact ⟨[], by simp, by simp⟩
    · split
      · exact ⟨[], by simp, by simp⟩
      · exact ⟨[], by simp, by simp⟩
      · exact ⟨[(target, operation)], by simp, by simp⟩

theorem decodeSuccess_logs {α : Type} (decode : Value → Option α) (response : Response)
    (allowed : String × Operation → Prop) : Logs Session.sent allowed (decodeSuccess decode response) := by
  cases response with
  | success id data =>
      intro session
      refine ⟨[], ?_, by simp⟩
      rw [List.append_nil]
      cases h : decode data with
      | none =>
          simp only [decodeSuccess, h]
          rfl
      | some decoded =>
          simp only [decodeSuccess, h]
          rfl
  | error id error => exact Logs.throw _

theorem ask_logs {α : Type} (decode : Value → Option α) (target : String) (operation : Operation) :
    Logs Session.sent (fun call => call.1 = target) (ask decode target operation) :=
  (request_logs target operation).bind fun response => decodeSuccess_logs decode response _

theorem discard_logs {α : Type} {allowed : String × Operation → Prop} {program : Program String Session α}
    (h : Logs Session.sent allowed program) :
    Logs Session.sent allowed (discard program : Program String Session PUnit) :=
  h.bind fun _ => Logs.pure _

theorem lifecycleTurn_logs (command : LifecycleCommand) (args : List String) (target : String) :
    Logs Session.sent (fun call => call.1 = target) (lifecycleTurn command args target) := by
  have hask : ∀ {α : Type} (decode : Value → Option α) (operation : Operation),
      Logs Session.sent (fun call => call.1 = target)
        (discard (ask decode target operation) : Program String Session PUnit) :=
    fun decode operation => discard_logs (ask_logs decode target operation)
  unfold lifecycleTurn
  apply Logs.bind
  · cases command <;> exact hask _ _
  · intro _
    split
    · exact hask _ _
    · exact Logs.pure _

/-- `lifecycle` sends to the names of its vector, and to others only when that begins with `all`. -/
theorem lifecycle_logs (snapshot : Option Snapshot) (command : LifecycleCommand) (args : List String) :
    Logs Session.sent (fun call => (call.1 ∈ args.filter fun arg => !isFlag arg) ∨ "all" ∈ args)
      (lifecycle snapshot command args) := by
  unfold lifecycle
  cases htargets : lifecycleTargets snapshot command args with
  | error error => exact Logs.throw error
  | ok targets =>
      refine Logs.forM_of_mem fun target htarget => ?_
      refine (lifecycleTurn_logs command args target).mono fun call hcall => ?_
      rw [hcall]
      unfold lifecycleTargets at htargets
      by_cases hall : (args.filter fun arg => !isFlag arg).head? = some "all"
      · exact .inr (List.mem_filter.mp (List.mem_of_mem_head? hall)).1
      · rw [if_neg hall, Except.ok.injEq] at htargets
        subst htargets
        exact .inl htarget

theorem validate_mpv {command : String} (h : isAllowedMpvCommand command = true) (args : List Value) :
    (Operation.mpv command args).validate = .ok () := if_pos h

theorem validate_mpvOperation (snapshot : Snapshot) (args : List String) (bulk : Bool) (target : String)
    (command : MpvCommand) : (mpvOperation snapshot args bulk target command).validate = .ok () := by
  cases command with
  | togglePlay =>
      unfold mpvOperation
      dsimp only
      split_ifs <;> exact validate_mpv (by decide) _
  | _ => exact validate_mpv (by decide) _

/-- A request with an allowed operation passes the check when its target has a valid name. -/
theorem validate_request_iff {operation : Operation} (hoperation : operation.validate = .ok ())
    (hcatalog : operation ≠ .nodeListChannels) (counter : UInt64) (target : String) :
    Request.validate { id := clientId counter, target := some target, operation } = .ok () ↔
      isTargetName target = true := by
  have hid : (clientId counter).toList.isEmpty = false := by
    unfold clientId
    simp
  unfold Request.validate isTargetName
  rw [if_neg (by rw [hid]; decide)]
  cases hname : validateTargetName target with
  | error error => cases operation <;> simp_all [Except.isOk, Except.toBool]
  | ok _ => cases operation <;> simp_all [Except.isOk, Except.toBool]

theorem mpvOperation_ne (snapshot : Snapshot) (args : List String) (bulk : Bool) (target : String)
    (command : MpvCommand) : mpvOperation snapshot args bulk target command ≠ .nodeListChannels := by
  intro h
  cases command with
  | togglePlay =>
      unfold mpvOperation at h
      dsimp only at h
      split_ifs at h <;> cases h
  | _ => cases h

section

variable {operation : String → Operation} (hvalid : ∀ target, (operation target).validate = .ok ())
  (hcatalog : ∀ target, operation target ≠ .nodeListChannels)
include hvalid hcatalog

/-- A turn for a name that no request may carry fails before anything is sent. -/
theorem mpvTurn_stops {target : String} (hname : isTargetName target = false) (session : Session) :
    ∃ error after, (mpvTurn operation target).on session = (.error error, after) ∧
      after.sent = session.sent := by
  have hrequest : ∃ error after, session.request target (operation target) = (.error error, after) ∧
      after.sent = session.sent := by
    have hrefused : Request.validate
        { id := clientId session.nextId, target := some target, operation := operation target } ≠ .ok () := by
      intro hok
      rw [validate_request_iff (hvalid target) (hcatalog target), hname] at hok
      cases hok
    unfold Session.request
    split
    · exact ⟨_, _, rfl, rfl⟩
    · exact ⟨_, _, rfl, rfl⟩
    · split
      · exact ⟨_, _, rfl, rfl⟩
      · exact absurd ‹_› hrefused
  obtain ⟨error, after, houtcome, hsent⟩ := hrequest
  refine ⟨error.message, after, ?_, hsent⟩
  unfold mpvTurn
  rw [on_bind, on_request, houtcome]
  rfl

/-- The connection answers this many more requests with success. -/
def Answers (count : Nat) (session : Session) : Prop :=
  session.replies = List.replicate count (.sent (.ok (.success "" .null)))

theorem mpvTurn_sends {target : String} (hname : isTargetName target = true) (count : Nat)
    (session : Session) (hanswers : Answers (count + 1) session) :
    ∃ after, (mpvTurn operation target).on session = (.ok PUnit.unit, after) ∧
      after.sent = session.sent ++ [(target, operation target)] ∧ Answers count after := by
  let after : Session := { session with
    replies := List.replicate count (.sent (.ok (.success "" .null)))
    nextId := session.nextId + 1
    sent := session.sent ++ [(target, operation target)] }
  have hsucceeds : session.request target (operation target) = (.ok (.success "" .null), after) := by
    unfold Session.request
    rw [show session.replies = _ from hanswers, List.replicate_succ]
    dsimp only
    rw [(validate_request_iff (hvalid target) (hcatalog target) session.nextId target).mpr hname]
  refine ⟨after, ?_, rfl, rfl⟩
  unfold mpvTurn
  rw [on_bind, on_request, hsucceeds]
  rfl

end

theorem mpvTurn_logs (operation : String → Operation) (target : String) :
    Logs Session.sent (fun call => call.1 = target) (mpvTurn operation target) := by
  refine (request_logs target (operation target)).bind fun response => discard_logs ?_
  cases response with
  | success id data => exact Logs.pure data
  | error id error => exact Logs.throw _

/-! ### Bulk selection -/

/-- The commands whose help line allows `all`. -/
def bulkCommands : List String := ["start", "stop", "restart", "play", "pause", "toggle-play", "mute"]

/-- The words of a vector that stand for targets: `loadfile` and `append` take a path after the first. -/
def targetWords (word : String) (args : List String) : List String :=
  if word ∈ ["loadfile", "append"] then args.take 1 else args.filter fun arg => !isFlag arg

/-- With every connection, operations go to targets that the vector names, or the vector is `all` and the
command allows it. -/
def SelectsGranted (snapshot : Option Snapshot) (word : String) (args : List String) : Prop :=
  ∀ session : Session, session.sent = [] → ∀ call ∈ ((execute snapshot word args).on session).2.sent,
    call.1 ∈ targetWords word args ∨ (args = ["all"] ∧ word ∈ bulkCommands)

/-- The commands for one target whose form takes any word for the target. -/
def singleTargetCommands : List String :=
  ["loadfile", "append", "fullscreen", "cycle-audio", "cycle-subtitle", "toggle-subtitle"]

/-- The vector of a command for one target begins with `all`, and the node runs a target that the vector does
not name. A name that no request may carry ends the command before it. -/
def ExpandsAll (snapshot : Option Snapshot) (word : String) (args : List String) : Prop :=
  word ∈ singleTargetCommands ∧ args.head? = some "all" ∧
    ∃ shown ∈ snapshot, ∃ target ∈
      ((runningTargets shown).map TargetRecord.name).takeWhile isTargetName, target ∉ targetWords word args

variable {snapshot : Option Snapshot} {word : String} {args : List String}

theorem granted_of_logs
    (h : Logs Session.sent (fun call => call.1 ∈ targetWords word args) (execute snapshot word args)) :
    SelectsGranted snapshot word args := by
  intro session hsession call hcall
  obtain ⟨added, hadded, hallowed⟩ := h session
  rw [hadded, hsession, List.nil_append] at hcall
  exact .inl (hallowed call hcall)

theorem execute_action (snapshot : Option Snapshot) (command : MpvCommand) (args : List String) :
    execute snapshot command.word args = mpvAction snapshot command args := by
  unfold execute
  rw [ofWord_action_iff.mpr rfl]

theorem lifecycle_granted {command : LifecycleCommand} (hvalid : validLifecycleArgs args command = true) :
    SelectsGranted snapshot command.word args := by
  intro session hsession call hcall
  unfold execute at hcall
  rw [ofWord_lifecycle_iff.mpr rfl] at hcall
  obtain ⟨added, hadded, hallowed⟩ := lifecycle_logs snapshot command args session
  rw [hsession, List.nil_append] at hadded
  rw [hadded] at hcall
  rcases hallowed call hcall with hnamed | hall
  · have hwords : targetWords command.word args = args.filter fun arg => !isFlag arg := by
      cases command <;> exact if_neg (by decide)
    exact .inl (by rwa [hwords])
  · right
    cases command with
    | start => exact ⟨(all_of_validTargetList hvalid hall).2, by decide⟩
    | stop => exact ⟨(all_of_validTargetList hvalid hall).2, by decide⟩
    | restart => exact ⟨(all_of_validTargetList hvalid hall).2, by decide⟩
    | enable => exact absurd hall (all_not_mem_of_validTargetList (by decide) hvalid)
    | disable => cases (all_of_validTargetList hvalid hall).1

/-- What an accepted vector of `mpv_action` is when it begins with `all`. -/
theorem all_of_validMpvArgs {command : MpvCommand} {rest : List String}
    (hvalid : validMpvArgs ("all" :: rest) command = true) :
    (rest = [] ∧ command.word ∈ bulkCommands) ∨ command.word ∈ singleTargetCommands := by
  have hlist : ∀ allowAll, validTargetList ("all" :: rest) allowAll none = true →
      allowAll = true ∧ rest = [] := by
    intro allowAll hlist
    have hall := all_of_validTargetList hlist List.mem_cons_self
    exact ⟨hall.1, (List.cons.inj hall.2).2⟩
  cases command with
  | play | pause | togglePlay | mute => exact .inl ⟨(hlist true hvalid).2, by decide⟩
  | loadfile | append | fullscreen | cycleAudio | cycleSubtitle | toggleSubtitle => exact .inr (by decide)
  | next | previous | unmute | toggleMute | loop | «repeat» | shuffle | unshuffle =>
      cases (hlist false hvalid).1

/-- `mpv_action` sends to the selected targets before the first that no request may carry. -/
theorem mpvAction_logs (shown : Snapshot) (command : MpvCommand) (first : String) (rest : List String) :
    Logs Session.sent
      (fun call => call.1 ∈ (mpvTargets shown command (first :: rest) first).takeWhile isTargetName)
      (mpvAction (some shown) command (first :: rest)) := by
  let operation := fun target => mpvOperation shown (first :: rest) (first == "all") target command
  let targets := mpvTargets shown command (first :: rest) first
  have hturn : ∀ target ∈ targets, Logs Session.sent (fun call => call.1 = target) (mpvTurn operation target) :=
    fun target _ => mpvTurn_logs operation target
  have hstop : ∀ target ∈ targets, isTargetName target = false → ∀ session, ∃ error after,
      (mpvTurn operation target).on session = (.error error, after) ∧ after.sent = session.sent :=
    fun target _ hname session => mpvTurn_stops
      (fun target => validate_mpvOperation shown (first :: rest) (first == "all") target command)
      (fun target => mpvOperation_ne shown (first :: rest) (first == "all") target command) hname session
  refine (Logs.forM hturn hstop).mono fun call hcall => ?_
  obtain ⟨target, htarget, hname⟩ := hcall
  rw [hname]
  exact htarget

/-- Over a connection that answers every request, `mpv_action` does send to all of them. -/
theorem mpvAction_complete (shown : Snapshot) (command : MpvCommand) (first : String) (rest : List String) :
    ∃ session : Session, session.sent = [] ∧
      ∀ target ∈ (mpvTargets shown command (first :: rest) first).takeWhile isTargetName,
        ∃ call ∈ ((mpvAction (some shown) command (first :: rest)).on session).2.sent, call.1 = target := by
  let operation := fun target => mpvOperation shown (first :: rest) (first == "all") target command
  let targets := mpvTargets shown command (first :: rest) first
  let session : Session :=
    ⟨1, List.replicate targets.length (.sent (.ok (.success "" .null))), [], fun _ => ""⟩
  have hlogs : ∀ target ∈ targets, Logs Session.sent (fun _ => True) (mpvTurn operation target) :=
    fun target _ => (mpvTurn_logs operation target).mono fun _ _ => trivial
  have hsends : ∀ target ∈ targets, isTargetName target = true → ∀ count session,
      Answers (count + 1) session → ∃ after, (mpvTurn operation target).on session = (.ok PUnit.unit, after) ∧
        after.sent = session.sent ++ [(target, operation target)] ∧ Answers count after :=
    fun target _ hname count session hanswers => mpvTurn_sends
      (fun target => validate_mpvOperation shown (first :: rest) (first == "all") target command)
      (fun target => mpvOperation_ne shown (first :: rest) (first == "all") target command)
      hname count session hanswers
  have hroom : Answers targets.length session := rfl
  have hall := forM_complete hlogs hsends hroom
  exact ⟨session, rfl, fun target htarget => ⟨_, hall target htarget, rfl⟩⟩

/-- No request may carry a flag for a name. -/
theorem isFlag_eq_false {name : String} (h : isTargetName name = true) : isFlag name = false := by
  have hvalid : validateTargetName name = .ok () := by
    unfold isTargetName at h
    cases hname : validateTargetName name with
    | error error =>
        rw [hname] at h
        cases h
    | ok => rfl
  obtain ⟨_, first, rest, hchars, hstart, _⟩ := (validateTargetName_ok_iff name).mp hvalid
  have hne : ('-' == first) = false := by
    rw [beq_eq_false_iff_ne]
    rintro rfl
    cases hstart
  rw [isFlag, hchars, List.isPrefixOf, hne, Bool.false_and]

theorem mem_targetWords {shown : Snapshot} {command : MpvCommand} {first target : String}
    {rest : List String} (hfirst : first ≠ "all")
    (h : target ∈ (mpvTargets shown command (first :: rest) first).takeWhile isTargetName) :
    target ∈ targetWords command.word (first :: rest) := by
  have hflag : (!isFlag target) = true := by
    rw [isFlag_eq_false (List.mem_takeWhile_imp h)]
    rfl
  have hmem := (List.takeWhile_sublist _).subset h
  unfold mpvTargets at hmem
  rw [if_neg hfirst] at hmem
  cases command with
  | loadfile | append => exact hmem
  | fullscreen | cycleAudio | cycleSubtitle | toggleSubtitle =>
      rw [List.mem_singleton.mp hmem] at hflag ⊢
      exact List.mem_filter.mpr ⟨List.mem_cons_self, hflag⟩
  | _ => exact List.mem_filter.mpr ⟨hmem, hflag⟩

/-- The vector begins with `all`. -/
theorem mpvAction_granted_iff (shown : Snapshot) {command : MpvCommand} (rest : List String)
    (hvalid : validMpvArgs ("all" :: rest) command = true) :
    SelectsGranted (some shown) command.word ("all" :: rest) ↔
      ¬ExpandsAll (some shown) command.word ("all" :: rest) := by
  have hdisjoint : ∀ word ∈ bulkCommands, word ∉ singleTargetCommands := by decide
  constructor
  · rintro hgranted ⟨hsingle, -, shown', hshown, target, htarget, hunnamed⟩
    obtain rfl : shown = shown' := Option.some.inj hshown
    obtain ⟨session, hsession, hsent⟩ := mpvAction_complete shown command "all" rest
    obtain ⟨call, hcall, rfl⟩ := hsent target htarget
    rcases hgranted session hsession call (by rw [execute_action]; exact hcall) with hnamed | ⟨-, hbulk⟩
    · exact hunnamed hnamed
    · exact hdisjoint _ hbulk hsingle
  · intro hexpands session hsession call hcall
    rw [execute_action] at hcall
    obtain ⟨added, hadded, hallowed⟩ := mpvAction_logs shown command "all" rest session
    rw [hadded, hsession, List.nil_append] at hcall
    have hselected := hallowed call hcall
    rcases all_of_validMpvArgs hvalid with ⟨rfl, hbulk⟩ | hsingle
    · exact .inr ⟨rfl, hbulk⟩
    · left
      by_contra hunnamed
      exact hexpands ⟨hsingle, rfl, shown, rfl, call.1, hselected, hunnamed⟩

/-- The vector begins with another word, or is empty. -/
theorem mpvAction_granted {command : MpvCommand} (hfirst : args.head? ≠ some "all") :
    SelectsGranted snapshot command.word args := by
  apply granted_of_logs
  rw [execute_action]
  cases args with
  | nil => exact Logs.throw _
  | cons first rest =>
      cases snapshot with
      | none => exact Logs.throw _
      | some shown =>
          exact (mpvAction_logs shown command first rest).mono fun call hselected =>
            mem_targetWords (fun h => hfirst (by rw [h]; rfl)) hselected

theorem exists_command_of_single (h : word ∈ singleTargetCommands) :
    ∃ command : MpvCommand, word = command.word := by
  simp only [singleTargetCommands, List.mem_cons, List.not_mem_nil, or_false] at h
  rcases h with rfl | rfl | rfl | rfl | rfl | rfl
  · exact ⟨.loadfile, rfl⟩
  · exact ⟨.append, rfl⟩
  · exact ⟨.fullscreen, rfl⟩
  · exact ⟨.cycleAudio, rfl⟩
  · exact ⟨.cycleSubtitle, rfl⟩
  · exact ⟨.toggleSubtitle, rfl⟩

/-- An accepted vector reaches only the targets that the grammar grants, unless it begins with `all` and its
command is one of those for a single target. -/
theorem bulk_selection_iff (snapshot : Option Snapshot) (word : String) (args : List String)
    (haccepted : validateCommandArgs word args = .ok ()) :
    SelectsGranted snapshot word args ↔ ¬ExpandsAll snapshot word args := by
  cases hword : Command.ofWord word with
  | none =>
      unfold validateCommandArgs at haccepted
      rw [hword] at haccepted
      cases haccepted
  | some command =>
      have hvalid := validArgs_of_accepted haccepted hword
      have hnotSingle : (∀ action, command ≠ .action action) → ¬ExpandsAll snapshot word args := by
        rintro hother ⟨hsingle, -⟩
        obtain ⟨action, rfl⟩ := exists_command_of_single hsingle
        rw [ofWord_action_iff.mpr rfl, Option.some.injEq] at hword
        exact hother action hword.symm
      cases command with
      | lifecycle command =>
          obtain rfl := ofWord_lifecycle_iff.mp hword
          exact iff_of_true (lifecycle_granted hvalid) (hnotSingle (by simp))
      | action command =>
          obtain rfl := ofWord_action_iff.mp hword
          by_cases hfirst : args.head? = some "all"
          · obtain ⟨rest, rfl⟩ := List.head?_eq_some_iff.mp hfirst
            cases snapshot with
            | some shown => exact mpvAction_granted_iff shown rest hvalid
            | none =>
                refine iff_of_true (granted_of_logs ?_) ?_
                · rw [execute_action]
                  exact Logs.throw _
                · rintro ⟨-, -, shown, hshown, -⟩
                  cases hshown
          · refine iff_of_true (mpvAction_granted hfirst) ?_
            rintro ⟨-, hhead, -⟩
            exact hfirst hhead
      | _ =>
          refine iff_of_true (granted_of_logs ?_) (hnotSingle (by simp))
          unfold execute
          rw [hword]
          exact Logs.pure _

/-- A node that runs the one target `movies`. -/
def moviesOnline : Snapshot :=
  ⟨protocolVersion, "fez", ⟨.ready, 1, 1, 1⟩, [⟨"movies", false, false, true, none, TargetState.default, 1⟩]⟩

/-- `targets loadfile music a.mkv`, on a node that runs only `movies`. -/
theorem bulk_selection_iff_music :
    validateCommandArgs "loadfile" ["music", "a.mkv"] = .ok () ∧
    (SelectsGranted (some moviesOnline) "loadfile" ["music", "a.mkv"] ↔
      ¬ExpandsAll (some moviesOnline) "loadfile" ["music", "a.mkv"]) :=
  ⟨by rfl, bulk_selection_iff (some moviesOnline) "loadfile" ["music", "a.mkv"] (by rfl)⟩

/-- `targets loadfile all a.mkv` replaces what `movies` plays. -/
theorem loadfile_all_not_granted :
    validateCommandArgs "loadfile" ["all", "a.mkv"] = .ok () ∧
    ¬SelectsGranted (some moviesOnline) "loadfile" ["all", "a.mkv"] := by
  refine ⟨by rfl, fun hgranted => ?_⟩
  obtain ⟨session, hsession, hsent⟩ := mpvAction_complete moviesOnline .loadfile "all" ["a.mkv"]
  have hselected : "movies" ∈
      (mpvTargets moviesOnline .loadfile ["all", "a.mkv"] "all").takeWhile isTargetName := by decide +kernel
  obtain ⟨call, hcall, hname⟩ := hsent "movies" hselected
  rcases hgranted session hsession call hcall with hnamed | ⟨hargs, -⟩
  · rw [hname] at hnamed
    exact absurd hnamed (by decide)
  · exact absurd hargs (by decide)

end Cli

end MpvTargets

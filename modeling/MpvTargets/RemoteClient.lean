import MpvTargets.RequestValidation
import MpvTargets.Library.OrderedMap
import MpvTargets.Library.Trace
import Mathlib.Data.String.Basic

/-! One connection of the shared client: the `request_inner` calls on all clones of the handle, the
`close` calls and the connection task, as they share the pending map, the command queue and the
disconnect flags. A label is one critical section of one of them; reading a message off the socket
or writing to it is local to the connection task and joined with the section next to it. -/

namespace MpvTargets.RemoteClient

open Protocol

/-- The errors `request_inner` and `run_connection` can end with. -/
inductive ClientError where
  | connect (message : String)
  | disconnected
  | timeout
  | remote (code : ErrorCode) (message : String)
  | protocol (message : String)
  deriving DecidableEq, Repr

inductive DisconnectReason where
  | closed
  | failed (error : ClientError)
  deriving DecidableEq, Repr

abbrev Outcome := Except ClientError Response

/-- What `handle_message` sends to the call that waits for the response. -/
def outcomeOf : Response → Outcome
  | .success id data => .ok (.success id data)
  | .error _ error => .error (.remote error.code error.message)

/-- How far a call is: what it does next. The id is the one it took from `next_id`. -/
inductive CallPc where
  | checking
  | fetching
  | inserting (request : Request)
  | sending (request : Request)
  | unsending (id : String)
  | waiting (id : String)
  | timingOut (id : String)
  | explaining (id : Option String)
  | returned (id : Option String) (outcome : Outcome)

def CallPc.id : CallPc → Option String
  | checking | fetching => none
  | inserting request | sending request => some request.id
  | unsending id | waiting id | timingOut id => some id
  | explaining id | returned id _ => id

/-- The receiving end of the oneshot exists. The timeout drops it. -/
def CallPc.listening : CallPc → Bool
  | sending _ | unsending _ | waiting _ => true
  | _ => false

/-- One call of `request_inner`; `slot` is what its oneshot channel holds. -/
structure Call where
  target : Option String
  operation : Operation
  slot : Option Outcome
  pc : CallPc

/-- `sender.send(result)`; without a receiver the result is dropped. -/
def Call.receive (result : Outcome) (call : Call) : Call :=
  if call.pc.listening then { call with slot := some result } else call

inductive ClosePc where
  | swapping
  | sending
  | waiting
  | returned
  deriving DecidableEq, Repr

/-- The close command names the call that waits for its completion. -/
inductive ClientCommand where
  | request (request : Request)
  | close (caller : Nat)

def ClientCommand.isCloseOf (index : Nat) : ClientCommand → Bool
  | request _ => false
  | close caller => caller == index

/-- The connection task: the loop, and the steps after it with the error the loop ended with. -/
inductive ConnectionPc where
  | selecting
  | ended (error : Option ClientError)
  | recorded (error : Option ClientError)
  | flagged (error : Option ClientError)
  | announced (error : Option ClientError)
  | returned
  | finished
  deriving DecidableEq, Repr

/-- `pending` maps an id to the call that holds the receiving end of its sender. -/
structure State where
  nextId : UInt64
  calls : List Call
  closes : List ClosePc
  pending : OrderedMap String Nat
  queue : List ClientCommand
  disconnected : Bool
  disconnectError : Option ClientError
  disconnect : Option DisconnectReason
  snapshot : Option Snapshot
  connection : ConnectionPc

/-- The connection as `connect_inner` spawns it. -/
def State.connected : State where
  nextId := 1
  calls := []
  closes := []
  pending := OrderedMap.empty
  queue := []
  disconnected := false
  disconnectError := none
  disconnect := none
  snapshot := none
  connection := .selecting

/-- The capacity of the command channel. -/
def queueCapacity : Nat := 32

/-- `writer.send(command)`: waits for room, and fails once the task has dropped the queue. -/
inductive SendResult where
  | sent (s : State)
  | full
  | closed

def State.send (s : State) (command : ClientCommand) : SendResult :=
  if s.connection = .finished then .closed
  else if s.queue.length < queueCapacity then .sent { s with queue := s.queue ++ [command] }
  else .full

def clientId (counter : UInt64) : String := "client-" ++ counter.toNat.repr

/-- Whether some entry of the map still holds the sender of this call. -/
def State.holdsSender (s : State) (index : Nat) : Bool :=
  s.pending.entries.any fun entry => entry.2 == index

/-- `disconnect_error().await.unwrap_or(ClientError::Disconnected)`. -/
def State.disconnectReason (s : State) : ClientError := s.disconnectError.getD .disconnected

/-- The next critical section of a call: the shared state after it and where the call is then. -/
def State.callTurn (s : State) (index : Nat) (call : Call) : Option (State × CallPc) :=
  match call.pc with
  | .checking => some (s, if s.disconnected then .explaining none else .fetching)
  | .fetching =>
      let request : Request :=
        { id := clientId s.nextId, target := call.target, operation := call.operation }
      some ({ s with nextId := s.nextId + 1 },
        match request.validate with
        | .error error => .returned (some request.id) (.error (.protocol error.message))
        | .ok () => .inserting request)
  | .inserting request =>
      some ({ s with pending := s.pending.insert request.id index }, .sending request)
  | .sending request =>
      match s.send (.request request) with
      | .sent s => some (s, .waiting request.id)
      | .closed => some (s, .unsending request.id)
      | .full => none
  | .unsending id => some ({ s with pending := s.pending.erase id }, .explaining (some id))
  | .waiting id =>
      match call.slot with
      | some result => some (s, .returned (some id) result)
      | none => if s.holdsSender index then none else some (s, .explaining (some id))
  | .timingOut id =>
      some ({ s with pending := s.pending.erase id }, .returned (some id) (.error .timeout))
  | .explaining id => some (s, .returned id (.error s.disconnectReason))
  | .returned _ _ => none

def State.moveCall (s : State) (index : Nat) (call : Call) (pc : CallPc) : State :=
  { s with calls := s.calls.set index { call with pc } }

def State.turn (s : State) (index : Nat) : Option State := do
  let call ← s.calls[index]?
  let (s, pc) ← s.callTurn index call
  return s.moveCall index call pc

/-- The deadline of `timeout(self.request_timeout, receive)` passes. -/
def State.timeout (s : State) (index : Nat) : Option State := do
  let call ← s.calls[index]?
  match call.pc with
  | .waiting id => return s.moveCall index call (.timingOut id)
  | _ => none

/-- The next critical section of a `close` call. Its completion is signalled, or its sender
dropped, when the command has left the queue. -/
def State.closeTurn (s : State) (index : Nat) : Option State := do
  match ← s.closes[index]? with
  | .swapping =>
      return { s with
        disconnected := true
        closes := s.closes.set index (if s.disconnected then .returned else .sending) }
  | .sending =>
      match s.send (.close index) with
      | .sent s => return { s with closes := s.closes.set index .waiting }
      | .closed => return { s with closes := s.closes.set index .returned }
      | .full => none
  | .waiting =>
      if s.queue.any (ClientCommand.isCloseOf index) then none
      else return { s with closes := s.closes.set index .returned }
  | .returned => none

def deliver (calls : List Call) (index : Nat) (result : Outcome) : List Call :=
  calls.modify index (Call.receive result)

/-- The response half of `handle_message`: the entry is removed and its sender used under the
lock. -/
def State.handleResponse (s : State) (response : Response) : State :=
  match s.pending.get? response.id with
  | none => s
  | some index =>
      { s with
        pending := s.pending.erase response.id
        calls := deliver s.calls index (outcomeOf response) }

/-- `handle_message`. The text of a message that is neither event nor response comes from the JSON
reader. -/
def State.handleMessage (s : State) (message : ServerMessage) (unreadable : String) :
    Except ClientError State :=
  match message with
  | .event event =>
      match handleEvent s.snapshot event with
      | .ok next => .ok { s with snapshot := some next }
      | .error error => .error (.protocol error.protocol)
  | .response response => .ok (s.handleResponse response)
  | .malformed => .error (.protocol unreadable)

/-- What `reader.next()` yields; `none` is a text that is not JSON. -/
inductive ReaderItem where
  | text (value : Option Value) (unreadable : String)
  | close
  | other
  | failed (message : String)

def readText (value : Option Value) : ServerMessage :=
  match value with
  | some value => ServerMessage.decode value
  | none => .malformed

def State.finish (s : State) (error : Option ClientError) : State :=
  { s with connection := .ended error }

def State.read (s : State) (item : ReaderItem) : State :=
  match item with
  | .text value unreadable =>
      match s.handleMessage (readText value) unreadable with
      | .ok s => s
      | .error error => s.finish (some error)
  | .close => s.finish (some .disconnected)
  | .other => s
  | .failed message => s.finish (some (.connect message))

/-- The loop takes a command; `written` says whether the socket took the request. -/
def State.command (s : State) (written : Bool) : Option State :=
  match s.queue with
  | [] => none
  | .request _ :: queue =>
      let s := { s with queue }
      some (if written then s else s.finish (some .disconnected))
  | .close _ :: queue => some ({ s with queue }.finish none)

/-- The steps after the loop. The last one drops the queue with the commands left in it. -/
def State.terminate (s : State) : Option State :=
  match s.connection with
  | .selecting | .finished => none
  | .ended error => some { s with disconnectError := error, connection := .recorded error }
  | .recorded error => some { s with disconnected := true, connection := .flagged error }
  | .flagged error =>
      some { s with
        disconnect := some (match error with | some error => .failed error | none => .closed)
        connection := .announced error }
  | .announced error =>
      some { s with
        calls := s.pending.entries.foldl
          (fun calls entry => deliver calls entry.2 (.error (error.getD .disconnected))) s.calls
        pending := OrderedMap.empty
        connection := .returned }
  | .returned => some { s with queue := [], connection := .finished }

inductive Label where
  | call (target : Option String) (operation : Operation)
  | turn (index : Nat)
  | timeout (index : Nat)
  | close
  | closeTurn (index : Nat)
  | command (written : Bool)
  | handlesDropped
  | read (item : ReaderItem)
  | terminate

/-- The last handle goes away after every call has returned. -/
def State.allReturned (s : State) : Bool :=
  s.calls.all (fun call => call.pc matches .returned _ _) && s.closes.all (· == .returned)

def State.step (s : State) : Label → Option State
  | .call target operation =>
      some { s with calls := s.calls ++ [{ target, operation, slot := none, pc := .checking }] }
  | .turn index => s.turn index
  | .timeout index => s.timeout index
  | .close => some { s with closes := s.closes ++ [.swapping] }
  | .closeTurn index => s.closeTurn index
  | .command written => if s.connection = .selecting then s.command written else none
  | .handlesDropped =>
      if s.connection = .selecting ∧ s.queue = [] ∧ s.allReturned then some (s.finish none) else none
  | .read item => if s.connection = .selecting then some (s.read item) else none
  | .terminate => s.terminate

abbrev Run := Trace State.step State.connected

end MpvTargets.RemoteClient

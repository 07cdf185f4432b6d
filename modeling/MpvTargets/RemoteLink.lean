import MpvTargets.AcceptedRequests
import MpvTargets.EventStream
import MpvTargets.RequestCorrelation
import MpvTargets.ServeConnection

/-! A client and the daemon, joined by their connection. Whatever the two sides, the other clients, mpv and
the file system do, an operation asked for over the connection is carried out at most once, and the
answer of a call is what the daemon's operation for this very call came back with. What is on its way are
JSON values: that their text keeps finite numbers is assumed. -/

namespace MpvTargets

open RemoteClient (ReaderItem)
open Server (Connection Worker)

/-- `posted` are the requests the client has written, `delivered` is how many of the server's texts it has
read. Either end may go away with texts still on their way. -/
structure Link where
  client : RemoteClient.State
  posted : List Protocol.Request
  daemon : System
  connection : Connection
  delivered : Nat

/-- The steps of the client that use its socket are `post`, `deliver` and `lose`. -/
inductive Link.Label where
  | client (label : RemoteClient.Label)
  | post (written : Bool)
  | deliver (unreadable : String)
  | lose (item : ReaderItem)
  | daemon (label : MpvTargets.Label)
  | readText
  | hangUp
  | dispatch (position : Nat) (unreadable : String)
  | answer (position : Nat) (listed : Outcome) (found : Value) (serialization : String)
  | sendResponse (position : Nat)
  | writeResponse
  | writeEvent

namespace RemoteClient

def ClientCommand.request? : ClientCommand → Option Protocol.Request
  | request asked => some asked
  | close _ => none

def Label.usesSocket : Label → Bool
  | command _ | read _ => true
  | _ => false

/-- The requests that wait in the command queue. -/
def State.queued (s : State) : List Protocol.Request := s.queue.filterMap ClientCommand.request?

end RemoteClient

namespace Link

def step (toml : Toml) (s : Link) : Link.Label → Option Link
  | .client label =>
      if label.usesSocket then none else (s.client.step label).map fun client => { s with client }
  | .post written =>
      (s.client.step (.command written)).map fun client =>
        let request := if written then (s.client.queue.head?.bind RemoteClient.ClientCommand.request?) else none
        { s with client, posted := s.posted ++ request.toList }
  | .deliver unreadable =>
      (s.connection.written[s.delivered]?).bind fun text =>
        (s.client.step (.read (.text (some text.encode) unreadable))).map fun client =>
          { s with client, delivered := s.delivered + 1 }
  | .lose item =>
      match item with
      | .text _ _ => none
      | item => (s.client.step (.read item)).map fun client => { s with client }
  | .daemon label => (System.step toml s.daemon label).map fun daemon => { s with daemon }
  | .readText =>
      (s.posted[s.connection.workers.length]?).bind fun request =>
        (s.connection.readText (.ok request.encode)).map fun connection => { s with connection }
  | .hangUp => s.connection.hangUp.map fun connection => { s with connection }
  | .dispatch position unreadable =>
      (Server.dispatch toml s.daemon s.connection position unreadable).map fun (daemon, connection) =>
        { s with daemon, connection }
  | .answer position listed found serialization =>
      (Server.answer s.daemon s.connection position listed found serialization).map fun connection =>
        { s with connection }
  | .sendResponse position =>
      (s.connection.sendResponse position).map fun connection => { s with connection }
  | .writeResponse => s.connection.writeResponse.map fun connection => { s with connection }
  | .writeEvent =>
      (s.daemon.subscribers[s.connection.subscriber]?).bind fun subscriber =>
        (s.connection.writeEvent subscriber.events).map fun connection => { s with connection }

/-- The client right after `connect_inner` has spawned its task, and the server after
`snapshot_and_subscribe`. -/
def connected (daemon : System) : Link where
  client := .connected
  posted := []
  daemon := { daemon with
    subscribers := daemon.subscribers ++ [⟨snapshotFrom daemon.inner, []⟩] }
  connection := .subscribed daemon.subscribers.length (snapshotFrom daemon.inner)
  delivered := 0

abbrev Run (toml : Toml) (daemon : System) (history : List (Link × Link.Label)) (s : Link) : Prop :=
  Trace (step toml) (connected daemon) history s

end Link

namespace RemoteClient

/-- The call has left `writer.send`. -/
def CallPc.past : CallPc → Bool
  | .waiting _ | .timingOut _ | .explaining _ | .returned _ _ => true
  | _ => false

/-- The request a call is about to register or to send. -/
def CallPc.request? : CallPc → Option Protocol.Request
  | .inserting request | .sending request => some request
  | _ => none

/-- The request is the one of this call. -/
structure Asks (call : Call) (request : Protocol.Request) : Prop where
  target : request.target = call.target
  operation : request.operation = call.operation
  valid : request.validate = .ok ()

variable {s t : State} {label : Label} {index : Nat} {call later : Call}

theorem State.callTurn_asks {shared : State} {pc : CallPc}
    (h : s.callTurn index call = some (shared, pc)) :
    (call.pc.past = true → pc.past = true) ∧
      ∀ request, pc.request? = some request → call.pc.request? = some request ∨ Asks call request := by
  rcases call with ⟨target, operation, slot, before⟩
  cases before with
  | checking =>
      cases h
      refine ⟨fun h => (by cases h), fun request hrequest => ?_⟩
      split_ifs at hrequest <;> cases hrequest
  | fetching =>
      simp only [State.callTurn, Option.some.injEq, Prod.mk.injEq] at h
      obtain ⟨_, rfl⟩ := h
      refine ⟨fun h => (by cases h), fun request hrequest => Or.inr ?_⟩
      split at hrequest
      · cases hrequest
      · rename_i hvalid
        cases hrequest
        exact ⟨rfl, rfl, hvalid⟩
  | inserting request =>
      cases h
      exact ⟨fun h => (by cases h), fun _ hrequest => Or.inl hrequest⟩
  | sending request =>
      simp only [State.callTurn] at h
      split at h <;> cases h <;> exact ⟨fun h => (by cases h), fun _ h => (by cases h)⟩
  | unsending id =>
      cases h
      exact ⟨fun h => (by cases h), fun _ h => (by cases h)⟩
  | waiting id =>
      simp only [State.callTurn] at h
      split at h
      · cases h
        exact ⟨fun _ => rfl, fun _ h => (by cases h)⟩
      · split_ifs at h
        cases h
        exact ⟨fun _ => rfl, fun _ h => (by cases h)⟩
  | timingOut id | explaining id =>
      cases h
      exact ⟨fun _ => rfl, fun _ h => (by cases h)⟩
  | returned id outcome => cases h

/-- A call keeps what it asks for, and what it is about to send is its own request. -/
theorem Call.Step.asks (h : Call.Step s label index call later) :
    later.target = call.target ∧ later.operation = call.operation ∧
      (call.pc.past = true → later.pc.past = true) ∧
      ∀ request, later.pc.request? = some request →
        call.pc.request? = some request ∨ Asks call request := by
  have hreceive : ∀ result : Outcome, (call.receive result).target = call.target ∧
      (call.receive result).operation = call.operation := by
    intro result
    rw [Call.receive]
    split_ifs <;> exact ⟨rfl, rfl⟩
  cases h with
  | kept => exact ⟨rfl, rfl, fun hpast => hpast, fun _ h => Or.inl h⟩
  | turn shared pc hturn => exact ⟨rfl, rfl, State.callTurn_asks hturn⟩
  | timeout id hpc => exact ⟨rfl, rfl, fun _ => rfl, fun _ h => (by cases h)⟩
  | answered response _ _ =>
      rw [Call.receive_pc]
      exact ⟨(hreceive _).1, (hreceive _).2, fun hpast => hpast, fun _ h => Or.inl h⟩
  | drained error _ _ =>
      rw [Call.receive_pc]
      exact ⟨(hreceive _).1, (hreceive _).2, fun hpast => hpast, fun _ h => Or.inl h⟩

/-- The queue grows by the request of a call that is sent, loses its first command or all of them, or keeps
its requests. -/
theorem State.step_queued (h : s.step label = some t) :
    t.queued = s.queued ∨
    (∃ index call request, label = .turn index ∧ s.calls[index]? = some call ∧
      call.pc = .sending request ∧ t.queued = s.queued ++ [request] ∧
      t.calls[index]? = some { call with pc := .waiting request.id }) ∨
    (∃ command queue written, label = .command written ∧ s.queue = command :: queue ∧ t.queue = queue) ∨
    t.queue = [] := by
  cases label with
  | call | close => cases h; exact Or.inl rfl
  | turn index =>
      obtain ⟨call, hcall, h⟩ := Option.bind_eq_some_iff.mp h
      obtain ⟨⟨shared, pc⟩, hturn, h⟩ := Option.bind_eq_some_iff.mp h
      obtain rfl := Option.some.inj h
      have hlt := (List.getElem?_eq_some_iff.mp hcall).1
      unfold State.callTurn at hturn
      split at hturn
      case h_4 request hpc =>
        split at hturn
        · rename_i hsent
          obtain rfl := State.send_sent hsent
          cases hturn
          refine Or.inr (Or.inl ⟨index, call, request, rfl, hcall, hpc, ?_, List.getElem?_set_self hlt⟩)
          exact List.filterMap_append
        · cases hturn
          exact Or.inl rfl
        · cases hturn
      case h_6 =>
        split at hturn
        · cases hturn
          exact Or.inl rfl
        · split_ifs at hturn
          cases hturn
          exact Or.inl rfl
      all_goals
        cases hturn
        try exact Or.inl rfl
  | timeout index =>
      obtain ⟨call, _, h⟩ := Option.bind_eq_some_iff.mp h
      split at h
      · cases h
        exact Or.inl rfl
      · cases h
  | closeTurn index =>
      obtain ⟨pc, _, h⟩ := Option.bind_eq_some_iff.mp h
      cases pc with
      | swapping => cases h; exact Or.inl rfl
      | sending =>
          dsimp only at h
          split at h
          · rename_i hsent
            obtain rfl := State.send_sent hsent
            cases h
            refine Or.inl ?_
            simp [State.queued, ClientCommand.request?]
          · cases h
            exact Or.inl rfl
          · cases h
      | waiting =>
          dsimp only at h
          split_ifs at h
          cases h
          exact Or.inl rfl
      | returned => cases h
  | command written =>
      simp only [State.step] at h
      split_ifs at h
      unfold State.command at h
      split at h
      · cases h
      · rename_i request queue hqueue
        refine Or.inr (Or.inr (Or.inl ⟨_, queue, written, rfl, hqueue, ?_⟩))
        cases h
        split_ifs <;> rfl
      · rename_i caller queue hqueue
        cases h
        exact Or.inr (Or.inr (Or.inl ⟨_, queue, written, rfl, hqueue, rfl⟩))
  | handlesDropped =>
      simp only [State.step] at h
      split_ifs at h
      cases h
      exact Or.inl rfl
  | read item =>
      simp only [State.step] at h
      split_ifs at h
      obtain rfl := Option.some.inj h
      refine Or.inl ?_
      cases item with
      | text value unreadable =>
          rw [State.read]
          split
          · rename_i hhandled
            unfold State.handleMessage at hhandled
            split at hhandled
            · split at hhandled <;> cases hhandled
              rfl
            · cases hhandled
              rw [State.handleResponse]
              split <;> rfl
            · cases hhandled
          · rfl
      | _ => rfl
  | terminate =>
      simp only [State.step, State.terminate] at h
      split at h
      all_goals
        cases h
        try exact Or.inl rfl
      exact Or.inr (Or.inr (Or.inr rfl))

/-- The requests on their way, written or queued: each is the request of one call that has sent it, under
the id of the call. -/
structure Posts (requests : List Protocol.Request) (calls : List Call) : Prop where
  asks : ∀ call ∈ calls, ∀ request, call.pc.request? = some request → Asks call request
  issued : ∀ request ∈ requests, ∃ (index : Nat) (call : Call), calls[index]? = some call ∧
    call.pc.id = some request.id ∧ call.pc.past = true ∧ Asks call request
  distinct : (requests.map Protocol.Request.id).Nodup

theorem Posts.nil : Posts [] [] where
  asks := by simp
  issued := by simp
  distinct := List.nodup_nil

variable {requests fewer : List Protocol.Request}

theorem Posts.sublist (h : Posts requests s.calls) (hfewer : fewer.Sublist requests) :
    Posts fewer s.calls where
  asks := h.asks
  issued request hrequest := h.issued request (hfewer.subset hrequest)
  distinct := h.distinct.sublist (hfewer.map _)

theorem Asks.congr {request : Protocol.Request} (h : Asks call request)
    (htarget : later.target = call.target) (hoperation : later.operation = call.operation) :
    Asks later request :=
  ⟨h.target.trans htarget.symm, h.operation.trans hoperation.symm, h.valid⟩

/-- The calls go on with the same requests on their way. -/
theorem Posts.step (h : Posts requests s.calls) (hstep : s.step label = some t) :
    Posts requests t.calls where
  asks := by
    intro later hlater request hrequest
    obtain ⟨index, hindex⟩ := List.mem_iff_getElem?.mp hlater
    rcases State.step_call_before hstep hindex with ⟨call, hcall, hnext⟩ | ⟨_, _, hpc⟩
    · obtain ⟨htarget, hoperation, _, hnew⟩ := hnext.asks
      rcases hnew request hrequest with hold | hasks
      · exact (h.asks call (List.mem_of_getElem? hcall) request hold).congr htarget hoperation
      · exact hasks.congr htarget hoperation
    · rw [hpc] at hrequest
      cases hrequest
  issued := by
    intro request hrequest
    obtain ⟨index, call, hcall, hid, hpast, hasks⟩ := h.issued request hrequest
    obtain ⟨later, hlater, hnext⟩ := State.step_call hstep hcall
    obtain ⟨htarget, hoperation, hkeeps, _⟩ := hnext.asks
    exact ⟨index, later, hlater, hnext.id hid, hkeeps hpast, hasks.congr htarget hoperation⟩
  distinct := h.distinct

/-- A call that sends its request has not sent it before. -/
theorem Posts.sends (h : Posts requests s.calls) (hcorrelated : s.Correlated)
    (hcall : s.calls[index]? = some call) {request : Protocol.Request} (hpc : call.pc = .sending request)
    (hstep : s.step label = some t)
    (hlater : t.calls[index]? = some { call with pc := .waiting request.id }) :
    Posts (requests ++ [request]) t.calls where
  asks := (h.step hstep).asks
  issued := by
    intro other hother
    rcases List.mem_append.mp hother with hold | hnew
    · exact (h.step hstep).issued other hold
    · rw [List.mem_singleton.mp hnew]
      have hasks := h.asks call (List.mem_of_getElem? hcall) request (by rw [hpc]; rfl)
      exact ⟨index, _, hlater, rfl, rfl, hasks.congr rfl rfl⟩
  distinct := by
    rw [List.map_append, List.nodup_append]
    refine ⟨h.distinct, List.nodup_singleton _, ?_⟩
    intro id hid other hother heq
    obtain ⟨earlier, hearlier, rfl⟩ := List.mem_map.mp hid
    obtain rfl : other = request.id := by simpa using hother
    obtain ⟨position, sender, hsender, hsenderId, hpast, _⟩ := h.issued earlier hearlier
    have hindex := hcorrelated.unique position index sender call request.id hsender hcall
      (by rw [hsenderId, heq]) (by rw [hpc]; rfl)
    subst hindex
    cases hsender.symm.trans hcall
    rw [hpc] at hpast
    cases hpast

/-- A step that writes nothing to the socket. -/
theorem Posts.kept {posted : List Protocol.Request} (h : Posts (posted ++ s.queued) s.calls)
    (hcorrelated : s.Correlated) (hstep : s.step label = some t) : Posts (posted ++ t.queued) t.calls := by
  rcases State.step_queued hstep with hsame | ⟨index, call, request, _, hcall, hpc, hqueued, hlater⟩ |
    ⟨command, queue, _, _, hqueue, hrest⟩ | hnone
  · rw [hsame]
    exact h.step hstep
  · rw [hqueued, ← List.append_assoc]
    exact h.sends hcorrelated hcall hpc hstep hlater
  · refine (h.step hstep).sublist (List.Sublist.append_left ?_ _)
    rw [State.queued, State.queued, hrest, hqueue]
    exact (List.sublist_cons_self ..).filterMap _
  · refine (h.step hstep).sublist (List.Sublist.append_left ?_ _)
    rw [State.queued, hnone]
    exact List.nil_sublist _

/-- The step that writes the first command of the queue. -/
theorem Posts.written {posted : List Protocol.Request} (h : Posts (posted ++ s.queued) s.calls)
    (hstep : s.step (.command true) = some t) :
    Posts (posted ++ (s.queue.head?.bind ClientCommand.request?).toList ++ t.queued) t.calls := by
  have hkept := h.step hstep
  simp only [State.step] at hstep
  split_ifs at hstep
  unfold State.command at hstep
  split at hstep
  · cases hstep
  · rename_i request queue hqueue
    cases hstep
    simpa [State.queued, hqueue, ClientCommand.request?] using hkept
  · rename_i caller queue hqueue
    cases hstep
    have hnone : (ClientCommand.close caller).request? = none := rfl
    simpa [State.queued, hqueue, State.finish, List.filterMap_cons_none hnone, hnone] using hkept

end RemoteClient

/-! ### The server's side -/

/-- An operation that has returned stays so. -/
theorem System.done_step {toml : Toml} {s t : System} {label : MpvTargets.Label} {index : Nat}
    {result : Outcome} (hdone : (s.tasks[index]?).map Task.pc = some (.done result))
    (hstep : System.step toml s label = some t) :
    (t.tasks[index]?).map Task.pc = some (.done result) := by
  obtain ⟨task, htask, hpc⟩ := Option.map_eq_some_iff.mp hdone
  rcases System.step_cases hstep with
    ⟨stepped, external, other, turn, _, _, hother, hturn, rfl⟩ | ⟨request, _, _, rfl⟩ | ⟨_, _, rfl⟩
  · by_cases hindex : index = stepped
    · subst hindex
      cases htask.symm.trans hother
      rw [Task.turn, hpc] at hturn
      cases hturn
    · rw [System.apply_tasks, TaskPool.getElem?_advance_of_ne hindex htask, Option.map_some, hpc]
  · have hlt := (List.getElem?_eq_some_iff.mp htask).1
    rw [List.getElem?_append_left hlt]
    exact hdone
  · exact hdone

namespace Link

open Protocol (Response)
open Server (ServerText)

/-- The daemon's task of a dispatch was begun by this dispatch, for the operation of the request. -/
def Carries (toml : Toml) (history : List (Link × Link.Label)) (position : Nat)
    (request : Protocol.Request) (task : Option Nat) : Prop :=
  match Protocol.dispatchOperation request with
  | .operation operation => ∃ t u unreadable, (t, Label.dispatch position unreadable) ∈ history ∧
      step toml t (.dispatch position unreadable) = some u ∧
      u.daemon.tasks = t.daemon.tasks ++ [operation.task] ∧ task = some t.daemon.tasks.length
  | .listChannels => task = none
  | .panicked => False

/-- The operation of a dispatch has come back with this result. -/
def Returned (daemon : System) (task : Option Nat) (result : Outcome) : Prop :=
  ∀ index, task = some index → (daemon.tasks[index]?).map Task.pc = some (.done result)

/-- The dispatch was answered with this result and with this data, where an operation gives data of its own. -/
def Answered (history : List (Link × Link.Label)) (position : Nat) (task : Option Nat) (result : Outcome)
    (found : Value) (serialization : String) : Prop :=
  ∃ t listed, (t, Label.answer position listed found serialization) ∈ history ∧
    Server.operationResult t.daemon task listed = some result

/-- The response to a request: what its operation came back with. -/
structure Responds (toml : Toml) (history : List (Link × Link.Label)) (daemon : System) (position : Nat)
    (request : Protocol.Request) (task : Option Nat) (response : Response) : Prop where
  carries : Carries toml history position request task
  returned : ∃ result found serialization, Returned daemon task result ∧
    Answered history position task result found serialization ∧
    response = request.respond found serialization result

/-- How far the dispatch of a request is. -/
def Dispatches (toml : Toml) (history : List (Link × Link.Label)) (daemon : System) (position : Nat)
    (request : Protocol.Request) (worker : Worker) : Prop :=
  match worker.stage with
  | .received => worker.task = none
  | .operating asked => asked = request ∧ Carries toml history position request worker.task
  | .replying response | .sent response =>
      Responds toml history daemon position request worker.task response
  | .panicked => False

/-- Every dispatch is that of the request at its place, and every response on its way is one that a dispatch
has sent. -/
structure Serves (toml : Toml) (history : List (Link × Link.Label)) (s : Link) : Prop where
  dispatches : ∀ position worker, s.connection.workers[position]? = some worker →
    ∃ request, s.posted[position]? = some request ∧ worker.source = .ok request.encode ∧
      Dispatches toml history s.daemon position request worker
  responds : ∀ response, response ∈ s.connection.responses ∨
      ServerText.response response ∈ s.connection.written →
    ∃ (position : Nat) (worker : Worker), s.connection.workers[position]? = some worker ∧
      worker.stage = .sent response

section

variable {toml : Toml} {history : List (Link × Link.Label)} {s t : Link} {label : Link.Label}
  {daemon daemon' : System} {position : Nat} {request : Protocol.Request} {worker : Worker}

theorem Carries.tail {task : Option Nat} (h : Carries toml history position request task)
    (entry : Link × Link.Label) : Carries toml (history ++ [entry]) position request task := by
  unfold Carries at h ⊢
  split at h
  · obtain ⟨t, u, unreadable, hmem, hrest⟩ := h
    exact ⟨t, u, unreadable, List.mem_append_left _ hmem, hrest⟩
  · exact h
  · exact h

/-- The daemon's operations that have returned stay returned. -/
def KeepsDone (before after : System) : Prop :=
  ∀ (index : Nat) (result : Outcome), (before.tasks[index]?).map Task.pc = some (.done result) →
    (after.tasks[index]?).map Task.pc = some (.done result)

theorem Responds.kept {task : Option Nat} {response : Response}
    (h : Responds toml history daemon position request task response) (hkeeps : KeepsDone daemon daemon')
    (entry : Link × Link.Label) :
    Responds toml (history ++ [entry]) daemon' position request task response := by
  obtain ⟨result, found, serialization, hreturned, ⟨t, listed, hmem, hresult⟩, hresponse⟩ := h.returned
  exact ⟨h.carries.tail entry, result, found, serialization,
    fun index htask => hkeeps index result (hreturned index htask),
    ⟨t, listed, List.mem_append_left _ hmem, hresult⟩, hresponse⟩

theorem Dispatches.kept (h : Dispatches toml history daemon position request worker)
    (hkeeps : KeepsDone daemon daemon') (entry : Link × Link.Label) :
    Dispatches toml (history ++ [entry]) daemon' position request worker := by
  unfold Dispatches at h ⊢
  split at h
  · exact h
  · exact ⟨h.1, h.2.tail entry⟩
  · exact h.kept hkeeps entry
  · exact h.kept hkeeps entry
  · exact h

/-- A dispatch that goes on at its place. -/
theorem Serves.set (h : Serves toml history s) (entry : Link × Link.Label)
    (hworker : s.connection.workers[position]? = some worker) {after : Worker}
    (hafter : t.connection.workers = s.connection.workers.set position after)
    (hsource : after.source = worker.source) (hsent : ∀ response, worker.stage ≠ .sent response)
    (hposted : t.posted = s.posted) (hdaemon : KeepsDone s.daemon t.daemon)
    (hdispatches : ∀ request, s.posted[position]? = some request →
      Dispatches toml history s.daemon position request worker →
      Dispatches toml (history ++ [entry]) t.daemon position request after)
    (hresponses : ∀ response, response ∈ t.connection.responses ∨
        ServerText.response response ∈ t.connection.written →
      (response ∈ s.connection.responses ∨ ServerText.response response ∈ s.connection.written) ∨
        after.stage = .sent response) :
    Serves toml (history ++ [entry]) t where
  dispatches := by
    intro other found hfound
    have hlt := (List.getElem?_eq_some_iff.mp hworker).1
    rw [hafter] at hfound
    rw [hposted]
    by_cases hother : other = position
    · subst hother
      rw [List.getElem?_set_self hlt, Option.some.injEq] at hfound
      subst hfound
      obtain ⟨request, hrequest, hencoded, hstage⟩ := h.dispatches other worker hworker
      exact ⟨request, hrequest, hsource.trans hencoded, hdispatches request hrequest hstage⟩
    · rw [List.getElem?_set_ne (Ne.symm hother)] at hfound
      obtain ⟨request, hrequest, hencoded, hstage⟩ := h.dispatches other found hfound
      exact ⟨request, hrequest, hencoded, hstage.kept hdaemon entry⟩
  responds := by
    intro response hresponse
    have hlt := (List.getElem?_eq_some_iff.mp hworker).1
    rw [hafter]
    rcases hresponses response hresponse with hold | hnew
    · obtain ⟨other, found, hfound, hstage⟩ := h.responds response hold
      by_cases hother : other = position
      · subst hother
        cases hworker.symm.trans hfound
        exact absurd hstage (hsent response)
      · exact ⟨other, found, (List.getElem?_set_ne (Ne.symm hother)).trans hfound, hstage⟩
    · exact ⟨position, after, List.getElem?_set_self hlt, hnew⟩

/-- A step that leaves the dispatches and the responses where they are. -/
theorem Serves.kept (h : Serves toml history s) (entry : Link × Link.Label)
    (hdaemon : KeepsDone s.daemon t.daemon) (hposted : ∃ more, t.posted = s.posted ++ more)
    (hworkers : t.connection.workers = s.connection.workers)
    (hresponses : ∀ response, response ∈ t.connection.responses ∨
        ServerText.response response ∈ t.connection.written →
      response ∈ s.connection.responses ∨ ServerText.response response ∈ s.connection.written) :
    Serves toml (history ++ [entry]) t where
  dispatches := by
    intro position worker hworker
    rw [hworkers] at hworker
    obtain ⟨request, hrequest, hsource, hstage⟩ := h.dispatches position worker hworker
    obtain ⟨more, hmore⟩ := hposted
    have hlt := (List.getElem?_eq_some_iff.mp hrequest).1
    refine ⟨request, ?_, hsource, hstage.kept hdaemon entry⟩
    rw [hmore, List.getElem?_append_left hlt, hrequest]
  responds := by
    intro response hresponse
    obtain ⟨position, worker, hworker, hstage⟩ := h.responds response (hresponses response hresponse)
    exact ⟨position, worker, hworkers ▸ hworker, hstage⟩

theorem acceptRequest_encode (unreadable : String) (hvalid : request.validate = .ok ()) :
    Protocol.acceptRequest (.ok request.encode) unreadable = .ok request := by
  simp only [Protocol.acceptRequest, Protocol.Request.decode_encode, hvalid]

/-- A dispatch that begins carries out its request. -/
theorem Serves.dispatch (h : Serves toml history s) (hvalid : ∀ request ∈ s.posted, request.validate = .ok ())
    {unreadable : String} (hstep : step toml s (.dispatch position unreadable) = some t) :
    Serves toml (history ++ [(s, .dispatch position unreadable)]) t := by
  have hwhole := hstep
  obtain ⟨⟨daemon', connection'⟩, hdispatch, rfl⟩ := Option.map_eq_some_iff.mp hstep
  obtain ⟨worker, hworker, hdispatch⟩ := Option.bind_eq_some_iff.mp hdispatch
  obtain ⟨request, hposted, hsource, hstage⟩ := h.dispatches position worker hworker
  have hrequest := hvalid request (List.mem_of_getElem? hposted)
  split at hdispatch
  · rename_i hreceived
    rw [hsource, acceptRequest_encode unreadable hrequest] at hdispatch
    dsimp only at hdispatch
    split at hdispatch
    · rename_i operation hoperation
      obtain ⟨later, hlater, hsome⟩ := Option.bind_eq_some_iff.mp hdispatch
      have htasks : later.tasks = s.daemon.tasks ++ [operation.task] := by
        rcases System.step_cases hlater with ⟨_, _, _, _, hlabel, _⟩ | ⟨_, hlabel, _, rfl⟩ | ⟨hlabel, _⟩
        · cases hlabel
        · cases hlabel
          rfl
        · cases hlabel
      cases hsome
      refine h.set _ hworker rfl hsource.symm (by rw [hreceived]; exact nofun) rfl
        (fun _ _ hdone => System.done_step hdone hlater) ?_ fun _ hold => Or.inl hold
      intro other hother _
      obtain rfl : request = other := Option.some.inj (hposted.symm.trans hother)
      refine ⟨rfl, ?_⟩
      rw [Carries, hoperation]
      exact ⟨s, _, unreadable, by simp, hwhole, htasks, rfl⟩
    · rename_i hlists
      cases hdispatch
      refine h.set _ hworker rfl rfl (by rw [hreceived]; exact nofun) rfl (fun _ _ hdone => hdone) ?_
        fun _ hold => Or.inl hold
      intro other hother hold
      obtain rfl : request = other := Option.some.inj (hposted.symm.trans hother)
      rw [Dispatches, hreceived] at hold
      refine ⟨rfl, ?_⟩
      rw [Carries, hlists]
      exact hold
    · rename_i hpanicked
      exact absurd hpanicked (Protocol.dispatchOperation_ne_panicked hrequest)
  · cases hdispatch

/-- The operation of a dispatch returns to it. -/
theorem Serves.answer (h : Serves toml history s) {listed : Outcome} {found : Value} {serialization : String}
    (hstep : step toml s (.answer position listed found serialization) = some t) :
    Serves toml (history ++ [(s, .answer position listed found serialization)]) t := by
  obtain ⟨connection', hanswer, rfl⟩ := Option.map_eq_some_iff.mp hstep
  obtain ⟨worker, hworker, hanswer⟩ := Option.bind_eq_some_iff.mp hanswer
  split at hanswer
  · rename_i asked hoperating
    obtain ⟨result, hresult, hsome⟩ := Option.bind_eq_some_iff.mp hanswer
    cases hsome
    refine h.set _ hworker rfl rfl (by rw [hoperating]; exact nofun) rfl (fun _ _ hdone => hdone) ?_
      fun _ hold => Or.inl hold
    intro request _ hold
    rw [Dispatches, hoperating] at hold
    obtain ⟨rfl, hcarries⟩ := hold
    refine ⟨hcarries.tail _, result, found, serialization, fun index htask => ?_,
      ⟨s, listed, by simp, hresult⟩, rfl⟩
    dsimp only at htask
    unfold Server.operationResult at hresult
    rw [htask] at hresult
    dsimp only at hresult
    split at hresult
    · rename_i hdone
      cases hresult
      exact hdone
    · cases hresult
  · cases hanswer

/-- A dispatch sends its response. -/
theorem Serves.sendResponse (h : Serves toml history s)
    (hstep : step toml s (.sendResponse position) = some t) :
    Serves toml (history ++ [(s, .sendResponse position)]) t := by
  obtain ⟨connection', hsend, rfl⟩ := Option.map_eq_some_iff.mp hstep
  obtain ⟨worker, hworker, hsend⟩ := Option.bind_eq_some_iff.mp hsend
  split at hsend
  · rename_i response hreplying
    have hnext : ∀ request, s.posted[position]? = some request →
        Dispatches toml history s.daemon position request worker →
        Dispatches toml (history ++ [(s, .sendResponse position)]) s.daemon position request
          { worker with stage := .sent response } := by
      intro request _ hold
      rw [Dispatches, hreplying] at hold
      exact hold.kept (fun _ _ hdone => hdone) _
    split_ifs at hsend
    · cases hsend
      exact h.set _ hworker rfl rfl (by rw [hreplying]; exact nofun) rfl (fun _ _ hdone => hdone) hnext
        fun _ hold => Or.inl hold
    · cases hsend
      refine h.set _ hworker rfl rfl (by rw [hreplying]; exact nofun) rfl (fun _ _ hdone => hdone) hnext ?_
      rintro other (hqueued | hwritten)
      · rcases List.mem_append.mp hqueued with hold | hnew
        · exact Or.inl (Or.inl hold)
        · exact Or.inr (by rw [List.mem_singleton.mp hnew])
      · exact Or.inl (Or.inr hwritten)
  · cases hsend

/-- A text is read. -/
theorem Serves.readText (h : Serves toml history s) (hstep : step toml s .readText = some t) :
    Serves toml (history ++ [(s, .readText)]) t := by
  obtain ⟨request, hrequest, hread⟩ := Option.bind_eq_some_iff.mp hstep
  obtain ⟨connection', hworkers, rfl⟩ := Option.map_eq_some_iff.mp hread
  rw [Server.Connection.readText] at hworkers
  split_ifs at hworkers
  cases hworkers
  refine ⟨?_, ?_⟩
  · intro position worker hworker
    dsimp only at hworker
    rcases Nat.lt_or_ge position s.connection.workers.length with hlt | hge
    · rw [List.getElem?_append_left hlt] at hworker
      obtain ⟨asked, hasked, hsource, hstage⟩ := h.dispatches position worker hworker
      exact ⟨asked, hasked, hsource, hstage.kept (fun _ _ hdone => hdone) _⟩
    · rw [List.getElem?_append_right hge] at hworker
      have hzero := (List.getElem?_eq_some_iff.mp hworker).1
      rw [List.length_singleton, Nat.lt_one_iff] at hzero
      obtain rfl : position = s.connection.workers.length := by omega
      obtain rfl := List.mem_singleton.mp (List.mem_of_getElem? hworker)
      exact ⟨request, hrequest, rfl, rfl⟩
  · intro response hresponse
    obtain ⟨position, worker, hworker, hstage⟩ := h.responds response hresponse
    have hlt := (List.getElem?_eq_some_iff.mp hworker).1
    exact ⟨position, worker, (List.getElem?_append_left hlt).trans hworker, hstage⟩

/-- What every run keeps. -/
structure Sound (toml : Toml) (history : List (Link × Link.Label)) (s : Link) : Prop where
  client : ∃ past, RemoteClient.Run past s.client ∧ ∀ entry ∈ past, ∀ response, entry.2.Reads response →
    ServerText.response response ∈ s.connection.written
  posts : RemoteClient.Posts (s.posted ++ s.client.queued) s.client.calls
  serves : Serves toml history s

/-- A step of the client reads at most a response that the server has written. -/
theorem Sound.client_step (h : Sound toml history s) {clientLabel : RemoteClient.Label}
    {client : RemoteClient.State} (hstep : s.client.step clientLabel = some client)
    (hreads : ∀ response, clientLabel.Reads response →
      ServerText.response response ∈ s.connection.written) :
    ∃ past, RemoteClient.Run past client ∧ ∀ entry ∈ past, ∀ response, entry.2.Reads response →
      ServerText.response response ∈ s.connection.written := by
  obtain ⟨past, hrun, hpast⟩ := h.client
  refine ⟨_, hrun.tail hstep, fun entry hentry response hresponse => ?_⟩
  rcases List.mem_append.mp hentry with hold | hnew
  · exact hpast entry hold response hresponse
  · rw [List.mem_singleton.mp hnew] at hresponse
    exact hreads response hresponse

/-- What the client reads from the server is what the server wrote. -/
theorem reads_encode {text : ServerText} {unreadable : String} {response : Response}
    (h : RemoteClient.Label.Reads (.read (.text (some text.encode) unreadable)) response) :
    text = .response response := by
  obtain ⟨value, _, hlabel, hread⟩ := h
  cases hlabel
  cases text with
  | event event =>
      rw [RemoteClient.readText, Server.ServerText.encode, Protocol.ServerMessage.decode,
        Event.decode_encode] at hread
      cases hread
  | response message =>
      rw [RemoteClient.readText, Server.ServerText.encode, Protocol.ServerMessage.decode,
        Protocol.event_decode_response] at hread
      dsimp only at hread
      rw [Protocol.Response.decode_encode] at hread
      cases hread
      rfl

/-- More texts have been written, nothing else has changed for the client. -/
theorem Sound.client_written (h : Sound toml history s) (hclient : t.client = s.client)
    (hwritten : ∃ more, t.connection.written = s.connection.written ++ more) :
    ∃ past, RemoteClient.Run past t.client ∧ ∀ entry ∈ past, ∀ response, entry.2.Reads response →
      ServerText.response response ∈ t.connection.written := by
  obtain ⟨past, hrun, hpast⟩ := h.client
  obtain ⟨more, hmore⟩ := hwritten
  refine ⟨past, hclient ▸ hrun, fun entry hentry response hresponse => ?_⟩
  rw [hmore]
  exact List.mem_append_left _ (hpast entry hentry response hresponse)

theorem Sound.correlated (h : Sound toml history s) (hcalls : s.client.calls.length < 2 ^ 64) :
    s.client.Correlated := by
  obtain ⟨past, hrun, _⟩ := h.client
  exact RemoteClient.Run.correlated hrun hcalls

theorem Sound.valid (h : Sound toml history s) : ∀ request ∈ s.posted, request.validate = .ok () := by
  intro request hrequest
  obtain ⟨_, _, _, _, _, hasks⟩ := h.posts.issued request (List.mem_append_left _ hrequest)
  exact hasks.valid

theorem KeepsDone.refl (daemon : System) : KeepsDone daemon daemon := fun _ _ hdone => hdone

theorem Sound.step (h : Sound toml history s) (hcalls : s.client.calls.length < 2 ^ 64)
    (hstep : Link.step toml s label = some t) : Sound toml (history ++ [(s, label)]) t := by
  have hcorrelated := h.correlated hcalls
  have hserver : t.client = s.client → t.posted = s.posted →
      (∃ more, t.connection.written = s.connection.written ++ more) →
      Serves toml (history ++ [(s, label)]) t → Sound toml (history ++ [(s, label)]) t :=
    fun hclient hposted hwritten hserves =>
      ⟨h.client_written hclient hwritten, by rw [hclient, hposted]; exact h.posts, hserves⟩
  cases label with
  | client clientLabel =>
      simp only [Link.step] at hstep
      split_ifs at hstep with hsocket
      obtain ⟨client, hclient, rfl⟩ := Option.map_eq_some_iff.mp hstep
      refine ⟨h.client_step hclient ?_, h.posts.kept hcorrelated hclient, ?_⟩
      · rintro response ⟨_, _, rfl, _⟩
        exact absurd rfl hsocket
      · exact h.serves.kept _ (.refl _) ⟨[], by simp⟩ rfl fun _ hold => hold
  | post written =>
      obtain ⟨client, hclient, rfl⟩ := Option.map_eq_some_iff.mp hstep
      refine ⟨h.client_step hclient (by rintro response ⟨_, _, hlabel, _⟩; cases hlabel), ?_,
        h.serves.kept _ (.refl _) ⟨_, rfl⟩ rfl fun _ hold => hold⟩
      cases written with
      | true => exact h.posts.written hclient
      | false => simpa using h.posts.kept hcorrelated hclient
  | deliver unreadable =>
      obtain ⟨text, htext, hread⟩ := Option.bind_eq_some_iff.mp hstep
      obtain ⟨client, hclient, rfl⟩ := Option.map_eq_some_iff.mp hread
      refine ⟨h.client_step hclient ?_, h.posts.kept hcorrelated hclient,
        h.serves.kept _ (.refl _) ⟨[], by simp⟩ rfl fun _ hold => hold⟩
      intro response hresponse
      rw [← reads_encode hresponse]
      exact List.mem_of_getElem? htext
  | lose item =>
      cases item with
      | text => cases hstep
      | _ =>
          obtain ⟨client, hclient, rfl⟩ := Option.map_eq_some_iff.mp hstep
          refine ⟨h.client_step hclient ?_, h.posts.kept hcorrelated hclient,
            h.serves.kept _ (.refl _) ⟨[], by simp⟩ rfl fun _ hold => hold⟩
          rintro response ⟨_, _, hlabel, _⟩
          cases hlabel
  | daemon daemonLabel =>
      obtain ⟨daemon, hdaemon, rfl⟩ := Option.map_eq_some_iff.mp hstep
      refine hserver rfl rfl ⟨[], by simp⟩ (h.serves.kept _ ?_ ⟨[], by simp⟩ rfl fun _ hold => hold)
      exact fun _ _ hdone => System.done_step hdone hdaemon
  | readText =>
      have hserves := h.serves.readText hstep
      obtain ⟨request, _, hread⟩ := Option.bind_eq_some_iff.mp hstep
      obtain ⟨connection', hworkers, rfl⟩ := Option.map_eq_some_iff.mp hread
      rw [Server.Connection.readText] at hworkers
      split_ifs at hworkers
      cases hworkers
      exact hserver rfl rfl ⟨[], by simp⟩ hserves
  | hangUp =>
      obtain ⟨connection', hended, rfl⟩ := Option.map_eq_some_iff.mp hstep
      rw [Server.Connection.hangUp] at hended
      split_ifs at hended
      cases hended
      exact hserver rfl rfl ⟨[], by simp⟩ (h.serves.kept _ (.refl _) ⟨[], by simp⟩ rfl fun _ hold => hold)
  | dispatch position unreadable =>
      have hserves := h.serves.dispatch h.valid hstep
      obtain ⟨⟨daemon', connection'⟩, hdispatch, rfl⟩ := Option.map_eq_some_iff.mp hstep
      obtain ⟨_, _, rfl, _⟩ := Server.dispatch_cases hdispatch
      exact hserver rfl rfl ⟨[], by simp⟩ hserves
  | answer position listed found serialization =>
      have hserves := h.serves.answer hstep
      obtain ⟨connection', hanswer, rfl⟩ := Option.map_eq_some_iff.mp hstep
      obtain ⟨_, rfl⟩ := Server.answer_cases hanswer
      exact hserver rfl rfl ⟨[], by simp⟩ hserves
  | sendResponse position =>
      have hserves := h.serves.sendResponse hstep
      obtain ⟨connection', hsend, rfl⟩ := Option.map_eq_some_iff.mp hstep
      obtain ⟨_, _, rfl⟩ := Server.Connection.sendResponse_cases hsend
      exact hserver rfl rfl ⟨[], by simp⟩ hserves
  | writeResponse =>
      obtain ⟨connection', hwritten, rfl⟩ := Option.map_eq_some_iff.mp hstep
      unfold Server.Connection.writeResponse at hwritten
      split at hwritten
      · cases hwritten
      · rename_i response responses hresponses
        split_ifs at hwritten
        cases hwritten
        refine hserver rfl rfl ⟨_, rfl⟩ (h.serves.kept _ (.refl _) ⟨[], by simp⟩ rfl ?_)
        rintro other (hqueued | hwrote)
        · exact Or.inl (hresponses ▸ List.mem_cons_of_mem _ hqueued)
        · rcases List.mem_append.mp hwrote with hold | hnew
          · exact Or.inr hold
          · cases List.mem_singleton.mp hnew
            exact Or.inl (hresponses ▸ List.mem_cons_self)
  | writeEvent =>
      obtain ⟨subscriber, _, hwrite⟩ := Option.bind_eq_some_iff.mp hstep
      obtain ⟨connection', hwritten, rfl⟩ := Option.map_eq_some_iff.mp hwrite
      unfold Server.Connection.writeEvent at hwritten
      split_ifs at hwritten
      split at hwritten
      · cases hwritten
      · cases hwritten
        exact hserver rfl rfl ⟨[], by simp⟩
          (h.serves.kept _ (.refl _) ⟨[], by simp⟩ rfl fun _ hold => hold)
      · cases hwritten
        refine hserver rfl rfl ⟨_, rfl⟩ (h.serves.kept _ (.refl _) ⟨[], by simp⟩ rfl ?_)
        rintro other (hqueued | hwrote)
        · exact Or.inl hqueued
        · rcases List.mem_append.mp hwrote with hold | hnew
          · exact Or.inr hold
          · cases List.mem_singleton.mp hnew

/-! ### Runs of the link -/

/-- A dispatch has begun. -/
def begun (worker : Worker) : Bool :=
  match worker.stage with
  | .received => false
  | _ => true

def Label.isDispatchAt (position : Nat) : Link.Label → Bool
  | .dispatch other _ => other == position
  | _ => false

/-- How often the request at a place has been dispatched: once when its dispatch has begun. -/
def Counted (history : List (Link × Link.Label)) (workers : List Worker) : Prop :=
  ∀ position, (history.countP fun entry => Label.isDispatchAt position entry.2) =
    if (workers[position]?).any begun then 1 else 0

/-- The stages of the dispatches after a step, as far as they count. -/
theorem begun_step (hstep : Link.step toml s label = some t) (position : Nat) :
    if Label.isDispatchAt position label
    then (s.connection.workers[position]?).any begun = false ∧
      (t.connection.workers[position]?).any begun = true
    else (t.connection.workers[position]?).any begun = (s.connection.workers[position]?).any begun := by
  have hset : ∀ (other : Nat) (worker after : Worker), s.connection.workers[other]? = some worker →
      begun after = begun worker → ((s.connection.workers.set other after)[position]?).any begun =
        (s.connection.workers[position]?).any begun := by
    intro other worker after hworker hsame
    have hlt := (List.getElem?_eq_some_iff.mp hworker).1
    by_cases hposition : other = position
    · subst hposition
      rw [List.getElem?_set_self hlt, hworker, Option.any_some, Option.any_some, hsame]
    · rw [List.getElem?_set_ne hposition]
  cases label with
  | client clientLabel =>
      simp only [Link.step] at hstep
      split_ifs at hstep
      obtain ⟨client, _, rfl⟩ := Option.map_eq_some_iff.mp hstep
      rfl
  | post written =>
      obtain ⟨client, _, rfl⟩ := Option.map_eq_some_iff.mp hstep
      rfl
  | deliver unreadable =>
      obtain ⟨text, _, hread⟩ := Option.bind_eq_some_iff.mp hstep
      obtain ⟨client, _, rfl⟩ := Option.map_eq_some_iff.mp hread
      rfl
  | lose item =>
      cases item with
      | text => cases hstep
      | _ =>
          obtain ⟨client, _, rfl⟩ := Option.map_eq_some_iff.mp hstep
          rfl
  | daemon daemonLabel =>
      obtain ⟨daemon, _, rfl⟩ := Option.map_eq_some_iff.mp hstep
      rfl
  | readText =>
      obtain ⟨request, _, hread⟩ := Option.bind_eq_some_iff.mp hstep
      obtain ⟨connection', hworkers, rfl⟩ := Option.map_eq_some_iff.mp hread
      rw [Server.Connection.readText] at hworkers
      split_ifs at hworkers
      cases hworkers
      show ((s.connection.workers ++ [_])[position]?).any begun = _
      rcases Nat.lt_or_ge position s.connection.workers.length with hlt | hge
      · rw [List.getElem?_append_left hlt]
      · rw [List.getElem?_append_right hge, List.getElem?_eq_none_iff.mpr hge]
        cases position - s.connection.workers.length <;> rfl
  | hangUp =>
      obtain ⟨connection', hended, rfl⟩ := Option.map_eq_some_iff.mp hstep
      rw [Server.Connection.hangUp] at hended
      split_ifs at hended
      cases hended
      rfl
  | dispatch other unreadable =>
      obtain ⟨⟨daemon', connection'⟩, hdispatch, rfl⟩ := Option.map_eq_some_iff.mp hstep
      obtain ⟨worker, after, rfl, hworker, hbefore, hafter, _⟩ := Server.dispatch_cases hdispatch
      have hlt := (List.getElem?_eq_some_iff.mp hworker).1
      by_cases hposition : other = position
      · subst hposition
        have hself : Label.isDispatchAt other (.dispatch other unreadable) = true := beq_self_eq_true other
        rw [if_pos hself, hworker, List.getElem?_set_self hlt]
        refine ⟨by simp [begun, hbefore], ?_⟩
        rw [Option.any_some, begun]
        split
        · rename_i hreceived
          exact absurd hreceived hafter
        · rfl
      · have hother : ¬Label.isDispatchAt position (.dispatch other unreadable) = true := by
          simpa [Label.isDispatchAt] using hposition
        rw [if_neg hother, List.getElem?_set_ne hposition]
  | answer other listed found serialization =>
      obtain ⟨connection', hanswer, rfl⟩ := Option.map_eq_some_iff.mp hstep
      obtain ⟨worker, hworker, hanswer⟩ := Option.bind_eq_some_iff.mp hanswer
      split at hanswer
      · rename_i asked hoperating
        obtain ⟨result, _, hsome⟩ := Option.bind_eq_some_iff.mp hanswer
        cases hsome
        exact hset other worker _ hworker (by simp [begun, hoperating])
      · cases hanswer
  | sendResponse other =>
      obtain ⟨connection', hsend, rfl⟩ := Option.map_eq_some_iff.mp hstep
      obtain ⟨worker, hworker, hsend⟩ := Option.bind_eq_some_iff.mp hsend
      split at hsend
      · rename_i response hreplying
        split_ifs at hsend
        all_goals
          cases hsend
          exact hset other worker _ hworker (by simp [begun, hreplying])
      · cases hsend
  | writeResponse =>
      obtain ⟨connection', hwritten, rfl⟩ := Option.map_eq_some_iff.mp hstep
      unfold Server.Connection.writeResponse at hwritten
      split at hwritten
      · cases hwritten
      · split_ifs at hwritten
        cases hwritten
        rfl
  | writeEvent =>
      obtain ⟨subscriber, _, hwrite⟩ := Option.bind_eq_some_iff.mp hstep
      obtain ⟨connection', hwritten, rfl⟩ := Option.map_eq_some_iff.mp hwrite
      unfold Server.Connection.writeEvent at hwritten
      split_ifs at hwritten
      split at hwritten
      all_goals
        cases hwritten
        try rfl

theorem Counted.step (h : Counted history s.connection.workers) (hstep : Link.step toml s label = some t) :
    Counted (history ++ [(s, label)]) t.connection.workers := by
  intro position
  have hbegun := begun_step hstep position
  have hone : [(s, label)].countP (fun entry => Label.isDispatchAt position entry.2) =
      if Label.isDispatchAt position label then 1 else 0 := by
    rw [List.countP_cons, List.countP_nil, Nat.zero_add]
  rw [List.countP_append, h position, hone]
  cases hlabel : Label.isDispatchAt position label with
  | true =>
      rw [hlabel, if_pos rfl] at hbegun
      simp [hbegun.1, hbegun.2]
  | false =>
      rw [hlabel, if_neg Bool.false_ne_true] at hbegun
      simp [hbegun]

/-- The client makes calls and forgets none. -/
theorem length_calls_step (hstep : Link.step toml s label = some t) :
    s.client.calls.length ≤ t.client.calls.length := by
  cases label with
  | client clientLabel =>
      simp only [Link.step] at hstep
      split_ifs at hstep
      obtain ⟨client, hclient, rfl⟩ := Option.map_eq_some_iff.mp hstep
      exact RemoteClient.State.length_calls_step hclient
  | post written =>
      obtain ⟨client, hclient, rfl⟩ := Option.map_eq_some_iff.mp hstep
      exact RemoteClient.State.length_calls_step hclient
  | deliver unreadable =>
      obtain ⟨text, _, hread⟩ := Option.bind_eq_some_iff.mp hstep
      obtain ⟨client, hclient, rfl⟩ := Option.map_eq_some_iff.mp hread
      exact RemoteClient.State.length_calls_step hclient
  | lose item =>
      cases item with
      | text => cases hstep
      | _ =>
          obtain ⟨client, hclient, rfl⟩ := Option.map_eq_some_iff.mp hstep
          exact RemoteClient.State.length_calls_step hclient
  | readText | writeEvent =>
      obtain ⟨_, _, hnext⟩ := Option.bind_eq_some_iff.mp hstep
      obtain ⟨_, _, rfl⟩ := Option.map_eq_some_iff.mp hnext
      exact le_refl _
  | _ =>
      obtain ⟨_, _, rfl⟩ := Option.map_eq_some_iff.mp hstep
      exact le_refl _

theorem Sound.connected (daemon : System) : Sound toml [] (Link.connected daemon) where
  client := ⟨[], .refl, by simp⟩
  posts := .nil
  serves :=
    { dispatches := by simp [Link.connected, Server.Connection.subscribed]
      responds := by simp [Link.connected, Server.Connection.subscribed] }

theorem Run.sound (hrun : Link.Run toml daemon history s) (hcalls : s.client.calls.length < 2 ^ 64) :
    Sound toml history s ∧ Counted history s.connection.workers := by
  induction hrun with
  | refl => exact ⟨.connected daemon, fun position => by simp [Link.connected, Server.Connection.subscribed]⟩
  | tail _ hstep ih =>
      have hlength := lt_of_le_of_lt (length_calls_step hstep) hcalls
      obtain ⟨hsound, hcounted⟩ := ih hlength
      exact ⟨hsound.step hlength hstep, hcounted.step hstep⟩

end

/-- The dispatch at `position` is that of the request of the call at `index`. -/
structure Executes (s : Link) (position index : Nat) (worker : Worker) (call : RemoteClient.Call)
    (request : Protocol.Request) : Prop where
  received : s.connection.workers[position]? = some worker
  called : s.client.calls[index]? = some call
  source : worker.source = .ok request.encode
  id : call.pc.id = some request.id
  asks : RemoteClient.Asks call request

theorem request_encode_injective {left right : Protocol.Request} (h : left.encode = right.encode) :
    left = right := by
  have hdecoded := Protocol.Request.decode_encode left
  rw [h, Protocol.Request.decode_encode] at hdecoded
  exact (Option.some.inj hdecoded).symm

theorem respond_id (request : Protocol.Request) (found : Value) (serialization : String)
    (result : Outcome) : (request.respond found serialization result).id = request.id := by
  cases result <;> rfl

section

variable {toml : Toml} {daemon : System} {history : List (Link × Link.Label)} {s : Link}

theorem Sound.asked (h : Sound toml history s) {position : Nat} {worker : Worker}
    (hworker : s.connection.workers[position]? = some worker) :
    ∃ index call request, s.Executes position index worker call request ∧
      s.posted[position]? = some request ∧
      Dispatches toml history s.daemon position request worker := by
  obtain ⟨request, hposted, hsource, hstage⟩ := h.serves.dispatches position worker hworker
  obtain ⟨index, call, hcall, hid, _, hasks⟩ :=
    h.posts.issued request (List.mem_append_left _ (List.mem_of_getElem? hposted))
  exact ⟨index, call, request, ⟨hworker, hcall, hsource, hid, hasks⟩, hposted, hstage⟩

/-- What a dispatch executes is the request at its place. -/
theorem Sound.posted (h : Sound toml history s) {position index : Nat} {worker : Worker}
    {call : RemoteClient.Call} {request : Protocol.Request}
    (hexecutes : s.Executes position index worker call request) : s.posted[position]? = some request := by
  obtain ⟨_, _, posted, hother, hposted, _⟩ := h.asked hexecutes.received
  have hencoded := hother.source.symm.trans hexecutes.source
  rw [hposted, request_encode_injective (Except.ok.inj hencoded)]

/-- The request of a call is dispatched at one place. -/
theorem Sound.one_place (h : Sound toml history s) {left right index : Nat} {first second : Worker}
    {call : RemoteClient.Call} {request other : Protocol.Request}
    (hfirst : s.Executes left index first call request)
    (hsecond : s.Executes right index second call other) : left = right := by
  have hleft := h.posted hfirst
  have hright := h.posted hsecond
  have hids : request.id = other.id := Option.some.inj (hfirst.id.symm.trans hsecond.id)
  have hnodup : (s.posted.map Protocol.Request.id).Nodup := by
    have hdistinct := h.posts.distinct
    rw [List.map_append] at hdistinct
    exact (List.nodup_append.mp hdistinct).1
  have hlt : left < (s.posted.map Protocol.Request.id).length := by
    rw [List.length_map]
    exact (List.getElem?_eq_some_iff.mp hleft).1
  refine (List.getElem?_inj hlt hnodup).mp ?_
  rw [List.getElem?_map, List.getElem?_map, hleft, hright, Option.map_some, Option.map_some, hids]

/-- The answer of a call is the result of the operation that was begun for its request. -/
theorem Sound.own_result (h : Sound toml history s) (hcalls : s.client.calls.length < 2 ^ 64) {index : Nat}
    {call : RemoteClient.Call} {id : Option String} {outcome : RemoteClient.Outcome}
    (hcall : s.client.calls[index]? = some call) (hpc : call.pc = .returned id outcome)
    (hanswer : RemoteClient.IsAnswer outcome) :
    ∃ position worker request result found serialization,
      s.Executes position index worker call request ∧
      Carries toml history position request worker.task ∧ Returned s.daemon worker.task result ∧
      Answered history position worker.task result found serialization ∧
      outcome = RemoteClient.outcomeOf (request.respond found serialization result) := by
  obtain ⟨past, hpast, hwrote⟩ := h.client
  have hanswered := RemoteClient.Run.answered hpast hcalls call (List.mem_of_getElem? hcall)
  obtain ⟨place, response, ⟨state, label, hentry, hreads⟩, hid, hresult⟩ :=
    hanswered.slot outcome (hanswered.returned id outcome hpc hanswer) hanswer
  have hwritten := hwrote (state, label) (List.mem_of_getElem? hentry) response hreads
  obtain ⟨position, worker, hworker, hsent⟩ := h.serves.responds response (Or.inr hwritten)
  obtain ⟨other, asker, request, hexecutes, _, hstage⟩ := h.asked hworker
  rw [Dispatches, hsent] at hstage
  obtain ⟨hcarries, result, found, serialization, hreturned, hanswered, rfl⟩ := hstage
  rw [respond_id] at hid
  obtain rfl := (h.correlated hcalls).unique index other call asker request.id hcall hexecutes.called hid
    hexecutes.id
  obtain rfl : call = asker := Option.some.inj (hcall.symm.trans hexecutes.called)
  exact ⟨position, worker, request, result, found, serialization, hexecutes, hcarries, hreturned, hanswered,
    hresult⟩

end

/-- What ties the calls of a client to the operations of the daemon, after a run of the link. -/
structure CallsExecuted (toml : Toml) (history : List (Link × Link.Label)) (s : Link) : Prop where
  /-- Every dispatch is that of the request of a call. -/
  asked : ∀ (position : Nat) (worker : Worker), s.connection.workers[position]? = some worker →
    ∃ index call request, s.Executes position index worker call request
  /-- The request of a call is dispatched at one place, -/
  one_place : ∀ (left right index : Nat) (first second : Worker) (call : RemoteClient.Call)
    (request other : Protocol.Request), s.Executes left index first call request →
      s.Executes right index second call other → left = right
  /-- and there its operation is begun at most once. -/
  one_operation : ∀ position,
    (history.countP fun entry => Label.isDispatchAt position entry.2) ≤ 1
  /-- The answer of a call is the result of the operation that was begun for its request. -/
  own_result : ∀ (index : Nat) (call : RemoteClient.Call) (id : Option String)
    (outcome : RemoteClient.Outcome), s.client.calls[index]? = some call →
    call.pc = .returned id outcome → RemoteClient.IsAnswer outcome →
    ∃ position worker request result found serialization,
      s.Executes position index worker call request ∧
      Carries toml history position request worker.task ∧ Returned s.daemon worker.task result ∧
      Answered history position worker.task result found serialization ∧
      outcome = RemoteClient.outcomeOf (request.respond found serialization result)

/-- **Remote calls are executed at most once**: in every run of a client and the daemon over one connection,
whatever else the daemon does and wherever the connection breaks, the operation of a call is begun at most
once, and an answer is what this very operation came back with. -/
theorem remote_calls_executed {toml : Toml} {daemon : System} {history : List (Link × Link.Label)}
    {s : Link} (hrun : Link.Run toml daemon history s) (hcalls : s.client.calls.length < 2 ^ 64) :
    CallsExecuted toml history s := by
  obtain ⟨hsound, hcounted⟩ := Run.sound hrun hcalls
  refine ⟨fun position worker hworker => ?_, fun _ _ _ _ _ _ _ _ => hsound.one_place, fun position => ?_,
    fun _ _ _ _ hcall => hsound.own_result hcalls hcall⟩
  · obtain ⟨index, call, request, hexecutes, _⟩ := hsound.asked hworker
    exact ⟨index, call, request, hexecutes⟩
  · rw [hcounted position]
    split_ifs <;> decide

/-- A client stops `tv` over its connection, and reads the first message and the response. -/
def remoteStop : List Link.Label :=
  .client (.call (some "tv") .targetStop) :: List.replicate 4 (.client (.turn 0)) ++
    [.post true, .readText, .dispatch 0 ""] ++ List.replicate 6 (.daemon (.task 2 .ok)) ++
    [.answer 0 (.ok .done) .null "", .sendResponse 0, .writeResponse, .deliver "", .deliver "",
      .client (.turn 0)]

/-- The call has returned a success. -/
def succeeded (call : RemoteClient.Call) : Bool :=
  match call.pc with
  | .returned _ (.ok _) => true
  | _ => false

theorem remote_calls_executed_remoteStop : ∃ attached daemon history s,
    System.Run tvToml tvNode tvNode.toText attached daemon ∧ Link.Run tvToml daemon history s ∧
    history.map Prod.snd = remoteStop ∧ s.client.calls.length < 2 ^ 64 ∧
    s.client.calls.any succeeded = true ∧ CallsExecuted tvToml history s := by
  have hchecks : ((runChecked (System.step tvToml) (fun _ _ => true)
      (System.initial tvNode tvNode.toText) startAttached).bind fun daemon =>
        runChecked (Link.step tvToml) (fun _ _ => true) (connected daemon) remoteStop).any
      (fun s => s.client.calls.length == 1 && s.client.calls.any succeeded) = true := by
    decide +kernel
  rw [Option.any_eq_true] at hchecks
  obtain ⟨s, hs, hcheck⟩ := hchecks
  obtain ⟨daemon, hdaemon, hlink⟩ := Option.bind_eq_some_iff.mp hs
  obtain ⟨attached, hattached, _, _⟩ := exists_trace_of_runChecked hdaemon
  obtain ⟨history, hrun, hlabels, _⟩ := exists_trace_of_runChecked hlink
  rw [Bool.and_eq_true, beq_iff_eq] at hcheck
  have hcalls : s.client.calls.length < 2 ^ 64 := by
    rw [hcheck.1]
    decide
  exact ⟨attached, daemon, history, s, hattached, hrun, hlabels, hcalls, hcheck.2,
    remote_calls_executed hrun hcalls⟩

end Link

end MpvTargets

import MpvTargets.RemoteLink

/-! What a remote client mirrors. The connection writes the daemon's events in their order and skips none;
the client accepts each of them, and once it has read them all it mirrors the daemon. As in the link, the
text of an event is its JSON value, with finite numbers kept. -/

namespace MpvTargets

open Server (ServerText Connection)

/-- A subscription keeps its place, its first snapshot and the events it was sent. -/
theorem System.subscriber_step {toml : Toml} {s t : System} {label : Label} {index : Nat}
    {subscriber : Subscriber} (hsubscriber : s.subscribers[index]? = some subscriber)
    (hstep : System.step toml s label = some t) :
    ∃ events, t.subscribers[index]? = some { subscriber with events := subscriber.events ++ events } := by
  have hbroadcast : ∀ events, (broadcast events s.subscribers)[index]? =
      some { subscriber with events := subscriber.events ++ events } := by
    intro events
    rw [broadcast, List.getElem?_map, hsubscriber, Option.map_some]
  have hkept : s.subscribers[index]? = some { subscriber with events := subscriber.events ++ [] } := by
    rw [List.append_nil]
    exact hsubscriber
  rcases System.step_cases hstep with
    ⟨stepped, external, task, turn, _, _, _, _, rfl⟩ | ⟨request, _, _, rfl⟩ | ⟨_, _, rfl⟩
  · show ∃ events, (s.perform toml stepped turn.effect).subscribers[index]? = _
    cases turn.effect with
    | locked critical => exact ⟨_, hbroadcast _⟩
    | send => exact ⟨_, hbroadcast _⟩
    | none | lockedThenSend | writeFile => exact ⟨[], hkept⟩
  · exact ⟨[], hkept⟩
  · have hlt := (List.getElem?_eq_some_iff.mp hsubscriber).1
    exact ⟨[], (List.getElem?_append_left hlt).trans hkept⟩

def Server.ServerText.event? : ServerText → Option Event
  | event message => some message
  | response _ => none

/-- What a client mirrors after one more event, from before its first one on. -/
def observe (mirror : Option Snapshot) (event : Event) : Except ClientError (Option Snapshot) :=
  (handleEvent mirror event).map some

theorem observe_receive {mirror next : Snapshot} {event : Event} (h : receive mirror event = .ok next) :
    observe (some mirror) event = .ok (some next) := by
  rw [observe, ← receive, h]
  rfl

namespace RemoteClient

variable {s t : State} {label : Label}

/-- Only a text of the server changes what the client mirrors. -/
theorem State.step_snapshot (hstep : s.step label = some t)
    (hlabel : ∀ value unreadable, label ≠ .read (.text value unreadable)) : t.snapshot = s.snapshot := by
  cases label with
  | call | close => cases hstep; rfl
  | turn index =>
      obtain ⟨call, _, hstep⟩ := Option.bind_eq_some_iff.mp hstep
      obtain ⟨⟨shared, pc⟩, hturn, hstep⟩ := Option.bind_eq_some_iff.mp hstep
      obtain rfl := Option.some.inj hstep
      show shared.snapshot = s.snapshot
      unfold State.callTurn at hturn
      split at hturn
      case h_4 request hpc =>
        split at hturn
        · rename_i hsent
          obtain rfl := State.send_sent hsent
          cases hturn
          rfl
        · cases hturn
          rfl
        · cases hturn
      case h_6 =>
        split at hturn
        · cases hturn
          rfl
        · split_ifs at hturn
          cases hturn
          rfl
      all_goals
        cases hturn
        try rfl
  | timeout index =>
      obtain ⟨call, _, hstep⟩ := Option.bind_eq_some_iff.mp hstep
      split at hstep
      · cases hstep
        rfl
      · cases hstep
  | closeTurn index =>
      obtain ⟨pc, _, hstep⟩ := Option.bind_eq_some_iff.mp hstep
      cases pc with
      | swapping => cases hstep; rfl
      | sending =>
          dsimp only at hstep
          split at hstep
          · rename_i hsent
            obtain rfl := State.send_sent hsent
            cases hstep
            rfl
          · cases hstep
            rfl
          · cases hstep
      | waiting =>
          dsimp only at hstep
          split_ifs at hstep
          cases hstep
          rfl
      | returned => cases hstep
  | command written =>
      simp only [State.step] at hstep
      split_ifs at hstep
      unfold State.command at hstep
      split at hstep
      · cases hstep
      · cases hstep
        split_ifs <;> rfl
      · cases hstep
        rfl
  | handlesDropped =>
      simp only [State.step] at hstep
      split_ifs at hstep
      cases hstep
      rfl
  | read item =>
      simp only [State.step] at hstep
      split_ifs at hstep
      obtain rfl := Option.some.inj hstep
      cases item with
      | text value unreadable => exact absurd rfl (hlabel value unreadable)
      | _ => rfl
  | terminate =>
      simp only [State.step, State.terminate] at hstep
      split at hstep
      all_goals
        cases hstep
        try rfl

/-- A response leaves the mirror alone, and the connection goes on. -/
theorem State.read_response (s : State) (response : Protocol.Response) (unreadable : String) :
    (s.read (.text (some (ServerText.response response).encode) unreadable)).snapshot = s.snapshot ∧
      (s.read (.text (some (ServerText.response response).encode) unreadable)).connection =
        s.connection := by
  have hread : readText (some (ServerText.response response).encode) = .response response := by
    rw [readText, ServerText.encode, Protocol.ServerMessage.decode, Protocol.event_decode_response]
    dsimp only
    rw [Protocol.Response.decode_encode]
  rw [State.read, hread, State.handleMessage]
  dsimp only
  rw [State.handleResponse]
  split <;> exact ⟨rfl, rfl⟩

/-- An accepted event becomes the mirror, and the connection goes on. -/
theorem State.read_event {event : Event} {next : Snapshot} (hnext : handleEvent s.snapshot event = .ok next)
    (unreadable : String) :
    s.read (.text (some (ServerText.event event).encode) unreadable) = { s with snapshot := some next } := by
  have hread : readText (some (ServerText.event event).encode) = .event event := by
    rw [readText, ServerText.encode, Protocol.ServerMessage.decode, Event.decode_encode]
  rw [State.read, hread, State.handleMessage, hnext]

end RemoteClient

namespace Link

variable {toml : Toml} {s t : Link} {label : Link.Label} {subscriber : Subscriber}

/-- The events among the texts of the server. -/
def events (texts : List ServerText) : List Event := texts.filterMap ServerText.event?

/-- The connection has written the snapshot and then, in their order, the events of its subscription that
it has received; the client mirrors what it has read of them. -/
structure Mirrors (s : Link) (subscriber : Subscriber) : Prop where
  subscribed : s.daemon.subscribers[s.connection.subscriber]? = some subscriber
  received : s.connection.received ≤ subscriber.events.length
  written : events s.connection.written =
    .snapshot subscriber.snapshot :: subscriber.events.take s.connection.received
  delivered : s.delivered ≤ s.connection.written.length
  mirror : Replay.Leads observe none (events (s.connection.written.take s.delivered)) s.client.snapshot
  first : observe none (.snapshot subscriber.snapshot) = .ok (some subscriber.snapshot)

/-- The written events lead to what a client of the daemon mirrors. -/
theorem Mirrors.leads (h : s.Mirrors subscriber) (hdaemon : s.daemon.Mirrored) :
    ∃ reached, Replay.Leads observe none (events s.connection.written) (some reached) ∧
      Replay.Leads receive reached
        (subscriber.events.drop s.connection.received ++ s.daemon.outbox.map Prod.snd)
        (snapshotFrom s.daemon.inner) := by
  have hall := hdaemon.mirrors subscriber (List.mem_of_getElem? h.subscribed)
  rw [← List.take_append_drop s.connection.received subscriber.events, List.append_assoc] at hall
  obtain ⟨reached, hreceived, hrest⟩ := Replay.leads_append.mp hall
  refine ⟨reached, ?_, hrest⟩
  rw [h.written]
  exact Replay.leads_cons.mpr ⟨_, h.first, hreceived.view fun _ _ _ => observe_receive⟩

/-- The client accepts the next text of the server. -/
theorem Mirrors.accepts (h : s.Mirrors subscriber) (hdaemon : s.daemon.Mirrored) {text : ServerText}
    (htext : s.connection.written[s.delivered]? = some text) (unreadable : String) :
    (s.client.read (.text (some text.encode) unreadable)).connection = s.client.connection ∧
      Replay.Leads observe none (events (s.connection.written.take (s.delivered + 1)))
        (s.client.read (.text (some text.encode) unreadable)).snapshot := by
  have htake : events (s.connection.written.take (s.delivered + 1)) =
      events (s.connection.written.take s.delivered) ++ text.event?.toList := by
    rw [List.take_add_one, htext, events, List.filterMap_append]
    cases text <;> rfl
  cases text with
  | response response =>
      obtain ⟨hsnapshot, hconnection⟩ := s.client.read_response response unreadable
      refine ⟨hconnection, ?_⟩
      rw [htake, hsnapshot]
      exact Replay.leads_append.mpr ⟨_, h.mirror, Replay.leads_nil.mpr rfl⟩
  | event event =>
      obtain ⟨reached, hreached, _⟩ := h.leads hdaemon
      rw [← List.take_append_drop (s.delivered + 1) s.connection.written, events,
        List.filterMap_append] at hreached
      obtain ⟨middle, hmiddle, _⟩ := Replay.leads_append.mp hreached
      have hnext := hmiddle
      rw [← events, htake] at hnext
      obtain ⟨before, hbefore, hevent⟩ := Replay.leads_append.mp hnext
      obtain rfl := hbefore.unique h.mirror
      obtain ⟨after, hafter, hsame⟩ := Replay.leads_cons.mp hevent
      obtain rfl := Replay.leads_nil.mp hsame
      rw [observe] at hafter
      cases hhandled : handleEvent s.client.snapshot event with
      | error error =>
          rw [hhandled] at hafter
          cases hafter
      | ok next =>
          rw [hhandled] at hafter
          cases hafter
          rw [RemoteClient.State.read_event hhandled]
          exact ⟨rfl, hmiddle⟩

/-- A step that neither writes nor reads a text. -/
theorem Mirrors.kept (h : s.Mirrors subscriber) {more : List Event}
    (hsubscribed : t.daemon.subscribers[t.connection.subscriber]? =
      some { subscriber with events := subscriber.events ++ more })
    (hreceived : t.connection.received = s.connection.received)
    (hwritten : t.connection.written = s.connection.written) (hdelivered : t.delivered = s.delivered)
    (hsnapshot : t.client.snapshot = s.client.snapshot) :
    t.Mirrors { subscriber with events := subscriber.events ++ more } where
  subscribed := hsubscribed
  received := by
    rw [hreceived, List.length_append]
    exact h.received.trans (Nat.le_add_right _ _)
  written := by
    rw [hwritten, hreceived, h.written, List.take_append_of_le_length h.received]
  delivered := by
    rw [hdelivered, hwritten]
    exact h.delivered
  mirror := by
    rw [hwritten, hdelivered, hsnapshot]
    exact h.mirror
  first := h.first

/-- The same, when the daemon does nothing either. -/
theorem Mirrors.unchanged (h : s.Mirrors subscriber) (hdaemon : t.daemon = s.daemon)
    (hsubscriber : t.connection.subscriber = s.connection.subscriber)
    (hreceived : t.connection.received = s.connection.received)
    (hwritten : t.connection.written = s.connection.written) (hdelivered : t.delivered = s.delivered)
    (hsnapshot : t.client.snapshot = s.client.snapshot) : t.Mirrors subscriber := by
  have hsubscribed : t.daemon.subscribers[t.connection.subscriber]? =
      some { subscriber with events := subscriber.events ++ [] } := by
    rw [hdaemon, hsubscriber, List.append_nil]
    exact h.subscribed
  have hkept := h.kept hsubscribed hreceived hwritten hdelivered hsnapshot
  rwa [List.append_nil] at hkept

/-- The connection writes one more text. -/
theorem Mirrors.wrote (h : s.Mirrors subscriber) (text : ServerText) {received : Nat}
    (hreceived : received ≤ subscriber.events.length)
    (hevents : subscriber.events.take received =
      subscriber.events.take s.connection.received ++ text.event?.toList)
    (hdaemon : t.daemon = s.daemon) (hsubscriber : t.connection.subscriber = s.connection.subscriber)
    (hafter : t.connection.received = received)
    (hwritten : t.connection.written = s.connection.written ++ [text])
    (hdelivered : t.delivered = s.delivered) (hclient : t.client = s.client) : t.Mirrors subscriber where
  subscribed := by
    rw [hdaemon, hsubscriber]
    exact h.subscribed
  received := by rwa [hafter]
  written := by
    have hlast : [text].filterMap ServerText.event? = text.event?.toList := by cases text <;> rfl
    rw [hwritten, hafter, hevents, events, List.filterMap_append, hlast, ← events, h.written,
      List.cons_append]
  delivered := by
    rw [hdelivered, hwritten, List.length_append]
    exact h.delivered.trans (Nat.le_add_right _ _)
  mirror := by
    rw [hwritten, hdelivered, hclient, List.take_append_of_le_length h.delivered]
    exact h.mirror
  first := h.first

/-- A step of the daemon leaves what the connection has written. -/
theorem Mirrors.daemon (h : s.Mirrors subscriber) {daemonLabel : MpvTargets.Label} {daemon : System}
    (hdaemon : System.step toml s.daemon daemonLabel = some daemon) (ht : t.daemon = daemon)
    (hsubscriber : t.connection.subscriber = s.connection.subscriber)
    (hreceived : t.connection.received = s.connection.received)
    (hwritten : t.connection.written = s.connection.written) (hdelivered : t.delivered = s.delivered)
    (hsnapshot : t.client.snapshot = s.client.snapshot) : ∃ later, t.Mirrors later := by
  obtain ⟨more, hmore⟩ := System.subscriber_step h.subscribed hdaemon
  rw [← ht, ← hsubscriber] at hmore
  exact ⟨_, h.kept hmore hreceived hwritten hdelivered hsnapshot⟩

theorem Mirrors.step (h : s.Mirrors subscriber) (hmirrored : s.daemon.Mirrored)
    (hstep : Link.step toml s label = some t) : ∃ later, t.Mirrors later := by
  cases label with
  | client clientLabel =>
      simp only [Link.step] at hstep
      split_ifs at hstep with hsocket
      obtain ⟨client, hclient, rfl⟩ := Option.map_eq_some_iff.mp hstep
      have hsnapshot := RemoteClient.State.step_snapshot hclient fun _ _ hlabel => hsocket (by rw [hlabel]; rfl)
      exact ⟨_, h.unchanged rfl rfl rfl rfl rfl hsnapshot⟩
  | post written =>
      obtain ⟨client, hclient, rfl⟩ := Option.map_eq_some_iff.mp hstep
      have hsnapshot := RemoteClient.State.step_snapshot hclient fun _ _ hlabel => (by cases hlabel)
      exact ⟨_, h.unchanged rfl rfl rfl rfl rfl hsnapshot⟩
  | deliver unreadable =>
      obtain ⟨text, htext, hread⟩ := Option.bind_eq_some_iff.mp hstep
      obtain ⟨client, hclient, rfl⟩ := Option.map_eq_some_iff.mp hread
      have haccepts := (h.accepts hmirrored htext unreadable).2
      simp only [RemoteClient.State.step] at hclient
      split_ifs at hclient
      obtain rfl := Option.some.inj hclient
      have hlt := (List.getElem?_eq_some_iff.mp htext).1
      exact ⟨subscriber, h.subscribed, h.received, h.written, hlt, haccepts, h.first⟩
  | lose item =>
      cases item with
      | text => cases hstep
      | _ =>
          obtain ⟨client, hclient, rfl⟩ := Option.map_eq_some_iff.mp hstep
          have hsnapshot := RemoteClient.State.step_snapshot hclient fun _ _ hlabel => (by cases hlabel)
          exact ⟨_, h.unchanged rfl rfl rfl rfl rfl hsnapshot⟩
  | daemon daemonLabel =>
      obtain ⟨daemon, hdaemon, rfl⟩ := Option.map_eq_some_iff.mp hstep
      exact h.daemon hdaemon rfl rfl rfl rfl rfl rfl
  | readText =>
      obtain ⟨request, _, hread⟩ := Option.bind_eq_some_iff.mp hstep
      obtain ⟨connection', hworkers, rfl⟩ := Option.map_eq_some_iff.mp hread
      rw [Server.Connection.readText] at hworkers
      split_ifs at hworkers
      cases hworkers
      exact ⟨_, h.unchanged rfl rfl rfl rfl rfl rfl⟩
  | hangUp =>
      obtain ⟨connection', hended, rfl⟩ := Option.map_eq_some_iff.mp hstep
      rw [Server.Connection.hangUp] at hended
      split_ifs at hended
      cases hended
      exact ⟨_, h.unchanged rfl rfl rfl rfl rfl rfl⟩
  | dispatch position unreadable =>
      obtain ⟨⟨daemon', connection'⟩, hdispatch, rfl⟩ := Option.map_eq_some_iff.mp hstep
      obtain ⟨_, _, rfl, _, _, _, rfl | ⟨request, hrequest⟩⟩ := Server.dispatch_cases hdispatch
      · exact ⟨_, h.unchanged rfl rfl rfl rfl rfl rfl⟩
      · exact h.daemon hrequest rfl rfl rfl rfl rfl rfl
  | answer position listed found serialization =>
      obtain ⟨connection', hanswer, rfl⟩ := Option.map_eq_some_iff.mp hstep
      obtain ⟨_, rfl⟩ := Server.answer_cases hanswer
      exact ⟨_, h.unchanged rfl rfl rfl rfl rfl rfl⟩
  | sendResponse position =>
      obtain ⟨connection', hsend, rfl⟩ := Option.map_eq_some_iff.mp hstep
      obtain ⟨_, _, rfl⟩ := Server.Connection.sendResponse_cases hsend
      exact ⟨_, h.unchanged rfl rfl rfl rfl rfl rfl⟩
  | writeResponse =>
      obtain ⟨connection', hwritten, rfl⟩ := Option.map_eq_some_iff.mp hstep
      unfold Server.Connection.writeResponse at hwritten
      split at hwritten
      · cases hwritten
      · rename_i response responses _
        split_ifs at hwritten
        cases hwritten
        have hnone : subscriber.events.take s.connection.received =
            subscriber.events.take s.connection.received ++
              (ServerText.response response).event?.toList := (List.append_nil _).symm
        exact ⟨_, h.wrote (.response response) h.received hnone rfl rfl rfl rfl rfl rfl⟩
  | writeEvent =>
      obtain ⟨found, hfound, hwrite⟩ := Option.bind_eq_some_iff.mp hstep
      obtain ⟨connection', hwritten, rfl⟩ := Option.map_eq_some_iff.mp hwrite
      obtain rfl : subscriber = found := Option.some.inj (h.subscribed.symm.trans hfound)
      unfold Server.Connection.writeEvent at hwritten
      split_ifs at hwritten
      split at hwritten
      · cases hwritten
      · cases hwritten
        exact ⟨_, h.unchanged rfl rfl rfl rfl rfl rfl⟩
      · rename_i event hreceive
        cases hwritten
        have hevent := Server.receiveEvent_event hreceive
        have hnext : subscriber.events.take (s.connection.received + 1) =
            subscriber.events.take s.connection.received ++ (ServerText.event event).event?.toList := by
          rw [List.take_add_one, hevent]
          rfl
        have hlt := (List.getElem?_eq_some_iff.mp hevent).1
        exact ⟨_, h.wrote (.event event) hlt hnext rfl rfl rfl rfl rfl rfl⟩

/-- The daemon's step within a step of the link, if any, is orderly. -/
def orderly (toml : Toml) (s : Link) : Link.Label → Bool
  | .daemon label => s.daemon.orderly toml label
  | _ => true

theorem inStep_step (h : s.daemon.InStep toml) (hparses : toml.ParsesBack)
    (horderly : s.orderly toml label = true) (hstep : Link.step toml s label = some t) :
    t.daemon.InStep toml := by
  have hsystem : ∀ (daemonLabel : MpvTargets.Label) (daemon : System),
      s.daemon.orderly toml daemonLabel = true → System.step toml s.daemon daemonLabel = some daemon →
      daemon.InStep toml := fun daemonLabel daemon hdaemonOrderly hdaemon =>
    ⟨h.admits.step hparses hdaemon, h.mirrored.step h.admits hdaemonOrderly hdaemon⟩
  cases label with
  | client clientLabel =>
      simp only [Link.step] at hstep
      split_ifs at hstep
      obtain ⟨_, _, rfl⟩ := Option.map_eq_some_iff.mp hstep
      exact h
  | daemon daemonLabel =>
      obtain ⟨daemon, hdaemon, rfl⟩ := Option.map_eq_some_iff.mp hstep
      exact hsystem daemonLabel daemon horderly hdaemon
  | dispatch position unreadable =>
      obtain ⟨⟨daemon', connection'⟩, hdispatch, rfl⟩ := Option.map_eq_some_iff.mp hstep
      obtain ⟨_, _, rfl, _, _, _, rfl | ⟨request, hrequest⟩⟩ := Server.dispatch_cases hdispatch
      · exact h
      · exact hsystem (.request request) daemon' rfl hrequest
  | lose item =>
      cases item with
      | text => cases hstep
      | _ =>
          obtain ⟨_, _, rfl⟩ := Option.map_eq_some_iff.mp hstep
          exact h
  | deliver | readText | writeEvent =>
      obtain ⟨_, _, hnext⟩ := Option.bind_eq_some_iff.mp hstep
      obtain ⟨_, _, rfl⟩ := Option.map_eq_some_iff.mp hnext
      exact h
  | _ =>
      obtain ⟨_, _, rfl⟩ := Option.map_eq_some_iff.mp hstep
      exact h

/-- What a remote client sees of the daemon. -/
structure MirrorsDaemon (s : Link) : Prop where
  /-- What is written are the events of the subscription in their order, none skipped, and the client
  mirrors what it has read of them. -/
  in_order : ∃ subscriber, s.Mirrors subscriber
  /-- The client accepts the next text, and goes on. -/
  accepts : ∀ (text : ServerText) (unreadable : String), s.connection.written[s.delivered]? = some text →
    s.client.connection = .selecting →
    ∃ next, s.client.step (.read (.text (some text.encode) unreadable)) = some next ∧
      next.connection = .selecting
  /-- A client that has read everything mirrors the daemon. -/
  caught_up : ∀ subscriber, s.daemon.subscribers[s.connection.subscriber]? = some subscriber →
    s.connection.received = subscriber.events.length → s.delivered = s.connection.written.length →
    s.daemon.outbox = [] → s.client.snapshot = some (snapshotFrom s.daemon.inner)

theorem Mirrors.mirrorsDaemon (h : s.Mirrors subscriber) (hmirrored : s.daemon.Mirrored) :
    s.MirrorsDaemon where
  in_order := ⟨subscriber, h⟩
  accepts := by
    intro text unreadable htext hselecting
    refine ⟨_, if_pos hselecting, ?_⟩
    rw [(h.accepts hmirrored htext unreadable).1, hselecting]
  caught_up := by
    intro found hfound hreceived hdelivered houtbox
    obtain rfl : subscriber = found := Option.some.inj (h.subscribed.symm.trans hfound)
    obtain ⟨reached, hreached, hrest⟩ := h.leads hmirrored
    rw [hreceived, List.drop_length, houtbox, List.map_nil, List.nil_append] at hrest
    have hmirror := h.mirror
    rw [hdelivered, List.take_length] at hmirror
    rw [hmirror.unique hreached, Replay.leads_nil.mp hrest]

end Link

/-- **Remote mirrors converge**: in every orderly run of a client and the daemon over one connection, the
client accepts every text of the daemon, no event is skipped on the way, and whenever nothing is left on
the way, the client mirrors the daemon. -/
theorem remote_mirror_converges {toml : Toml} {config : DaemonConfig} {file : String}
    {past : List (System × Label)} {daemon : System} {history : List (Link × Link.Label)} {s : Link}
    (hparses : toml.ParsesBack) (hfile : DaemonConfig.parse toml file = .ok config)
    (hpast : System.Run toml config file past daemon)
    (horderlyPast : ∀ entry ∈ past, entry.1.orderly toml entry.2 = true)
    (hserving : daemon.serving = true) (hsubscribes : daemon.orderly toml .subscribe = true)
    (hrun : Link.Run toml daemon history s)
    (horderly : ∀ entry ∈ history, entry.1.orderly toml entry.2 = true) : s.MirrorsDaemon := by
  have hinitial : (System.initial config file).InStep toml :=
    ⟨(System.Run.admits hparses hfile Trace.refl).1,
      ⟨fun _ hentry => absurd hentry List.not_mem_nil, fun _ hentry => absurd hentry List.not_mem_nil⟩⟩
  have hsystem : ∀ (t : System) (label : Label) (u : System), t.InStep toml → t.orderly toml label = true →
      System.step toml t label = some u → u.InStep toml :=
    fun t label u ht hlabel hu => ⟨ht.admits.step hparses hu, ht.mirrored.step ht.admits hlabel hu⟩
  have hdaemon : (Link.connected daemon).daemon.InStep toml :=
    hsystem daemon .subscribe _ (Trace.invariant hinitial hsystem hpast horderlyPast) hsubscribes
      (if_pos hserving)
  have hconnected : (Link.connected daemon).Mirrors ⟨snapshotFrom daemon.inner, []⟩ :=
    { subscribed := List.getElem?_concat_length
      received := Nat.zero_le _
      written := rfl
      delivered := Nat.zero_le _
      mirror := Replay.leads_nil.mpr rfl
      first := by
        have haccepted := handleEvent_snapshot none daemon.inner
        rw [emitSnapshot] at haccepted
        rw [observe, haccepted]
        rfl }
  have hstep : ∀ (t : Link) (label : Link.Label) (u : Link),
      (t.daemon.InStep toml ∧ ∃ subscriber, t.Mirrors subscriber) → t.orderly toml label = true →
      Link.step toml t label = some u → u.daemon.InStep toml ∧ ∃ subscriber, u.Mirrors subscriber := by
    rintro t label u ⟨hinStep, subscriber, hmirrors⟩ hlabel hu
    exact ⟨Link.inStep_step hinStep hparses hlabel hu, hmirrors.step hinStep.mirrored hu⟩
  obtain ⟨hinStep, subscriber, hmirrors⟩ :=
    Trace.invariant ⟨hdaemon, _, hconnected⟩ hstep hrun horderly
  exact hmirrors.mirrorsDaemon hinStep.mirrored

/-- A client stops `tv`, and reads the snapshot, the two events of the stop and the response. -/
def mirroredStop : List Link.Label :=
  .client (.call (some "tv") .targetStop) :: List.replicate 4 (.client (.turn 0)) ++
    [.post true, .readText, .dispatch 0 ""] ++ List.replicate 6 (.daemon (.task 2 .ok)) ++
    List.replicate 2 .writeEvent ++
    [.answer 0 (.ok .done) .null "", .sendResponse 0, .writeResponse] ++
    List.replicate 4 (.deliver "") ++ [.client (.turn 0)]

/-- Everything has arrived. -/
def Link.caughtUp (s : Link) : Bool :=
  s.delivered == s.connection.written.length && s.daemon.outbox.isEmpty &&
    (s.daemon.subscribers[s.connection.subscriber]?).any
      fun subscriber => s.connection.received == subscriber.events.length

theorem remote_mirror_converges_mirroredStop : ∃ past daemon history s,
    System.Run tvToml tvNode tvNode.toText past daemon ∧ Link.Run tvToml daemon history s ∧
    history.map Prod.snd = mirroredStop ∧ s.caughtUp = true ∧
    (∃ mirror, s.client.snapshot = some mirror ∧ (mirror.targets.map TargetRecord.stopped) = [true]) ∧
    s.MirrorsDaemon := by
  have hchecks : ((runChecked (System.step tvToml) (System.orderly tvToml)
      (System.initial tvNode tvNode.toText) startAttached).any fun daemon =>
        daemon.serving && daemon.orderly tvToml .subscribe &&
        (runChecked (Link.step tvToml) (Link.orderly tvToml) (.connected daemon) mirroredStop).any fun s =>
          s.caughtUp && s.client.snapshot.any
            fun mirror => mirror.targets.map TargetRecord.stopped == [true]) = true := by
    decide +kernel
  rw [Option.any_eq_true] at hchecks
  obtain ⟨daemon, hdaemon, hchecks⟩ := hchecks
  simp only [Bool.and_eq_true, Option.any_eq_true, beq_iff_eq] at hchecks
  obtain ⟨⟨hserving, hsubscribes⟩, s, hs, hcaughtUp, mirror, hmirror, hstopped⟩ := hchecks
  obtain ⟨past, hpast, _, horderlyPast⟩ := exists_trace_of_runChecked hdaemon
  obtain ⟨history, hrun, hlabels, horderly⟩ := exists_trace_of_runChecked hs
  exact ⟨past, daemon, history, s, hpast, hrun, hlabels, hcaughtUp, ⟨mirror, hmirror, hstopped⟩,
    remote_mirror_converges tvToml_parsesBack tvNode_parse hpast horderlyPast hserving hsubscribes hrun
      horderly⟩

end MpvTargets

import Mathlib
import MpvTargets.Admissibility
import MpvTargets.Library.Replay

/-! The event stream of one client. A client that mirrors the daemon stays in step as long as no event
is sent past a pending one it cannot be swapped with. -/

namespace MpvTargets

/-- What a client mirrors after one more event. -/
def receive (mirror : Snapshot) (event : Event) : Except ClientError Snapshot :=
  handleEvent (some mirror) event

/-- Every event of the stream is accepted, and every change is the next one of a mirrored target. -/
def Follows (mirror : Snapshot) : List Event → Prop
  | [] => True
  | event :: rest =>
      (∀ change, event = .targetChanged change →
        ∃ record ∈ mirror.targets, record.name = change.target ∧
          change.revision = record.revision + 1) ∧
      ∃ next, handleMessage (some mirror) event.encode = some (.ok next) ∧ Follows next rest

theorem replaceFirst_cons_eq_ok {name : String} {update : TargetRecord → Except ClientError TargetRecord}
    {record : TargetRecord} {rest updated : List TargetRecord} :
    replaceFirst name update (record :: rest) = some (.ok updated) ↔
      (record.name = name ∧ ∃ next, update record = .ok next ∧ updated = next :: rest) ∨
      (record.name ≠ name ∧ ∃ others, replaceFirst name update rest = some (.ok others) ∧
        updated = record :: others) := by
  rw [replaceFirst]
  split_ifs with hname
  · cases hupdate : update record <;> simp [hname, Except.map, eq_comm]
  · cases hrest : replaceFirst name update rest with
    | none => simp [hname]
    | some result => cases result <;> simp [hname, Except.map, eq_comm]

theorem replaceFirst_found {name : String} {update : TargetRecord → Except ClientError TargetRecord}
    {records updated : List TargetRecord} (h : replaceFirst name update records = some (.ok updated)) :
    ∃ record ∈ records, record.name = name ∧ ∃ next, update record = .ok next := by
  induction records generalizing updated with
  | nil => cases h
  | cons record rest ih =>
      rcases replaceFirst_cons_eq_ok.mp h with ⟨hname, next, hnext, _⟩ | ⟨_, others, hothers, _⟩
      · exact ⟨record, List.mem_cons_self, hname, next, hnext⟩
      · obtain ⟨found, hfound, hname, hnext⟩ := ih hothers
        exact ⟨found, List.mem_cons_of_mem _ hfound, hname, hnext⟩

theorem applyTargetChange_eq_ok {mirror next : Snapshot} {change : TargetChanged} :
    applyTargetChange mirror change = .ok next ↔
      ∃ targets, replaceFirst change.target (fun record => applyChange record change) mirror.targets =
        some (.ok targets) ∧ next = refreshHealth { mirror with targets } := by
  rw [applyTargetChange]
  cases hreplaced : replaceFirst change.target (fun record => applyChange record change)
      mirror.targets with
  | none => simp [throw, throwThe, MonadExceptOf.throw]
  | some result =>
      cases result <;> simp [bind, Except.bind, pure, Except.pure, eq_comm]

theorem applyChange_revision {record next : TargetRecord} {change : TargetChanged}
    (h : applyChange record change = .ok next) : change.revision = record.revision + 1 := by
  by_contra hne
  rw [applyChange, if_pos hne] at h
  cases h

/-- A changed field leaves the name of the record alone. -/
theorem applyChangedField_name {record next : TargetRecord} {field : String} {value : Value}
    (h : applyChangedField record field value = .ok next) : next.name = record.name := by
  unfold applyChangedField at h
  split at h
  all_goals simp only [bind, Except.bind, pure, Except.pure, throw, throwThe, MonadExceptOf.throw] at h
  all_goals
    first
    | cases h
    | split at h
      · cases h
      · cases h
        rfl

theorem applyChange_name {record next : TargetRecord} {change : TargetChanged}
    (h : applyChange record change = .ok next) : next.name = record.name := by
  have hfields : ∀ (fields : List (String × Value)) (before after : TargetRecord),
      fields.foldlM (fun target entry => applyChangedField target entry.1 entry.2) before = .ok after →
        after.name = before.name := by
    intro fields
    induction fields with
    | nil =>
        intro before after hfold
        cases hfold
        rfl
    | cons entry rest ih =>
        intro before after hfold
        obtain ⟨middle, hentry, hrest⟩ := Replay.leads_cons.mp hfold
        rw [ih middle after hrest, applyChangedField_name hentry]
  simp only [applyChange, bind, Except.bind] at h
  split at h
  · cases h
  · split at h
    · cases h
    · split at h
      · cases h
      · rename_i fields _ after hfold
        cases h
        exact hfields _ _ after hfold

/-- Two changes of different targets may be applied in either order. -/
theorem replaceFirst_swap {first second : String} (hne : first ≠ second)
    {update update' : TargetRecord → Except ClientError TargetRecord}
    (hname : ∀ record next, update record = .ok next → next.name = record.name)
    (hname' : ∀ record next, update' record = .ok next → next.name = record.name)
    {records middle updated : List TargetRecord}
    (hfirst : replaceFirst first update records = some (.ok middle))
    (hsecond : replaceFirst second update' middle = some (.ok updated)) :
    ∃ other, replaceFirst second update' records = some (.ok other) ∧
      replaceFirst first update other = some (.ok updated) := by
  induction records generalizing middle updated with
  | nil => cases hfirst
  | cons record rest ih =>
      rcases replaceFirst_cons_eq_ok.mp hfirst with
        ⟨hrecord, next, hnext, rfl⟩ | ⟨hrecord, others, hothers, rfl⟩
      · have hkept : next.name ≠ second := by
          rw [hname _ _ hnext, hrecord]
          exact hne
        rcases replaceFirst_cons_eq_ok.mp hsecond with ⟨heq, _⟩ | ⟨_, others, hothers, rfl⟩
        · exact absurd heq hkept
        · refine ⟨record :: others, ?_, ?_⟩
          · exact replaceFirst_cons_eq_ok.mpr (Or.inr ⟨hrecord ▸ hne, others, hothers, rfl⟩)
          · exact replaceFirst_cons_eq_ok.mpr (Or.inl ⟨hrecord, next, hnext, rfl⟩)
      · rcases replaceFirst_cons_eq_ok.mp hsecond with
          ⟨hrecord', next, hnext, rfl⟩ | ⟨hrecord', last, hlast, rfl⟩
        · refine ⟨next :: rest, ?_, ?_⟩
          · exact replaceFirst_cons_eq_ok.mpr (Or.inl ⟨hrecord', next, hnext, rfl⟩)
          · have hkept : next.name ≠ first := by
              rw [hname' _ _ hnext]
              exact hrecord
            exact replaceFirst_cons_eq_ok.mpr (Or.inr ⟨hkept, others, hothers, rfl⟩)
        · obtain ⟨other, hother, hback⟩ := ih hothers hlast
          refine ⟨record :: other, ?_, ?_⟩
          · exact replaceFirst_cons_eq_ok.mpr (Or.inr ⟨hrecord', other, hother, rfl⟩)
          · exact replaceFirst_cons_eq_ok.mpr (Or.inr ⟨hrecord, last, hback, rfl⟩)

/-- Two changes of different targets; a new snapshot can be swapped with nothing. -/
def Event.apart : Event → Event → Bool
  | targetChanged first, targetChanged second => first.target ≠ second.target
  | _, _ => false

theorem swaps_of_apart {first second : Event} (h : first.apart second = true) :
    Replay.Swaps receive first second := by
  cases first with
  | snapshot => cases h
  | targetChanged first =>
      cases second with
      | snapshot => cases h
      | targetChanged second =>
          have hne : first.target ≠ second.target := by simpa [Event.apart] using h
          intro mirror middle last hfirst hsecond
          obtain ⟨targets, htargets, rfl⟩ := applyTargetChange_eq_ok.mp hfirst
          obtain ⟨targets', htargets', rfl⟩ := applyTargetChange_eq_ok.mp hsecond
          obtain ⟨other, hother, hback⟩ := replaceFirst_swap hne (fun _ _ => applyChange_name)
            (fun _ _ => applyChange_name) htargets htargets'
          exact ⟨_, applyTargetChange_eq_ok.mpr ⟨other, hother, rfl⟩,
            applyTargetChange_eq_ok.mpr ⟨targets', hback, rfl⟩⟩

/-- A stream is followed exactly when it replays without an error. -/
theorem follows_iff {mirror : Snapshot} {events : List Event} :
    Follows mirror events ↔ ∃ last, Replay.Leads receive mirror events last := by
  induction events generalizing mirror with
  | nil => simp [Follows]
  | cons event rest ih =>
      constructor
      · rintro ⟨_, next, hnext, hrest⟩
        rw [handleMessage_encode] at hnext
        obtain ⟨last, hlast⟩ := ih.mp hrest
        exact ⟨last, Replay.leads_cons.mpr ⟨next, Option.some.inj hnext, hlast⟩⟩
      · rintro ⟨last, hlast⟩
        obtain ⟨next, hnext, hrest⟩ := Replay.leads_cons.mp hlast
        refine ⟨?_, next, ?_, ih.mpr ⟨last, hrest⟩⟩
        · rintro change rfl
          obtain ⟨targets, htargets, _⟩ := applyTargetChange_eq_ok.mp hnext
          obtain ⟨record, hrecord, hname, after, hafter⟩ := replaceFirst_found htargets
          exact ⟨record, hrecord, hname, applyChange_revision hafter⟩
        · rw [handleMessage_encode]
          exact congrArg some hnext

/-- When the task sends its pending event, no earlier one about the same target is still to be sent. -/
def System.sendsInOrder (s : System) (index : Nat) : Bool :=
  s.outbox.Pairwise fun first second =>
    first.1 ≠ index → second.1 = index → first.2.apart second.2 = true

/-- With clients connected, no step sends an event past a pending one about the same target, or a
snapshot past any; and no client subscribes while an event is pending. -/
def System.orderly (toml : Toml) (s : System) : Label → Bool
  | .task index external =>
      s.subscribers.isEmpty || (s.tasks[index]?).all fun task =>
        if task.pc.sends then s.sendsInOrder index
        else
          task.pc.defers || (task.pc.critical external).all fun critical =>
            (critical.run toml s.inner).events.all fun event =>
              s.outbox.all fun entry => entry.2.apart event
  | .request _ => true
  | .subscribe => s.outbox.isEmpty

/-- Once it has received what is pending, every client mirrors the daemon. -/
structure System.Mirrored (s : System) : Prop where
  pending : ∀ entry ∈ s.outbox, ∃ change, entry.2 = .targetChanged change
  mirrors : ∀ subscriber ∈ s.subscribers,
    Replay.Leads receive subscriber.snapshot (subscriber.events ++ s.outbox.map Prod.snd)
      (snapshotFrom s.inner)

theorem Delta.leads {before : Inner} {result : Commit} (h : Delta before result) :
    Replay.Leads receive (snapshotFrom before) result.events (snapshotFrom result.inner) := by
  rcases h with ⟨hsame, hnone⟩ | ⟨_, event, hevents, hhandled⟩
  · rw [hnone, hsame]
    exact Replay.leads_nil.mpr rfl
  · rw [handleMessage_encode] at hhandled
    rw [hevents]
    exact Replay.leads_cons.mpr ⟨_, Option.some.inj hhandled, Replay.leads_nil.mpr rfl⟩

/-- Deferred events are reports about one target. -/
theorem deferred_targetChanged {toml : Toml} {inner : Inner} {pc : Pc} {external : External}
    {critical : CriticalSection} (hcritical : pc.critical external = some critical)
    (hdefers : pc.defers = true) {event : Event} (hevent : event ∈ (critical.run toml inner).events) :
    ∃ change, event = .targetChanged change := by
  have honTarget : ∃ name op, critical = .onTarget name op := by
    cases pc <;> cases hdefers <;> exact ⟨_, _, (Option.some.inj hcritical).symm⟩
  obtain ⟨name, op, rfl⟩ := honTarget
  rw [CriticalSection.run, Inner.onTarget] at hevent
  split at hevent
  · exact absurd hevent List.not_mem_nil
  · obtain ⟨changed, _, rfl⟩ := Option.mem_map.mp (Option.mem_toList.mp hevent)
    exact ⟨_, rfl⟩

namespace System

variable {toml : Toml} {s s' : System}

theorem mem_broadcast {events : List Event} {subscribers : List Subscriber} {subscriber : Subscriber}
    (h : subscriber ∈ broadcast events subscribers) :
    ∃ old ∈ subscribers, subscriber = { old with events := old.events ++ events } := by
  obtain ⟨old, hold, rfl⟩ := List.mem_map.mp h
  exact ⟨old, hold, rfl⟩

/-- A section that leaves its event to a later send appends it to what is pending. -/
theorem Mirrored.defer (h : s.Mirrored) (index : Nat) {critical : CriticalSection}
    (hdelta : Delta s.inner (critical.run toml s.inner))
    (hevents : ∀ event ∈ (critical.run toml s.inner).events, ∃ change, event = .targetChanged change) :
    (s.perform toml index (.lockedThenSend critical)).Mirrored := by
  refine ⟨?_, ?_⟩
  · intro entry hentry
    rcases List.mem_append.mp hentry with hold | hnew
    · exact h.pending entry hold
    · obtain ⟨event, hevent, rfl⟩ := List.mem_map.mp hnew
      exact hevents event hevent
  · intro subscriber hsubscriber
    have hnew : ((critical.run toml s.inner).events.map fun event => (index, event)).map Prod.snd =
        (critical.run toml s.inner).events := by
      rw [List.map_map]
      exact List.map_id' _
    change Replay.Leads receive subscriber.snapshot
      (subscriber.events ++ (s.outbox ++ (critical.run toml s.inner).events.map
        fun event => (index, event)).map Prod.snd) (snapshotFrom (critical.run toml s.inner).inner)
    rw [List.map_append, hnew, ← List.append_assoc]
    exact Replay.leads_append.mpr ⟨_, h.mirrors subscriber hsubscriber, hdelta.leads⟩

/-- A section that sends its event at once brings it before what is pending. -/
theorem Mirrored.locked (h : s.Mirrored) (index : Nat) {critical : CriticalSection}
    (hdelta : Delta s.inner (critical.run toml s.inner))
    (hapart : s.subscribers ≠ [] → ∀ event ∈ (critical.run toml s.inner).events,
      ∀ entry ∈ s.outbox, entry.2.apart event = true) :
    (s.perform toml index (.locked critical)).Mirrored := by
  refine ⟨h.pending, ?_⟩
  intro subscriber hsubscriber
  obtain ⟨old, hold, rfl⟩ := mem_broadcast hsubscriber
  obtain ⟨reached, hreached, hpending⟩ := Replay.leads_append.mp (h.mirrors old hold)
  change Replay.Leads receive old.snapshot
    ((old.events ++ (critical.run toml s.inner).events) ++ s.outbox.map Prod.snd)
    (snapshotFrom (critical.run toml s.inner).inner)
  rw [List.append_assoc]
  refine Replay.leads_append.mpr ⟨reached, hreached, ?_⟩
  have hall := Replay.leads_append.mpr ⟨_, hpending, hdelta.leads⟩
  rcases hdelta with ⟨_, hnone⟩ | ⟨_, event, hevents, _⟩
  · rw [hnone] at hall ⊢
    rwa [List.append_nil] at hall
  · rw [hevents] at hall ⊢
    refine hall.move_front fun earlier hearlier => ?_
    obtain ⟨entry, hentry, rfl⟩ := List.mem_map.mp hearlier
    have hne : s.subscribers ≠ [] := List.ne_nil_of_mem hold
    exact swaps_of_apart (hapart hne event (by simp [hevents]) entry hentry)

/-- A task that sends its pending event brings it before the other pending ones. -/
theorem Mirrored.send (h : s.Mirrored) (index : Nat)
    (horder : s.subscribers ≠ [] → s.sendsInOrder index = true) :
    (s.perform toml index .send).Mirrored := by
  refine ⟨?_, ?_⟩
  · intro entry hentry
    exact h.pending entry (List.mem_of_mem_filter hentry)
  · intro subscriber hsubscriber
    obtain ⟨old, hold, rfl⟩ := mem_broadcast hsubscriber
    obtain ⟨reached, hreached, hpending⟩ := Replay.leads_append.mp (h.mirrors old hold)
    have hentries : Replay.Leads (fun mirror (entry : Nat × Event) => receive mirror entry.2) reached
        s.outbox (snapshotFrom s.inner) := by
      rwa [Replay.Leads, List.foldlM_map] at hpending
    have hpairwise := of_decide_eq_true (horder (List.ne_nil_of_mem hold))
    have hparted : Replay.Leads (fun mirror (entry : Nat × Event) => receive mirror entry.2) reached
        ((s.outbox.filter fun entry => entry.1 = index) ++
          s.outbox.filter fun entry => !decide (entry.1 = index)) (snapshotFrom s.inner) :=
      hentries.partition (hpairwise.imp fun {first second} hapart hfirst hsecond =>
        swaps_of_apart (hapart (of_decide_eq_false hfirst) (of_decide_eq_true hsecond)))
    change Replay.Leads receive old.snapshot
      ((old.events ++ (s.outbox.filter fun entry => entry.1 = index).map Prod.snd) ++
        (s.outbox.filter fun entry => entry.1 ≠ index).map Prod.snd) (snapshotFrom s.inner)
    rw [List.append_assoc, ← List.map_append]
    refine Replay.leads_append.mpr ⟨reached, hreached, ?_⟩
    rw [Replay.Leads, List.foldlM_map]
    simpa only [Replay.Leads, ne_eq, decide_not] using hparted

theorem sends_of_critical {pc : Pc} {external : External} {critical : CriticalSection}
    (h : pc.critical external = some critical) : pc.sends = false := by
  cases pc <;> first | rfl | cases h

theorem Mirrored.turn (h : s.Mirrored) (hadmits : s.Admits toml) {index : Nat} {external : External}
    {task : Task} {turn : Turn} (htask : s.tasks[index]? = some task)
    (hturn : task.turn toml s.view external = some turn)
    (horderly : s.orderly toml (.task index external) = true) :
    (s.perform toml index turn.effect).Mirrored := by
  have hmem := List.mem_of_getElem? htask
  simp only [orderly, htask, Option.all_some, Bool.or_eq_true, List.isEmpty_iff] at horderly
  cases hcritical : task.pc.critical external with
  | some critical =>
      have hdelta := hadmits.delta hmem hcritical
      rw [Task.turn_effect_of_critical hturn hcritical]
      split_ifs with hdefers
      · exact h.defer index hdelta fun event hevent =>
          deferred_targetChanged hcritical hdefers hevent
      · refine h.locked index hdelta fun hne event hevent entry hentry => ?_
        have hstep := horderly.resolve_left hne
        simp only [sends_of_critical hcritical, hdefers, hcritical, Option.all_some,
          Bool.false_or, if_false, Bool.false_eq_true] at hstep
        exact List.all_eq_true.mp (List.all_eq_true.mp hstep event hevent) entry hentry
  | none =>
      rcases Task.turn_effect_of_none hturn hcritical with ⟨hsends, he⟩ | ⟨_, he | ⟨_, _, _, _, he⟩⟩
      · rw [he]
        refine h.send index fun hne => ?_
        have hstep := horderly.resolve_left hne
        rwa [if_pos hsends] at hstep
      all_goals
        rw [he]
        exact ⟨h.pending, h.mirrors⟩

theorem Mirrored.step (h : s.Mirrored) (hadmits : s.Admits toml) {label : Label}
    (horderly : s.orderly toml label = true) (hstep : System.step toml s label = some s') :
    s'.Mirrored := by
  rcases step_cases hstep with
    ⟨index, external, task, turn, rfl, _, htask, hturn, rfl⟩ | ⟨_, rfl, _, rfl⟩ | ⟨rfl, _, rfl⟩
  · have hturned := h.turn hadmits htask hturn horderly
    exact ⟨hturned.pending, hturned.mirrors⟩
  · exact ⟨h.pending, h.mirrors⟩
  · refine ⟨h.pending, ?_⟩
    intro subscriber hsubscriber
    rcases List.mem_append.mp hsubscriber with hold | hnew
    · exact h.mirrors subscriber hold
    · rw [List.mem_singleton.mp hnew]
      have hnone : s.outbox = [] := List.isEmpty_iff.mp horderly
      simp [hnone]

/-- What an orderly run keeps of its clients. -/
structure InStep (toml : Toml) (s : System) : Prop where
  admits : s.Admits toml
  mirrored : s.Mirrored

end System

/-- **Contiguity of the event stream**: in an orderly run every client accepts every event it receives,
and every change is the next one of a target it mirrors. -/
theorem event_stream_contiguous {toml : Toml} {config : DaemonConfig} {file : String}
    {history : List (System × Label)} {s : System} (hparses : toml.ParsesBack)
    (hfile : DaemonConfig.parse toml file = .ok config)
    (hrun : System.Run toml config file history s)
    (horderly : ∀ entry ∈ history, entry.1.orderly toml entry.2 = true) :
    ∀ subscriber ∈ s.subscribers, Follows subscriber.snapshot subscriber.events := by
  have hstart : (System.initial config file).InStep toml :=
    ⟨(System.Run.admits hparses hfile Trace.refl).1,
      ⟨fun _ hentry => absurd hentry List.not_mem_nil, fun _ hentry => absurd hentry List.not_mem_nil⟩⟩
  have hstep : ∀ t label u, System.InStep toml t → t.orderly toml label = true →
      System.step toml t label = some u → System.InStep toml u :=
    fun t label u ht hlabel hu => ⟨ht.admits.step hparses hu, ht.mirrored.step ht.admits hlabel hu⟩
  obtain ⟨_, hmirrored⟩ := Trace.invariant hstart hstep hrun horderly
  intro subscriber hsubscriber
  obtain ⟨reached, hreached, _⟩ := Replay.leads_append.mp (hmirrored.mirrors subscriber hsubscriber)
  exact follows_iff.mpr ⟨reached, hreached⟩

/-- A connected client, an observed field, and a stop up to `clear_observed`, whose event is pending. -/
def stopWithPendingClear : List Label :=
  startAttached ++ [.subscribe, .task 1 .ok, .task 1 (muteLine true), .task 1 .ok,
    .request (.stop "tv"), .task 2 .ok, .task 2 .ok, .task 2 .ok, .task 2 .ok]

/-- The stop sends its event and goes offline: the client follows. -/
theorem event_stream_contiguous_stop :
    ∃ history s, System.Run tvToml tvNode tvNode.toText history s ∧
      history.map Prod.snd = stopWithPendingClear ++ List.replicate 3 (.task 2 .ok) ∧
      (∃ subscriber ∈ s.subscribers, subscriber.events.length = 4) ∧
      ∀ subscriber ∈ s.subscribers, Follows subscriber.snapshot subscriber.events := by
  have hlabels : (runChecked (System.step tvToml) (System.orderly tvToml)
      (System.initial tvNode tvNode.toText)
      (stopWithPendingClear ++ List.replicate 3 (.task 2 .ok))).any
        (fun s => s.subscribers.any fun subscriber => subscriber.events.length = 4) = true := by
    decide +kernel
  obtain ⟨history, s, hrun, hlabels, horderly, hresult⟩ := System.exists_run hlabels
  refine ⟨history, s, hrun, hlabels, by simpa using hresult, ?_⟩
  exact event_stream_contiguous tvToml_parsesBack tvNode_parse hrun horderly

/-- The observer reports a field before the stop sends its event: the client sees a revision gap. -/
theorem event_stream_broken_when_overtaken :
    ∃ history s, System.Run tvToml tvNode tvNode.toText history s ∧
      history.map Prod.snd = stopWithPendingClear ++ [.task 1 (muteLine false), .task 1 .ok] ∧
      ∃ subscriber ∈ s.subscribers, ¬Follows subscriber.snapshot subscriber.events := by
  have hlabels : (runChecked (System.step tvToml) (fun _ _ => true)
      (System.initial tvNode tvNode.toText)
      (stopWithPendingClear ++ [.task 1 (muteLine false), .task 1 .ok])).any
        (fun s => s.subscribers.any fun subscriber =>
          !(subscriber.events.foldlM receive subscriber.snapshot).isOk) = true := by
    decide +kernel
  obtain ⟨history, s, hrun, hlabels, _, hresult⟩ := System.exists_run hlabels
  obtain ⟨subscriber, hsubscriber, hfailed⟩ := List.any_eq_true.mp hresult
  refine ⟨history, s, hrun, hlabels, subscriber, hsubscriber, fun hfollows => ?_⟩
  obtain ⟨last, hlast⟩ := follows_iff.mp hfollows
  rw [hlast] at hfailed
  cases hfailed

end MpvTargets

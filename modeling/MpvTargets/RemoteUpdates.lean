import MpvTargets.ConfigUpdates
import MpvTargets.RemoteLink

/-! From a call of the client to the configuration of the daemon. A configuration call that is answered
with success is in effect exactly once, and one that never gets its answer at most once. -/

namespace MpvTargets

open Server (Worker)

/-- An operation is told by the task it begins as. -/
theorem Request.task_injective {left right : Request} (h : left.task = right.task) : left = right := by
  cases left <;> cases right <;> simp_all [Request.task]

namespace Link

/-- The step the daemon takes within a step of the link. -/
def systemStep (s : Link) : Link.Label → Option (System × MpvTargets.Label)
  | .daemon label => some (s.daemon, label)
  | .dispatch position unreadable =>
      (s.connection.workers[position]?).bind fun worker =>
        match Protocol.acceptRequest worker.source unreadable with
        | .ok request =>
            match Protocol.dispatchOperation request with
            | .operation operation => some (s.daemon, .request operation)
            | _ => none
        | .error _ => none
  | _ => none

/-- The run of the daemon within a run of the link. -/
def systemHistory (history : List (Link × Link.Label)) : List (System × MpvTargets.Label) :=
  history.filterMap fun entry => entry.1.systemStep entry.2

section

variable {toml : Toml} {history : List (Link × Link.Label)} {s t : Link} {label : Link.Label}

theorem systemStep_spec (hstep : Link.step toml s label = some t) :
    (s.systemStep label = none ∧ t.daemon = s.daemon) ∨
      ∃ daemonLabel, s.systemStep label = some (s.daemon, daemonLabel) ∧
        System.step toml s.daemon daemonLabel = some t.daemon := by
  cases label with
  | client clientLabel =>
      simp only [Link.step] at hstep
      split_ifs at hstep
      obtain ⟨_, _, rfl⟩ := Option.map_eq_some_iff.mp hstep
      exact Or.inl ⟨rfl, rfl⟩
  | daemon daemonLabel =>
      obtain ⟨daemon, hdaemon, rfl⟩ := Option.map_eq_some_iff.mp hstep
      exact Or.inr ⟨daemonLabel, rfl, hdaemon⟩
  | dispatch position unreadable =>
      obtain ⟨⟨daemon', connection'⟩, hdispatch, rfl⟩ := Option.map_eq_some_iff.mp hstep
      obtain ⟨worker, hworker, hdispatch⟩ := Option.bind_eq_some_iff.mp hdispatch
      simp only [systemStep, hworker, Option.bind_some]
      split at hdispatch
      · split at hdispatch
        · rename_i response haccept
          cases hdispatch
          rw [haccept]
          exact Or.inl ⟨rfl, rfl⟩
        · rename_i request haccept
          rw [haccept]
          dsimp only
          split at hdispatch
          · rename_i operation hoperation
            obtain ⟨later, hlater, hsome⟩ := Option.bind_eq_some_iff.mp hdispatch
            cases hsome
            rw [hoperation]
            exact Or.inr ⟨_, rfl, hlater⟩
          · rename_i hlists
            cases hdispatch
            rw [hlists]
            exact Or.inl ⟨rfl, rfl⟩
          · rename_i hpanicked
            cases hdispatch
            rw [hpanicked]
            exact Or.inl ⟨rfl, rfl⟩
      · cases hdispatch
  | lose item =>
      cases item with
      | text => cases hstep
      | _ =>
          obtain ⟨_, _, rfl⟩ := Option.map_eq_some_iff.mp hstep
          exact Or.inl ⟨rfl, rfl⟩
  | deliver | readText | writeEvent =>
      obtain ⟨_, _, hnext⟩ := Option.bind_eq_some_iff.mp hstep
      obtain ⟨_, _, rfl⟩ := Option.map_eq_some_iff.mp hnext
      exact Or.inl ⟨rfl, rfl⟩
  | _ =>
      obtain ⟨_, _, rfl⟩ := Option.map_eq_some_iff.mp hstep
      exact Or.inl ⟨rfl, rfl⟩

/-- The daemon of a link takes steps of its own. -/
theorem Run.system {daemon : System} (hrun : Link.Run toml daemon history s) :
    Trace (System.step toml) (connected daemon).daemon (systemHistory history) s.daemon := by
  induction hrun with
  | refl => exact .refl
  | @tail t u history label _ hstep ih =>
      have hlast : systemHistory (history ++ [(t, label)]) =
          systemHistory history ++ (t.systemStep label).toList := by
        rw [systemHistory, List.filterMap_append]
        cases hsystem : t.systemStep label <;> simp [systemHistory, hsystem]
      rw [hlast]
      rcases systemStep_spec hstep with ⟨hnone, hsame⟩ | ⟨daemonLabel, hsome, hdaemon⟩
      · rw [hsame, hnone, Option.toList_none, List.append_nil]
        exact ih
      · rw [hsome]
        exact ih.tail hdaemon

/-- The task of a dispatch is one the daemon was asked for. -/
theorem Carries.issued {position index : Nat} {request : Protocol.Request} {operation : Request}
    (h : Carries toml history position request (some index))
    (hoperation : Protocol.dispatchOperation request = .operation operation) :
    (index, operation) ∈ issuedIn (systemHistory history) := by
  rw [Carries, hoperation] at h
  obtain ⟨before, after, unreadable, hmem, hstep, htasks, hindex⟩ := h
  rw [Option.some.inj hindex]
  rcases systemStep_spec hstep with ⟨_, hsame⟩ | ⟨daemonLabel, hsome, hdaemon⟩
  · rw [hsame] at htasks
    have hlength := congrArg List.length htasks
    rw [List.length_append, List.length_singleton] at hlength
    omega
  · refine List.mem_filterMap.mpr ⟨(before.daemon, daemonLabel), ?_, ?_⟩
    · exact List.mem_filterMap.mpr ⟨_, hmem, hsome⟩
    · have hrequest : ∃ asked, daemonLabel = .request asked := by
        simp only [systemStep] at hsome
        obtain ⟨worker, _, hsome⟩ := Option.bind_eq_some_iff.mp hsome
        split at hsome
        · split at hsome
          · cases hsome
            exact ⟨_, rfl⟩
          · cases hsome
        · cases hsome
      obtain ⟨asked, rfl⟩ := hrequest
      rw [System.step] at hdaemon
      split_ifs at hdaemon
      have hnew : before.daemon.tasks ++ [asked.task] = before.daemon.tasks ++ [operation.task] := by
        rw [← htasks, ← Option.some.inj hdaemon]
      have htask : asked.task = operation.task := by simpa using hnew
      rw [Request.task_injective htask]

end

/-- The daemon's task of a call. -/
def RunsAs (s : Link) (index task : Nat) : Prop :=
  ∃ position worker call request, s.Executes position index worker call request ∧ worker.task = some task

/-- The request that a call sends under this id. -/
def requestOf (call : RemoteClient.Call) (id : String) : Protocol.Request :=
  { id, target := call.target, operation := call.operation }

/-- What the calls of a client have made of the configuration. -/
structure UpdatesOnce (s : Link) (log : List (Nat × Request)) : Prop where
  /-- A call runs as at most one task of the daemon, and that takes effect at most once. -/
  at_most : (∀ index task other, s.RunsAs index task → s.RunsAs index other → task = other) ∧
    (log.map Prod.fst).Nodup
  /-- A configuration call that returned with success is in effect. -/
  exactly : ∀ (index : Nat) (call : RemoteClient.Call) (id : Option String) (response : Protocol.Response)
    (operation : Request), s.client.calls[index]? = some call → call.pc = .returned id (.ok response) →
    Protocol.dispatchOperation (requestOf call (id.getD "")) = .operation operation →
    operation.configures = true → ∃ task, s.RunsAs index task ∧ (task, operation) ∈ log

end Link

/-- **Remote configuration calls are exactly once**: in every run of a client and the daemon over one
connection, the configuration is what the operations in effect give one after another; a call that
returned with success is in effect exactly once, and a call that did not at most once. -/
theorem remote_updates_exactly_once {toml : Toml} {config : DaemonConfig} {file : String}
    {past : List (System × Label)} {daemon : System} {history : List (Link × Link.Label)} {s : Link}
    (hparses : toml.ParsesBack) (hfile : DaemonConfig.parse toml file = .ok config)
    (hpast : System.Run toml config file past daemon) (hserving : daemon.serving = true)
    (hrun : Link.Run toml daemon history s) (hcalls : s.client.calls.length < 2 ^ 64) :
    ∃ whole log, System.Run toml config file whole s.daemon ∧
      Linearizable toml config whole s.daemon log ∧ s.UpdatesOnce log := by
  have hconnect : System.step toml daemon .subscribe = some (Link.connected daemon).daemon := if_pos hserving
  have hwhole : System.Run toml config file
      (past ++ [(daemon, .subscribe)] ++ Link.systemHistory history) s.daemon :=
    (hpast.tail hconnect).trans (Link.Run.system hrun)
  obtain ⟨log, hupdates⟩ := System.Run.updates hparses hfile hwhole
  have hlinearizable := hupdates.linearizable
  have hsound := (Link.Run.sound hrun hcalls).1
  refine ⟨_, log, hwhole, hlinearizable, ⟨?_, hlinearizable.sequential.once⟩, ?_⟩
  · rintro index task other ⟨left, first, call, request, hfirst, htask⟩
      ⟨right, second, _, asked, hsecond, hother⟩
    obtain rfl := Option.some.inj (hfirst.called.symm.trans hsecond.called)
    obtain rfl := hsound.one_place hfirst hsecond
    obtain rfl := Option.some.inj (hfirst.received.symm.trans hsecond.received)
    exact Option.some.inj (htask.symm.trans hother)
  · intro index call id response operation hcall hpc hoperation hconfigures
    obtain ⟨position, worker, request, result, found, serialization, hexecutes, hcarries, hreturned, _,
      hresult⟩ :=
      hsound.own_result hcalls hcall hpc trivial
    have hsame : Protocol.dispatchOperation request = .operation operation := by
      rw [← hoperation]
      rcases request with ⟨_, target, asked⟩
      obtain ⟨rfl, rfl, _⟩ := hexecutes.asks
      rfl
    cases result with
    | error error => cases hresult
    | ok reply =>
        cases htask : worker.task with
        | none =>
            rw [Link.Carries, hsame, htask] at hcarries
            obtain ⟨_, _, _, _, _, _, hnone⟩ := hcarries
            cases hnone
        | some task =>
            rw [htask] at hcarries hreturned
            obtain ⟨found, hfound, hdone⟩ := Option.map_eq_some_iff.mp (hreturned task rfl)
            refine ⟨task, ⟨position, worker, call, request, hexecutes, htask⟩, ?_⟩
            refine hlinearizable.succeeded task operation found reply ?_ hconfigures hfound hdone
            have hissued := hcarries.issued hsame
            obtain ⟨entry, hentry, hsome⟩ := List.mem_filterMap.mp hissued
            exact List.mem_filterMap.mpr ⟨entry, List.mem_append_right _ hentry, hsome⟩

/-- A client disables the running `tv`, and reads the first message and the response. -/
def remoteDisable : List Link.Label :=
  .client (.call (some "tv") .targetDisable) :: List.replicate 4 (.client (.turn 0)) ++
    [.post true, .readText, .dispatch 0 ""] ++ List.replicate 10 (.daemon (.task 2 .ok)) ++
    [.answer 0 (.ok .done) .null "", .sendResponse 0, .writeResponse, .deliver "", .deliver "",
      .client (.turn 0)]

theorem remote_updates_exactly_once_remoteDisable : ∃ past daemon history s whole log,
    System.Run tvToml tvNode tvNode.toText past daemon ∧ Link.Run tvToml daemon history s ∧
    history.map Prod.snd = remoteDisable ∧ s.client.calls.any Link.succeeded = true ∧
    s.daemon.inner.config = tvDisabledNode ∧ System.Run tvToml tvNode tvNode.toText whole s.daemon ∧
    Linearizable tvToml tvNode whole s.daemon log ∧ s.UpdatesOnce log := by
  have hchecks : ((runChecked (System.step tvToml) (fun _ _ => true)
      (System.initial tvNode tvNode.toText) startAttached).any fun daemon => daemon.serving &&
        (runChecked (Link.step tvToml) (fun _ _ => true) (.connected daemon) remoteDisable).any
          fun s => s.client.calls.length == 1 && s.client.calls.any Link.succeeded &&
            decide (s.daemon.inner.config = tvDisabledNode)) = true := by
    decide +kernel
  rw [Option.any_eq_true] at hchecks
  obtain ⟨daemon, hdaemon, hchecks⟩ := hchecks
  simp only [Bool.and_eq_true, Option.any_eq_true, beq_iff_eq, decide_eq_true_eq] at hchecks
  obtain ⟨hserving, s, hlink, ⟨hone, hsucceeded⟩, hdisabled⟩ := hchecks
  obtain ⟨past, hpast, _, _⟩ := exists_trace_of_runChecked hdaemon
  obtain ⟨history, hrun, hlabels, _⟩ := exists_trace_of_runChecked hlink
  have hcalls : s.client.calls.length < 2 ^ 64 := by
    rw [hone]
    decide
  obtain ⟨whole, log, hwhole, hlinearizable, honce⟩ :=
    remote_updates_exactly_once tvToml_parsesBack tvNode_parse hpast hserving hrun hcalls
  exact ⟨past, daemon, history, s, whole, log, hpast, hrun, hlabels, hsucceeded, hdisabled, hwhole,
    hlinearizable, honce⟩

end MpvTargets

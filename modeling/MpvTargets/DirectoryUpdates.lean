import MpvTargets.TargetDirectories

/-! The directories of the targets in the runs of the daemon: together with the configuration they are one
object that operations update one at a time. -/

namespace MpvTargets

/-- No other task is between its calls that move directories. -/
def System.StoresAlone (s : System) (index : Nat) : Prop :=
  ∀ (other : Nat) (task : Task), s.tasks[other]? = some task → task.pc.stores = true → other = index

theorem Task.holds_of_stores {task : Task} (h : task.pc.stores = true) : task.holdsMutations = true :=
  Task.holds_of_pc (Pc.holds_of_stores h)

theorem System.storesAlone_of_holds {s : System} {index : Nat} {task : Task} (h : s.Exclusive)
    (htask : s.tasks[index]? = some task) (hholds : task.holdsMutations = true) : s.StoresAlone index :=
  fun other waiting hwaiting hstores =>
    h other index waiting task hwaiting htask (Task.holds_of_stores hstores) hholds

/-- What a run has made of the directories: `log` has the operations in effect and `placed` what they give. A
task that moves directories has them where its await point says, and all others are in place. -/
structure Installation.Follows (toml : Toml) (host : Host) (config : DaemonConfig) (entries : TargetEntries)
    (history : List (Installation × Installation.Label)) (log : List (Nat × Issued)) (placed : TargetEntries)
    (s : Installation) : Prop where
  updates : s.daemon.Updates toml config (systemHistory history)
    (log.map fun entry => (entry.1, entry.2.request))
  linearizes : Linearization.Linearizes Issued.applied (config, entries) log (s.daemon.inner.config, placed)
  issued : ∀ entry ∈ log, entry ∈ issuesIn history
  arguments : ∀ index issued, (index, issued) ∈ issuesIn history → s.arguments index = issued.arguments
  stored : ∀ (index : Nat) (task : Task), s.daemon.tasks[index]? = some task → s.daemon.StoresAlone index →
    task.pc.Stored host (s.arguments index) placed s.entries

section

variable {toml : Toml} {host : Host} {config : DaemonConfig} {entries placed placed' after : TargetEntries}
  {history : List (Installation × Installation.Label)} {log : List (Nat × Issued)} {s t : Installation}
  {label : Installation.Label} {index : Nat} {task : Task} {external : External} {turn : Turn}

namespace Installation

theorem step_cases (h : s.step toml host label = some t) :
    (∃ index external task turn entries, label = .task index external ∧
      s.daemon.tasks[index]? = some task ∧ task.turn toml s.daemon.view external = some turn ∧
      host.call toml (s.arguments index) task.pc external s.entries = some entries ∧
      t = { s with daemon := s.daemon.apply toml index task turn, entries }) ∨
    (∃ issued, label = .request issued ∧
      t = { s with
        daemon := { s.daemon with tasks := s.daemon.tasks ++ [issued.request.task] }
        arguments := Function.update s.arguments s.daemon.tasks.length issued.arguments }) ∨
    (label = .subscribe ∧ ∃ subscribers, t = { s with daemon := { s.daemon with subscribers } }) := by
  obtain ⟨daemon, hdaemon, h⟩ := Option.bind_eq_some_iff.mp h
  cases label with
  | task index external =>
      obtain ⟨task, htask, h⟩ := Option.bind_eq_some_iff.mp h
      obtain ⟨entries, hcall, rfl⟩ := Option.map_eq_some_iff.mp h
      rcases System.step_cases hdaemon with
        ⟨_, _, found, turn, heq, _, hfound, hturn, rfl⟩ | ⟨_, heq, _⟩ | ⟨heq, _⟩
      · cases heq
        obtain rfl : task = found := Option.some.inj (htask.symm.trans hfound)
        exact Or.inl ⟨index, external, task, turn, entries, rfl, htask, hturn, hcall, rfl⟩
      · cases heq
      · cases heq
  | request issued =>
      cases h
      rcases System.step_cases hdaemon with ⟨_, _, _, _, heq, _⟩ | ⟨_, heq, _, rfl⟩ | ⟨heq, _⟩
      · cases heq
      · cases heq
        exact Or.inr (Or.inl ⟨issued, rfl, rfl⟩)
      · cases heq
  | subscribe =>
      cases h
      rcases System.step_cases hdaemon with ⟨_, _, _, _, heq, _⟩ | ⟨_, heq, _⟩ | ⟨_, _, rfl⟩
      · cases heq
      · cases heq
      · exact Or.inr (Or.inr ⟨rfl, _, rfl⟩)

/-- Without its directories it is the daemon. -/
theorem run_daemon {file : String} (h : Run toml host config file entries history s) :
    System.Run toml config file (systemHistory history) s.daemon := by
  have hstep : ∀ t label u, True → True → step toml host t label = some u →
      True ∧ System.step toml t.daemon label.daemon = some u.daemon := by
    intro t label u _ _ hstep
    refine ⟨trivial, ?_⟩
    obtain ⟨daemon, hdaemon, hrest⟩ := Option.bind_eq_some_iff.mp hstep
    rw [hdaemon]
    cases label with
    | task =>
        obtain ⟨_, _, hrest⟩ := Option.bind_eq_some_iff.mp hrest
        obtain ⟨_, _, rfl⟩ := Option.map_eq_some_iff.mp hrest
        rfl
    | request | subscribe =>
        cases hrest
        rfl
  exact Trace.refines daemon (fun _ label => label.daemon) trivial hstep h fun _ _ => trivial

theorem issuesIn_append_request {issued : Issued} : issuesIn (history ++ [(s, .request issued)]) =
    issuesIn history ++ [(s.daemon.tasks.length, issued)] := by
  rw [issuesIn, issuesIn, List.filterMap_append]
  rfl

theorem issuesIn_append_other (h : ∀ issued, label ≠ .request issued) :
    issuesIn (history ++ [(s, label)]) = issuesIn history := by
  rw [issuesIn, issuesIn, List.filterMap_append]
  cases label with
  | request issued => exact absurd rfl (h issued)
  | _ => simp

theorem mem_issuedIn_systemHistory {request : Request} :
    (index, request) ∈ issuedIn (systemHistory history) ↔
      ∃ issued, (index, issued) ∈ issuesIn history ∧ issued.request = request := by
  have hmap : issuedIn (systemHistory history) =
      (issuesIn history).map fun entry => (entry.1, entry.2.request) := by
    rw [issuedIn, systemHistory, issuesIn, List.filterMap_map, List.map_filterMap]
    congr 1
    funext entry
    rcases entry with ⟨s, label⟩
    cases label <;> rfl
  rw [hmap]
  simp [List.mem_map]

end Installation

namespace Installation.Follows

theorem initial {file : String} : (Installation.initial config file entries).Follows toml host config entries
    [] [] entries where
  updates := .initial toml config file
  linearizes := .nil _
  issued := by simp
  arguments := by simp [issuesIn]
  stored := by
    intro index task htask _
    rw [List.mem_singleton.mp (List.mem_of_getElem? htask)]
    exact .settled (fun _ _ _ => rfl) rfl

/-- The tasks after a step of one of them, when it has moved its directory as it should. -/
theorem stored_step (h : s.Follows toml host config entries history log placed)
    (hexclusive : s.daemon.Exclusive) (htask : s.daemon.tasks[index]? = some task)
    (hturn : task.turn toml s.daemon.view external = some turn)
    (hcall : host.call toml (s.arguments index) task.pc external s.entries = some after)
    (hself : s.daemon.StoresAlone index → turn.pc.Stored host (s.arguments index) placed' after)
    (hplaced : task.holdsMutations = false → placed' = placed) :
    ∀ (other : Nat) (found : Task), (s.daemon.apply toml index task turn).tasks[other]? = some found →
      (s.daemon.apply toml index task turn).StoresAlone other →
      found.pc.Stored host (s.arguments other) placed' after := by
  intro other found hfound hother
  rw [System.StoresAlone] at hother
  rw [System.apply_tasks] at hfound hother
  by_cases halone : s.daemon.StoresAlone index
  · have hstored := hself halone
    have hquiet : other ≠ index → AgreeBeside [] placed' after := by
      intro hne
      have hstores : turn.pc.stores = false := by
        rw [Bool.eq_false_iff]
        exact fun hstores => hne (hother index _ (TaskPool.getElem?_advance_self htask) hstores).symm
      rw [← Pc.moving_of_not_stores hstores]
      exact hstored.agree
    rcases TaskPool.getElem?_advance hfound with ⟨rfl, rfl⟩ | ⟨hne, hold⟩ | ⟨hge, hnew⟩
    · exact hstored
    · refine .settled (hquiet hne) (Pc.moving_of_not_stores ?_)
      rw [Bool.eq_false_iff]
      exact fun hstores => hne (halone other found hold hstores)
    · have hlt := (List.getElem?_eq_some_iff.mp htask).1
      refine .settled (hquiet (by omega)) ?_
      rcases Task.turn_spawned hturn hnew with ⟨_, rfl⟩ | ⟨_, _, _, _, _, rfl⟩ <;> rfl
  · simp only [System.StoresAlone, not_forall] at halone
    obtain ⟨holder, waiting, hwaiting, hstores, hne⟩ := halone
    have hholds : waiting.holdsMutations = true := Task.holds_of_stores hstores
    have hfree : task.holdsMutations = false := by
      rw [Bool.eq_false_iff]
      exact fun hself => hne (hexclusive holder index waiting task hwaiting htask hholds hself)
    have hnot : task.pc.stores = false := by
      rw [Bool.eq_false_iff]
      intro hstores
      rw [Task.holds_of_stores hstores] at hfree
      cases hfree
    have hsame : (TaskPool.advance s.daemon.tasks index ⟨task.origin, turn.pc, turn.callers⟩
        turn.spawned)[holder]? = some waiting := TaskPool.getElem?_advance_of_ne hne hwaiting
    obtain rfl := hother holder waiting hsame hstores
    obtain rfl : waiting = found := Option.some.inj (hsame.symm.trans hfound)
    rw [Host.call_of_not_stores hcall hnot, hplaced hfree]
    exact h.stored holder waiting hwaiting (System.storesAlone_of_holds hexclusive hwaiting hholds)

/-- What the new target is copied from is configured when its directory is made. -/
theorem source_mem (h : s.Follows toml host config entries history log placed) (hagrees : s.daemon.inner.Agrees)
    (htask : s.daemon.tasks[index]? = some task) {target : TargetConfig} (hpc : task.pc = .addPrepare target)
    {source : String} (hsource : source ∈ (s.arguments index).source) :
    source ∈ s.daemon.inner.targets.keys := by
  have hpending : task.pending = true := by
    rw [Task.pending, hpc]
    rfl
  by_cases hissued : ∃ request, (index, request) ∈ issuedIn (systemHistory history)
  · obtain ⟨request, hissued⟩ := hissued
    obtain ⟨found, hfound, hstands⟩ := h.updates.stands index request hissued
    obtain rfl : task = found := Option.some.inj (htask.symm.trans hfound)
    obtain ⟨issued, hmem, rfl⟩ := mem_issuedIn_systemHistory.mp hissued
    rw [h.arguments index issued hmem] at hsource
    cases hstands with
    | ahead hahead =>
        rw [hpc] at hahead
        rcases issued with ⟨request, startPaused, startMuted⟩
        cases request with
        | add name copied enabled =>
            obtain rfl : copied = some source := hsource
            obtain ⟨entry, hentry, _⟩ := Option.map_eq_some_iff.mp hahead.2
            exact hagrees.mem_keys_iff.mpr (DaemonConfig.mem_names_iff.mpr ⟨entry, hentry⟩)
        | _ => cases hsource
    | effective _ hnot | never _ hnot _ =>
        rw [hpending] at hnot
        cases hnot
  · rw [h.updates.others index task htask (not_exists.mp hissued)] at hpending
    cases hpending

theorem housed (h : s.Follows toml host config entries history log placed)
    (hstart : Housed (config, entries) (config, entries)) :
    Housed (config, entries) (s.daemon.inner.config, placed) :=
  h.linearizes.invariant hstart fun _ _ _ hhoused hstep => hhoused.applied hstep

/-- A step that takes no effect. -/
theorem silent (h : s.Follows toml host config entries history log placed)
    (hstart : Housed (config, entries) (config, entries)) (hadmits : s.daemon.Admits toml)
    (hvetted : ∀ task ∈ s.daemon.tasks, task.pc.Vetted) (htask : s.daemon.tasks[index]? = some task)
    (hturn : task.turn toml s.daemon.view external = some turn)
    (hcall : host.call toml (s.arguments index) task.pc external s.entries = some after)
    (hnot : task.takesEffect toml s.daemon.inner external = false)
    (hupdates : (s.daemon.apply toml index task turn).Updates toml config
      (systemHistory history ++ [(s.daemon, .task index external)])
      (log.map fun entry => (entry.1, entry.2.request))) :
    Follows toml host config entries (history ++ [(s, .task index external)]) log placed
      { s with daemon := s.daemon.apply toml index task turn, entries := after } := by
  have hmem := List.mem_of_getElem? htask
  have hagrees := hadmits.configured.agrees
  have hprepared := hadmits.configured.prepared task hmem
  have hsame : issuesIn (history ++ [(s, .task index external)]) = issuesIn history :=
    issuesIn_append_other fun _ heq => (by cases heq)
  refine ⟨?_, ?_, ?_, ?_, ?_⟩
  · rw [systemHistory, List.map_append]
    exact hupdates
  · have hconfig : (s.daemon.apply toml index task turn).inner.config = s.daemon.inner.config := by
      rw [System.apply_inner hturn]
      exact Task.config_of_not_takesEffect hagrees hprepared hnot
    rw [hconfig]
    exact h.linearizes
  · rw [hsame]
    exact h.issued
  · rw [hsame]
    exact h.arguments
  · refine h.stored_step hadmits.configured.exclusive htask hturn hcall (fun halone => ?_) fun _ => rfl
    exact Pc.Stored.turn_silent hturn hcall (h.stored index task htask halone) hnot hprepared
      (hvetted task hmem) hagrees (hadmits.removals task hmem).checked
      (fun name hname => (h.housed hstart).housed name (hagrees.mem_keys_iff.mp hname))
      fun target hpc source hsource => h.source_mem hagrees htask hpc hsource

/-- The step by which an operation takes effect. -/
theorem effective {issued : Issued} (h : s.Follows toml host config entries history log placed)
    (hexclusive : s.daemon.Exclusive) (htask : s.daemon.tasks[index]? = some task)
    (hturn : task.turn toml s.daemon.view external = some turn)
    (hcall : host.call toml (s.arguments index) task.pc external s.entries = some after)
    (hissued : (index, issued) ∈ issuesIn history)
    (hlog : index ∉ (log.map fun entry => (entry.1, entry.2.request)).map Prod.fst)
    (hahead : issued.request.Ahead s.daemon.inner.config task.pc task.callers)
    (heffect : task.takesEffect toml s.daemon.inner external = true)
    (hupdated : issued.request.updated s.daemon.inner.config =
      some (s.daemon.inner.after toml (task.pc.critical external)).config)
    (hupdates : (s.daemon.apply toml index task turn).Updates toml config
      (systemHistory history ++ [(s.daemon, .task index external)])
      ((log.map fun entry => (entry.1, entry.2.request)) ++ [(index, issued.request)])) :
    ∃ placed', Follows toml host config entries (history ++ [(s, .task index external)])
      (log ++ [(index, issued)]) placed'
      { s with daemon := s.daemon.apply toml index task turn, entries := after } := by
  have hsame : issuesIn (history ++ [(s, .task index external)]) = issuesIn history :=
    issuesIn_append_other fun _ heq => (by cases heq)
  have hholds : task.holdsMutations = true := Task.holds_of_takesEffect heffect
  have halone := System.storesAlone_of_holds hexclusive htask hholds
  obtain ⟨placed', hplaced, hstored⟩ :=
    Pc.Stored.turn_effect hturn hcall (h.stored index task htask halone) heffect hahead
  rw [h.arguments index issued hissued] at hplaced
  refine ⟨placed', ?_, ?_, ?_, ?_, ?_⟩
  · rw [systemHistory, List.map_append, List.map_append]
    exact hupdates
  · rw [System.apply_inner hturn]
    refine h.linearizes.append ?_ ?_
    · rwa [List.map_map] at hlog
    · rw [Issued.applied, hupdated, hplaced]
      rfl
  · rw [hsame]
    intro entry hentry
    rcases List.mem_append.mp hentry with hold | hnew
    · exact h.issued entry hold
    · rw [List.mem_singleton.mp hnew]
      exact hissued
  · rw [hsame]
    exact h.arguments
  · refine h.stored_step hexclusive htask hturn hcall (fun _ => hstored) fun hfree => ?_
    rw [hholds] at hfree
    cases hfree

theorem task_step (h : s.Follows toml host config entries history log placed)
    (hstart : Housed (config, entries) (config, entries)) (hadmits : s.daemon.Admits toml)
    (hvetted : ∀ task ∈ s.daemon.tasks, task.pc.Vetted) (htask : s.daemon.tasks[index]? = some task)
    (hturn : task.turn toml s.daemon.view external = some turn)
    (hcall : host.call toml (s.arguments index) task.pc external s.entries = some after) :
    ∃ log' placed', Follows toml host config entries (history ++ [(s, .task index external)]) log' placed'
      { s with daemon := s.daemon.apply toml index task turn, entries := after } := by
  rcases h.updates.task_step hadmits htask hturn with
    ⟨hnot, hupdates⟩ | ⟨request, hissued, hlog, hahead, heffect, hupdated, hupdates⟩
  · exact ⟨log, placed, h.silent hstart hadmits hvetted htask hturn hcall hnot hupdates⟩
  · obtain ⟨issued, hasked, rfl⟩ := mem_issuedIn_systemHistory.mp hissued
    exact ⟨_, h.effective hadmits.configured.exclusive htask hturn hcall hasked hlog hahead heffect hupdated
      hupdates⟩

/-- When no task moves directories they are those of the configuration. -/
theorem agree (h : s.Follows toml host config entries history log placed) {first : Task}
    (hfirst : s.daemon.tasks[0]? = some first) (hquiet : ∀ task ∈ s.daemon.tasks, task.pc.stores = false) :
    AgreeBeside [] placed s.entries := by
  have hstored := h.stored 0 first hfirst fun other task htask hstores => by
    rw [hquiet task (List.mem_of_getElem? htask)] at hstores
    cases hstores
  rw [← Pc.moving_of_not_stores (hquiet first (List.mem_of_getElem? hfirst))]
  exact hstored.agree

theorem request_step (h : s.Follows toml host config entries history log placed) {first : Task}
    (hfirst : s.daemon.tasks[0]? = some first) (issued : Issued) :
    Follows toml host config entries (history ++ [(s, .request issued)]) log placed
      { s with
        daemon := { s.daemon with tasks := s.daemon.tasks ++ [issued.request.task] }
        arguments := Function.update s.arguments s.daemon.tasks.length issued.arguments } := by
  have hhistory : systemHistory (history ++ [(s, .request issued)]) =
      systemHistory history ++ [(s.daemon, .request issued.request)] := List.map_append
  have hold : ∀ index < s.daemon.tasks.length,
      Function.update s.arguments s.daemon.tasks.length issued.arguments index = s.arguments index :=
    fun index hlt => Function.update_of_ne hlt.ne _ _
  refine ⟨?_, h.linearizes, ?_, ?_, ?_⟩
  · rw [hhistory]
    exact h.updates.request_step issued.request
  · intro entry hentry
    rw [issuesIn_append_request]
    exact List.mem_append_left _ (h.issued entry hentry)
  · intro index other hother
    rw [issuesIn_append_request, List.mem_append, List.mem_singleton] at hother
    rcases hother with hbefore | hnew
    · have hissued := mem_issuedIn_systemHistory.mpr ⟨other, hbefore, rfl⟩
      exact (hold index (h.updates.index_lt hissued)).trans (h.arguments index other hbefore)
    · cases hnew
      exact Function.update_self ..
  · intro index task htask halone
    have hothers : s.daemon.StoresAlone index := by
      intro other waiting hwaiting
      have hlt := (List.getElem?_eq_some_iff.mp hwaiting).1
      exact halone other waiting ((List.getElem?_append_left hlt).trans hwaiting)
    rcases Nat.lt_or_ge index s.daemon.tasks.length with hlt | hge
    · change task.pc.Stored host (Function.update s.arguments s.daemon.tasks.length issued.arguments index)
        placed s.entries
      rw [hold index hlt]
      exact h.stored index task ((List.getElem?_append_left hlt).symm.trans htask) hothers
    · have hagree : AgreeBeside [] placed s.entries := by
        refine h.agree hfirst fun waiting hmem => ?_
        rw [Bool.eq_false_iff]
        intro hstores
        obtain ⟨other, hwaiting⟩ := List.mem_iff_getElem?.mp hmem
        obtain rfl := hothers other waiting hwaiting hstores
        exact absurd (List.getElem?_eq_some_iff.mp hwaiting).1 (Nat.not_lt.mpr hge)
      have hmem : task ∈ [issued.request.task] := by
        rw [List.getElem?_append_right hge] at htask
        exact List.mem_of_getElem? htask
      rw [List.mem_singleton.mp hmem]
      refine .settled hagree ?_
      cases issued.request <;> rfl

theorem subscribe_step (h : s.Follows toml host config entries history log placed)
    (subscribers : List Subscriber) :
    Follows toml host config entries (history ++ [(s, .subscribe)]) log placed
      { s with daemon := { s.daemon with subscribers } } := by
  have hsame : issuesIn (history ++ [(s, .subscribe)]) = issuesIn history :=
    issuesIn_append_other fun _ heq => (by cases heq)
  have hhistory : systemHistory (history ++ [(s, .subscribe)]) =
      systemHistory history ++ [(s.daemon, .subscribe)] := List.map_append
  refine ⟨?_, h.linearizes, ?_, ?_, h.stored⟩
  · rw [hhistory]
    exact h.updates.subscribe_step subscribers
  · rw [hsame]
    exact h.issued
  · rw [hsame]
    exact h.arguments

theorem step (h : s.Follows toml host config entries history log placed)
    (hstart : Housed (config, entries) (config, entries)) (hadmits : s.daemon.Admits toml)
    (hvetted : ∀ task ∈ s.daemon.tasks, task.pc.Vetted) {first : Task}
    (hfirst : s.daemon.tasks[0]? = some first) (hstep : s.step toml host label = some t) :
    ∃ log' placed', t.Follows toml host config entries (history ++ [(s, label)]) log' placed' := by
  rcases Installation.step_cases hstep with
    ⟨index, external, task, turn, after, rfl, htask, hturn, hcall, rfl⟩ | ⟨issued, rfl, rfl⟩ |
      ⟨rfl, subscribers, rfl⟩
  · exact h.task_step hstart hadmits hvetted htask hturn hcall
  · exact ⟨log, placed, h.request_step hfirst issued⟩
  · exact ⟨log, placed, h.subscribe_step subscribers⟩

end Installation.Follows

theorem Housed.start (hnodup : config.names.Nodup)
    (hhoused : ∀ name ∈ config.names, (entries.get? name).isSome = true) :
    Housed (config, entries) (config, entries) :=
  ⟨hnodup, hhoused, fun _ hname => Or.inr ⟨hname, rfl⟩⟩

theorem Installation.Run.follows {file : String} (hparses : toml.ParsesBack)
    (hconfig : DaemonConfig.parse toml file = .ok config)
    (hhoused : ∀ name ∈ config.names, (entries.get? name).isSome = true)
    (hrun : Installation.Run toml host config file entries history s)
    (haccepted : ∀ entry ∈ history, entry.2.daemon.Accepted) :
    ∃ log placed, s.Follows toml host config entries history log placed ∧
      Housed (config, entries) (s.daemon.inner.config, placed) := by
  have hstart : Housed (config, entries) (config, entries) :=
    .start (names_nodup_of_validate (validate_of_parse hconfig)) hhoused
  suffices hfollows : ∃ log placed, s.Follows toml host config entries history log placed by
    obtain ⟨log, placed, hfollows⟩ := hfollows
    exact ⟨log, placed, hfollows, hfollows.housed hstart⟩
  induction hrun with
  | refl => exact ⟨[], entries, .initial⟩
  | @tail t u history label hrun hstep ih =>
      obtain ⟨log, placed, hfollows⟩ := ih fun entry hentry => haccepted entry (List.mem_append_left _ hentry)
      have hdaemon := Installation.run_daemon hrun
      have hvetted := hdaemon.vetted hparses hconfig fun entry hentry => by
        obtain ⟨before, hbefore, rfl⟩ := List.mem_map.mp hentry
        exact haccepted before (List.mem_append_left _ hbefore)
      obtain ⟨first, others, _, hstarted⟩ := hdaemon.started.1
      have hfirst : t.daemon.tasks[0]? = some first := by
        rw [hstarted.tasks]
        rfl
      exact hfollows.step hstart (System.Run.admits hparses hconfig hdaemon).1 hvetted hfirst hstep

end

/-- What a run makes of the directories: `log` has the operations in effect, `placed` the directories they
give. -/
structure DirectoriesLinearizable (toml : Toml) (host : Host) (config : DaemonConfig) (entries : TargetEntries)
    (history : List (Installation × Installation.Label)) (s : Installation) (log : List (Nat × Issued))
    (placed : TargetEntries) : Prop where
  /-- Carried out alone, one after another, these operations give the configuration and the directories, -/
  sequential : Linearization.Linearizes Issued.applied (config, entries) log (s.daemon.inner.config, placed)
  /-- in the order of their effects on the configuration; every successful one is among them, -/
  linearizable : Linearizable toml config (Installation.systemHistory history) s.daemon
    (log.map fun entry => (entry.1, entry.2.request))
  /-- and nothing that was not asked for. -/
  issued : ∀ entry ∈ log, entry ∈ Installation.issuesIn history
  /-- At every moment the directory of a target is where these operations have put it, -/
  settled : ∀ name, validateTargetName name = .ok () → (∀ task ∈ s.daemon.tasks, name ∉ task.pc.moving) →
    s.entries.get? name = placed.get? name
  /-- unless an operation is moving it: then it is where its await point says. -/
  moved : ∀ (index : Nat) (task : Task), s.daemon.tasks[index]? = some task →
    task.pc.Moved host (s.arguments index) placed s.entries
  /-- Every configured target has its directory, -/
  housed : ∀ name ∈ s.daemon.inner.config.names, (placed.get? name).isSome = true
  /-- and no other directory is left behind: it was there at the start, and is as it was. -/
  strangers : ∀ name ∉ s.daemon.inner.config.names, placed.get? name = none ∨
    (name ∉ config.names ∧ placed.get? name = entries.get? name)

theorem Installation.Follows.linearizable {toml : Toml} {host : Host} {config : DaemonConfig}
    {entries placed : TargetEntries} {history : List (Installation × Installation.Label)}
    {log : List (Nat × Issued)} {s : Installation}
    (h : s.Follows toml host config entries history log placed)
    (hhoused : Housed (config, entries) (s.daemon.inner.config, placed))
    (hexclusive : s.daemon.Exclusive) {first : Task} (hfirst : s.daemon.tasks[0]? = some first) :
    DirectoriesLinearizable toml host config entries history s log placed := by
  have halone : ∀ (index : Nat) (task : Task), s.daemon.tasks[index]? = some task → task.pc.stores = true →
      task.pc.Stored host (s.arguments index) placed s.entries := fun index task htask hstores =>
    h.stored index task htask
      (System.storesAlone_of_holds hexclusive htask (Task.holds_of_stores hstores))
  refine ⟨h.linearizes, h.updates.linearizable, h.issued, fun name hvalid hmoving => ?_,
    fun index task htask => ?_, hhoused.housed, hhoused.strangers⟩
  · by_cases hquiet : ∀ task ∈ s.daemon.tasks, task.pc.stores = false
    · exact h.agree hfirst hquiet name hvalid List.not_mem_nil
    · push Not at hquiet
      obtain ⟨task, hmem, hstores⟩ := hquiet
      obtain ⟨index, htask⟩ := List.mem_iff_getElem?.mp hmem
      exact (halone index task htask (by simpa using hstores)).agree name hvalid (hmoving task hmem)
  · cases hstores : task.pc.stores with
    | true => exact (halone index task htask hstores).moved
    | false => exact Pc.moved_of_not_moving (Pc.moving_of_not_stores hstores)

end MpvTargets

import MpvTargets.Scenario
import MpvTargets.TaskShapes

/-! Observers of earlier connections. An observer acts on whatever connection its name has; where a new
connection begins only once the observers of the earlier ones are through, it acts on its own alone. -/

namespace MpvTargets

/-- Where an observer may still act on the target of this name: everywhere before the last send. -/
def Pc.watches (name : String) : Pc → Bool
  | observeConnect observed | observeRead observed | updateObserved observed _ _ => observed = name
  | updateMediaEnd observed _ _ | clearMediaEnd observed | mediaEndSend observed => observed = name
  | targetLost observed => observed = name
  | clearObserved observed clearing => observed = name ∧ clearing.loses = true
  | _ => false

/-- The section turns the name online, or renames an online target to it. -/
def CriticalSection.connects (name : String) (inner : Inner) : CriticalSection → Bool
  | onTarget other .markOnline =>
      other = name && (inner.targets.get? name).any fun target => !target.online
  | renameCommit _ old replacement =>
      replacement = name && (inner.targets.get? old).any RuntimeTarget.online
  | _ => false

/-- A connection of the name begins while an observer of an earlier one may still act. -/
def System.reconnects (name : String) (s : System) : Label → Bool
  | .task index external =>
      ((s.tasks[index]?).any fun task =>
        (task.pc.critical external).any (CriticalSection.connects name s.inner)) &&
      s.tasks.any fun task => task.pc.watches name
  | _ => false

section

variable {toml : Toml} {view : View} {task : Task} {external : External} {turn : Turn} {name : String}

/-- Where an observer may act it might have acted before. -/
theorem Pc.Leads.watches_before {pc pc' : Pc} (h : pc.Leads toml view external pc')
    (hpc : pc'.watches name = true) : pc.watches name = true := by
  cases h with
  | next hnext =>
      cases hnext with
      | targetLost => simpa [Pc.watches, Clearing.loses] using hpc
      | _ => first | exact hpc | cases hpc | simp [Pc.watches, Clearing.loses] at hpc
  | call hcalls => cases hcalls <;> cases hpc
  | resume hresumes => cases pc' <;> first | cases hpc | cases hresumes
  | panic => cases hpc

/-- An observer that can no longer act has its last send to do, or nothing. -/
theorem Pc.sends_of_observes {pc : Pc} (hobserves : pc.observes name = true)
    (hwatches : pc.watches name = false) :
    (∃ clearing, pc = .clearObservedSend name clearing ∧ clearing.loses = true) ∨
      ∃ result, pc = .done result := by
  cases pc <;> simp_all [Pc.observes, Pc.watches]

/-- Only these sections turn a name online. -/
theorem CriticalSection.connects_of_online {inner : Inner} {critical : CriticalSection}
    (hbefore : System.online inner name = false)
    (hafter : System.online (critical.run toml inner).inner name = true) :
    critical.connects name inner = true := by
  simp only [System.online] at hbefore hafter
  cases critical with
  | onTarget other op =>
      rw [run, Inner.get?_onTarget] at hafter
      split_ifs at hafter with hname
      · subst hname
        cases htarget : inner.targets.get? name with
        | none => simp [htarget] at hafter
        | some target =>
            rw [htarget, Option.any_some] at hbefore
            rw [htarget, Option.map_some, Option.any_some, op.run_online, hbefore] at hafter
            cases op <;> simp_all [connects]
      · rw [hbefore] at hafter
        cases hafter
  | persistTargetChange other change external =>
      rw [run] at hafter
      rcases persistTargetChange_cases toml external other change inner with
        ⟨_, he⟩ | ⟨_, _, _, _, _, _, _, ⟨_, he⟩ | ⟨target, htarget, he⟩⟩
      · rw [he] at hafter
        exact absurd (hbefore.symm.trans hafter) Bool.false_ne_true
      · rw [he] at hafter
        exact absurd (hbefore.symm.trans hafter) Bool.false_ne_true
      · rw [he, OrderedMap.get?_insert] at hafter
        split_ifs at hafter with hname
        · rw [hname, htarget, Option.any_some] at hbefore
          exact absurd (hbefore.symm.trans hafter) Bool.false_ne_true
        · exact absurd (hbefore.symm.trans hafter) Bool.false_ne_true
  | addCommit candidate target =>
      rw [run, MpvTargets.addCommit, OrderedMap.get?_insert] at hafter
      split_ifs at hafter
      · cases hafter
      · exact absurd (hbefore.symm.trans hafter) Bool.false_ne_true
  | removeCommit candidate removed =>
      rw [run, MpvTargets.removeCommit, OrderedMap.get?_erase] at hafter
      split_ifs at hafter
      · cases hafter
      · exact absurd (hbefore.symm.trans hafter) Bool.false_ne_true
  | renameCommit candidate old replacement =>
      rw [run, MpvTargets.renameCommit] at hafter
      split at hafter
      · exact absurd (hbefore.symm.trans hafter) Bool.false_ne_true
      · rename_i target htarget
        rw [OrderedMap.get?_insert, OrderedMap.get?_erase] at hafter
        split_ifs at hafter with hname hold
        · have honline : target.online = true := hafter
          simp [connects, hname, htarget, honline]
        · cases hafter
        · exact absurd (hbefore.symm.trans hafter) Bool.false_ne_true

end

/-- Every observer that may still act belongs to the latest connection of its name. -/
structure System.Current (name : String) (s : System) : Prop where
  shaped : s.Shaped
  latest : ∀ task ∈ s.tasks, ∀ connection, task.origin = .observer connection →
    task.pc.watches name = true → connection = s.connections name

namespace System.Current

variable {toml : Toml} {s s' : System} {name : String} {label : Label}

theorem initial (name : String) (config : DaemonConfig) (file : String) :
    (System.initial config file).Current name where
  shaped := System.shaped_initial config file
  latest := by
    intro task htask connection horigin
    rw [List.mem_singleton.mp htask] at horigin
    cases horigin

theorem step (h : s.Current name) (hreconnects : s.reconnects name label = false)
    (hstep : System.step toml s label = some s') : s'.Current name := by
  refine ⟨h.shaped.step hstep, ?_⟩
  rcases step_cases hstep with
    ⟨index, external, task, turn, rfl, _, htask, hturn, rfl⟩ | ⟨request, rfl, _, rfl⟩ | ⟨rfl, _, rfl⟩
  · rw [apply_connections hturn]
    by_cases hnew : (!online s.inner name &&
        online (s.inner.after toml (task.pc.critical external)) name) = true
    · -- a connection begins: no observer of an earlier one may act any more
      have hnone : ∀ other ∈ s.tasks, other.pc.watches name = false := by
        intro other hother
        rw [Bool.eq_false_iff]
        intro hwatches
        have hany : (s.tasks.any fun task => task.pc.watches name) = true :=
          List.any_eq_true.mpr ⟨other, hother, hwatches⟩
        rw [Bool.and_eq_true, Bool.not_eq_true'] at hnew
        cases hcritical : task.pc.critical external with
        | none =>
            rw [hcritical] at hnew
            exact absurd (hnew.1.symm.trans hnew.2) Bool.false_ne_true
        | some critical =>
            rw [hcritical] at hnew
            have hconnects := CriticalSection.connects_of_online hnew.1 hnew.2
            simp [reconnects, htask, hcritical, hconnects, hany] at hreconnects
      simp only [countConnections, hnew, if_true]
      refine TaskPool.forall_advance ?_ ?_ ?_
      · intro connection _ hwatches
        have hbefore := (Task.turn_leads hturn).pc.watches_before hwatches
        rw [hnone task (List.mem_of_getElem? htask)] at hbefore
        cases hbefore
      · intro _ other _ hother connection _ hwatches
        rw [hnone other (List.mem_of_getElem? hother)] at hwatches
        cases hwatches
      · intro other hother connection horigin hwatches
        rcases Task.turn_spawned hturn hother with ⟨_, rfl⟩ | ⟨observed, _, _, _, _, rfl⟩
        · cases horigin
        · cases horigin
          obtain rfl : observed = name := by simpa [observerTask, Pc.watches] using hwatches
          rfl
    · simp only [countConnections, hnew]
      refine TaskPool.forall_advance ?_ ?_ ?_
      · intro connection horigin hwatches
        exact h.latest task (List.mem_of_getElem? htask) connection horigin
          ((Task.turn_leads hturn).pc.watches_before hwatches)
      · intro _ other _ hother connection horigin hwatches
        exact h.latest other (List.mem_of_getElem? hother) connection horigin hwatches
      · intro other hother connection horigin hwatches
        rcases Task.turn_spawned hturn hother with
          ⟨_, rfl⟩ | ⟨observed, target, hcritical, htarget, hoffline, rfl⟩
        · cases horigin
        · obtain rfl : observed = name := by simpa [observerTask, Pc.watches] using hwatches
          refine absurd ?_ hnew
          rw [hcritical, Inner.after, CriticalSection.run, online, online, Inner.get?_onTarget,
            if_pos rfl, show s.inner.targets.get? observed = some target from htarget]
          simp [hoffline, TargetOp.run_online]
  · intro task htask connection horigin hwatches
    rcases List.mem_append.mp htask with hold | hnew
    · exact h.latest task hold connection horigin hwatches
    · rw [List.mem_singleton.mp hnew] at horigin
      cases request <;> cases horigin
  · exact h.latest

end System.Current

def Task.isObserver (task : Task) : Bool :=
  match task.origin with
  | .observer _ => true
  | _ => false

/-- The observers of a system, of all names and connections. -/
def System.observers (s : System) : Nat := s.tasks.countP Task.isObserver

/-- A step that turns nothing online starts no observer. -/
theorem System.observers_apply {toml : Toml} {s : System} {index : Nat} {task : Task}
    {external : External} {turn : Turn} (htask : s.tasks[index]? = some task)
    (hturn : task.turn toml s.view external = some turn) (hcritical : task.pc.critical external = none) :
    (s.apply toml index task turn).observers = s.observers := by
  have hspawned : turn.spawned.countP Task.isObserver = 0 := by
    refine List.countP_eq_zero.mpr fun other hother => ?_
    rcases Task.turn_spawned hturn hother with ⟨_, rfl⟩ | ⟨_, _, honline, _, _, _⟩
    · exact Bool.false_ne_true
    · rw [hcritical] at honline
      cases honline
  have hself : Task.isObserver ⟨task.origin, turn.pc, turn.callers⟩ = task.isObserver := rfl
  rw [observers, System.apply_tasks, TaskPool.countP_advance htask hself, hspawned]
  rfl

/-- **A stale connection never damages a newer one** in a run in which connections begin only once the
observers of earlier ones are through: what an observer does after a later connection of its name has
begun changes nothing in the shared state and starts no observer. -/
theorem stale_connection_harmless {toml : Toml} {config : DaemonConfig} {file name : String}
    {history : List (System × Label)} {t s : System} {index connection : Nat} {task : Task}
    {external : External} (hrun : System.Run toml config file history t)
    (hreconnects : ∀ entry ∈ history, entry.1.reconnects name entry.2 = false)
    (htask : t.tasks[index]? = some task) (horigin : task.origin = .observer connection)
    (hname : task.pc.observes name = true) (hstale : connection < t.connections name)
    (hstep : System.step toml t (.task index external) = some s) :
    s.inner = t.inner ∧ s.observers = t.observers := by
  have hstart := System.Current.initial name config file
  have hkept : ∀ t label u, System.Current name t → t.reconnects name label = false →
      System.step toml t label = some u → System.Current name u :=
    fun t label u ht hlabel hu => ht.step hlabel hu
  have hcurrent := Trace.invariant hstart hkept hrun hreconnects
  have hmem := List.mem_of_getElem? htask
  have hwatches : task.pc.watches name = false := by
    rw [Bool.eq_false_iff]
    intro hwatches
    have hlatest := hcurrent.latest task hmem connection horigin hwatches
    omega
  rcases System.step_cases hstep with
    ⟨_, _, stepped, turn, hlabel, _, hstepped, hturn, rfl⟩ | ⟨_, hlabel, _, _⟩ | ⟨hlabel, _, _⟩
  · cases hlabel
    cases htask.symm.trans hstepped
    rcases Pc.sends_of_observes hname hwatches with ⟨_, hpc, _⟩ | ⟨_, hpc⟩
    · have hcritical : task.pc.critical external = none := by
        rw [hpc]
        rfl
      rw [System.apply_inner hturn, hcritical]
      exact ⟨rfl, System.observers_apply htask hturn hcritical⟩
    · rw [Task.turn, hpc] at hturn
      cases hturn
  · cases hlabel
  · cases hlabel

/-- mpv reports a property and exits; its observer clears what it observed and has one event to send. -/
def lostWithPendingClear : List Label :=
  startAttached ++ [.task 1 .ok, .task 1 (muteLine true), .task 1 .ok, .task 1 unavailable, .task 1 .ok,
    .task 1 .ok]

/-- A `start` that attaches to a running mpv, as task 2. -/
def attach : List Label := .request (.start "tv") :: List.replicate 4 (.task 2 .ok)

/-- That event is sent after the next connection has begun. -/
theorem stale_connection_harmless_late_send :
    ∃ history t s, System.Run tvToml tvNode tvNode.toText history t ∧
      history.map Prod.snd = lostWithPendingClear ++ attach ∧
      System.step tvToml t (.task 1 .ok) = some s ∧ t.connections "tv" = 2 ∧
      System.online t.inner "tv" = true ∧ s.inner = t.inner ∧ s.observers = t.observers := by
  have hlabels : (runChecked (System.step tvToml) (fun s label => !s.reconnects "tv" label)
      (System.initial tvNode tvNode.toText) (lostWithPendingClear ++ attach)).any
        (fun t => t.connections "tv" = 2 && System.online t.inner "tv" &&
          ((t.tasks[1]?).any fun task => task.origin = .observer 1 && task.pc.observes "tv") &&
          (System.step tvToml t (.task 1 .ok)).isSome) = true := by
    decide +kernel
  obtain ⟨history, t, hrun, hlabels, hchecks, hresult⟩ := System.exists_run hlabels
  simp only [Bool.and_eq_true, Bool.not_eq_true', Option.any_eq_true, decide_eq_true_eq,
    Option.isSome_iff_exists] at hchecks hresult
  obtain ⟨⟨⟨hsecond, honline⟩, task, htask, horigin, hname⟩, s, hstep⟩ := hresult
  refine ⟨history, t, s, hrun, hlabels, hstep, hsecond, honline, ?_⟩
  exact stale_connection_harmless hrun hchecks htask horigin hname (by omega) hstep

/-- An observer that sees the end of its mpv only after a stop and a new start marks the new connection
offline. -/
theorem stale_connection_marks_offline :
    ∃ history t s, System.Run tvToml tvNode tvNode.toText history t ∧
      history.map Prod.snd = startAttached ++ .task 1 .ok :: stopRunning ++
        .request (.start "tv") :: List.replicate 4 (.task 3 .ok) ++ [.task 1 unavailable] ∧
      System.step tvToml t (.task 1 .ok) = some s ∧
      (t.tasks[1]?).map Task.origin = some (.observer 1) ∧ t.connections "tv" = 2 ∧
      System.online t.inner "tv" = true ∧ System.online s.inner "tv" = false := by
  have hlabels : (runChecked (System.step tvToml) (fun _ _ => true)
      (System.initial tvNode tvNode.toText) (startAttached ++ .task 1 .ok :: stopRunning ++
        .request (.start "tv") :: List.replicate 4 (.task 3 .ok) ++ [.task 1 unavailable])).any
        (fun t => (t.tasks[1]?).map Task.origin = some (.observer 1) && t.connections "tv" = 2 &&
          System.online t.inner "tv" && (System.step tvToml t (.task 1 .ok)).any fun s =>
            !System.online s.inner "tv") = true := by
    decide +kernel
  obtain ⟨history, t, hrun, hlabels, _, hresult⟩ := System.exists_run hlabels
  simp only [Bool.and_eq_true, Bool.not_eq_true', Option.any_eq_true, decide_eq_true_eq] at hresult
  obtain ⟨⟨⟨horigin, hsecond⟩, honline⟩, s, hstep, hoffline⟩ := hresult
  exact ⟨history, t, s, hrun, hlabels, hstep, horigin, hsecond, honline, hoffline⟩

end MpvTargets

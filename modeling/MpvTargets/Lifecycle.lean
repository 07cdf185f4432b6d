import MpvTargets.OperationOutcomes

/-! The documented lifecycle of a target as a machine of its own, and that the supervisor follows it when
operations run one at a time and mpv obeys. `launching`, `recovering` and the recovery loops left over
from earlier failures are not part of the machine: they never show in it. -/

namespace MpvTargets

structure Lifecycle where
  disabled : Bool
  stopped : Bool
  online : Bool
  deriving DecidableEq, Repr

/-- The operations on a target, the exit of its mpv, and a recovery loop that wakes up. -/
inductive LifecycleEvent where
  | add (enable : Bool)
  | start
  | stop
  | restart
  | enable
  | disable
  | exit
  | wake
  deriving DecidableEq, Repr

namespace Lifecycle

/-- An enabled target after a launch. -/
def launched (ok : Bool) : Lifecycle := ⟨false, false, ok⟩

/-- A disabled target refuses, a running one is left running. -/
def start (target : Lifecycle) (ok : Bool) : Option Lifecycle :=
  if target.disabled then if ok then none else some target
  else if target.online && !ok then none
  else some (launched ok)

/-- What an event makes of a target, with `ok` whether it succeeds; `none` when it cannot end so. -/
def next (target : Lifecycle) (event : LifecycleEvent) (ok : Bool) : Option Lifecycle :=
  match event with
  | .add _ => if ok then none else some target
  | .start => target.start ok
  | .stop =>
      if target.stopped then if ok then none else some target
      else if ok then some { target with stopped := true, online := false }
      else none
  | .restart =>
      if target.disabled then if ok then some ⟨true, true, false⟩ else none
      else some (launched ok)
  | .enable => some { target with disabled := target.disabled && !ok }
  | .disable => some ⟨target.disabled || ok, true, false⟩
  | .exit => some { target with online := false }
  | .wake => if target.disabled || target.stopped then some target else target.start ok

/-- The same for a name without a target, which only `add` changes. -/
def appears (event : LifecycleEvent) (ok : Bool) : Option (Option Lifecycle) :=
  match event with
  | .add enable => some (if ok then some ⟨!enable, true, false⟩ else none)
  | .exit | .wake => some none
  | _ => if ok then none else some none

/-- The machine of one name; without an event nothing happens to it. -/
def step (state : Option Lifecycle) (label : Option (LifecycleEvent × Bool)) :
    Option (Option Lifecycle) :=
  match label with
  | none => some state
  | some (event, ok) =>
      match state with
      | none => appears event ok
      | some target => (target.next event ok).map some

end Lifecycle

def RuntimeTarget.lifecycle (target : RuntimeTarget) : Lifecycle where
  disabled := target.config.disabled
  stopped := target.stopped
  online := target.online

def Inner.lifecycle (inner : Inner) (name : String) : Option Lifecycle :=
  (inner.targets.get? name).map RuntimeTarget.lifecycle

def Request.lifecycleEvent : Request → Option (String × LifecycleEvent)
  | add name _ enabled => some (name, .add enabled)
  | start name => some (name, .start)
  | stop name => some (name, .stop)
  | restart name => some (name, .restart)
  | enable name => some (name, .enable)
  | disable name => some (name, .disable)
  | _ => none

/-- What it is for a resting task to go on: an observer hears from its mpv, a recovery loop wakes up. -/
def Pc.lifecycleEvent : Pc → Option (String × LifecycleEvent)
  | observeConnect name | observeRead name => some (name, .exit)
  | recoverCheck name _ => some (name, .wake)
  | _ => none

def Episode.lifecycleEvent (s : System) : Episode → Option (String × LifecycleEvent)
  | operation request _ => request.lifecycleEvent
  | resume index _ _ => (s.tasks[index]?).bind fun task => task.pc.lifecycleEvent

/-- The operations of the machine; tasks may go on as they like. -/
def Episode.inLifecycle : Episode → Bool
  | operation request _ => request.lifecycleEvent.isSome
  | resume _ _ _ => true

/-- The task at `index` has ended without an error. -/
def System.succeeded (index : Nat) (s : System) : Bool :=
  (s.tasks[index]?).any fun task => task.pc.returned? = some true

/-- What an episode is to this name. mpv has exited when its observer ends. -/
def System.lifecycleLabel (toml : Toml) (name : String) (s : System) (episode : Episode) :
    Option (LifecycleEvent × Bool) :=
  let ok := (s.play toml quitObeyed episode).any (System.succeeded (episode.index s))
  (episode.lifecycleEvent s).bind fun (target, event) =>
    if target = name ∧ (event = .exit → ok = true) then some (event, ok) else none

/-- A target between two operations: no launch is under way, and what is stopped is offline. -/
structure RuntimeTarget.Calm (target : RuntimeTarget) : Prop where
  launching : target.launching = false
  offline : target.stopped = true → target.online = false
  stopped : target.config.disabled = true → target.stopped = true

/-- The target has followed the machine, and the others are as before. -/
structure Inner.Follows (before : Inner) (name : String) (label : Option (LifecycleEvent × Bool))
    (now : Inner) : Prop where
  step : Lifecycle.step (before.lifecycle name) label = some (now.lifecycle name)
  calm : ∀ target, now.targets.get? name = some target → target.Calm
  others : ∀ other, other ≠ name → now.targets.get? other = before.targets.get? other

/-- The target has followed the machine by this event, which has succeeded or not as the task has. -/
abbrev Inner.Ends (before : Inner) (name : String) (event : LifecycleEvent) (now : Inner) (task : Task) :
    Prop :=
  before.Follows name (some (event, decide (task.pc.returned? = some true))) now

section

variable {toml : Toml} {inner : Inner} {name : String} {target : RuntimeTarget}

/-- The operation leaves another record of its target. -/
theorem Inner.Follows.of_put (config : DaemonConfig) {event : LifecycleEvent} {ok : Bool}
    {after : RuntimeTarget} (htarget : inner.targets.get? name = some target) (hcalm : after.Calm)
    (hnext : target.lifecycle.next event ok = some after.lifecycle) :
    inner.Follows name (some (event, ok)) (Inner.put { inner with config := config } name after) where
  step := by
    rw [Inner.lifecycle, htarget, Inner.lifecycle, Inner.get?_put_self]
    exact congrArg (Option.map some) hnext
  calm := by
    intro found hfound
    rw [Inner.get?_put_self] at hfound
    cases hfound
    exact hcalm
  others := fun other hother => by rw [Inner.get?_put, if_neg hother]

/-- What the operations do to the flags keeps a target calm. -/
theorem RuntimeTarget.Calm.becomes {stopped online : Bool} {after : RuntimeTarget} (h : target.Calm)
    (hbecomes : target.Becomes stopped online after) (hoffline : stopped = true → online = false)
    (hstopped : target.config.disabled = true → stopped = true) : after.Calm where
  launching := hbecomes.launching h.launching
  offline := by rwa [hbecomes.stopped, hbecomes.online]
  stopped := by rwa [hbecomes.config, hbecomes.stopped]

theorem RuntimeTarget.Becomes.lifecycle {stopped online : Bool} {after : RuntimeTarget}
    (h : target.Becomes stopped online after) :
    after.lifecycle = ⟨target.config.disabled, stopped, online⟩ := by
  rw [RuntimeTarget.lifecycle, h.config, h.stopped, h.online]

/-- An operation that leaves its target as it is. -/
theorem Inner.Follows.unchanged {event : LifecycleEvent} {ok : Bool}
    (htarget : inner.targets.get? name = some target) (hcalm : target.Calm)
    (hnext : target.lifecycle.next event ok = some target.lifecycle) :
    inner.Follows name (some (event, ok)) inner := by
  have h := Inner.Follows.of_put inner.config htarget hcalm hnext
  rwa [Inner.put_eq_self htarget] at h

/-- An event on a name without a target. -/
theorem Inner.Follows.unknown {event : LifecycleEvent} {ok : Bool} (hnone : inner.targets.get? name = none)
    (hstep : Lifecycle.appears event ok = some none) : inner.Follows name (some (event, ok)) inner where
  step := by
    rw [Inner.lifecycle, hnone]
    exact hstep
  calm := fun target htarget => by rw [hnone] at htarget; cases htarget
  others := fun _ _ => rfl

@[simp] theorem Task.returned_ok (origin : Origin) (reply : Reply) :
    (Task.returned origin [] (.ok reply)).pc.returned? = some true := rfl

@[simp] theorem Task.returned_error (origin : Origin) (error : SupervisorError) :
    (Task.returned origin [] (.error error)).pc.returned? = some false := rfl

theorem start_follows (htarget : inner.targets.get? name = some target) (hcalm : target.Calm) :
    Task.Settles toml quitObeyed (fun _ => True) (inner.Ends name .start) (inner.put name target)
      ⟨.request, .start name, []⟩ := by
  refine .start hcalm.launching (fun hdisabled error => .rest rfl ?_)
    (fun henabled honline down error hdown => .rest rfl (.of_put _ htarget ?_ ?_))
    fun henabled up reply hup => .rest rfl (.of_put _ htarget ?_ ?_)
  · rw [Inner.put_eq_self htarget]
    refine .unchanged htarget hcalm ?_
    simp [Lifecycle.next, Lifecycle.start, RuntimeTarget.lifecycle, hdisabled]
  · exact hcalm.becomes hdown (fun h => by cases h) fun h => by rw [henabled] at h; cases h
  · simp [Lifecycle.next, Lifecycle.start, Lifecycle.launched, RuntimeTarget.lifecycle, hdown.config,
      hdown.stopped, hdown.online, henabled, honline]
  · exact hcalm.becomes hup (fun h => by cases h) fun h => by rw [henabled] at h; cases h
  · simp [Lifecycle.next, Lifecycle.start, Lifecycle.launched, RuntimeTarget.lifecycle, hup.config,
      hup.stopped, hup.online, henabled]

/-- mpv obeys, so no quit of `stop` fails. -/
theorem quitObeyed_stop {error : SupervisorError} {α : Prop}
    (h : quitObeyed (.stopQuit name) (.failed error) = true ∨
      quitObeyed (.stopGone name) (.failed error) = true) : α := by
  rcases h with h | h <;> cases h

theorem quitObeyed_ensure {error : SupervisorError} {α : Prop}
    (h : quitObeyed (.ensureQuit name) (.failed error) = true ∨
      quitObeyed (.ensureGone name) (.failed error) = true) : α := by
  rcases h with h | h <;> cases h

theorem stop_follows (htarget : inner.targets.get? name = some target) (hcalm : target.Calm) :
    Task.Settles toml quitObeyed (fun _ => True) (inner.Ends name .stop) (inner.put name target)
      ⟨.request, .stop name, []⟩ := by
  refine .stop (fun hstopped error => .rest rfl ?_) (fun _ _ halted error hanswer _ => quitObeyed_stop hanswer)
    fun hrunning off reply hoff => .rest rfl (.of_put _ htarget ?_ ?_)
  · rw [Inner.put_eq_self htarget]
    refine .unchanged htarget hcalm ?_
    simp [Lifecycle.next, RuntimeTarget.lifecycle, hstopped]
  · exact hcalm.becomes hoff (fun _ => rfl) fun _ => rfl
  · simp [Lifecycle.next, RuntimeTarget.lifecycle, hoff.config, hoff.stopped, hoff.online, hrunning]

theorem restart_follows (htarget : inner.targets.get? name = some target) (hcalm : target.Calm) :
    Task.Settles toml quitObeyed (fun _ => True) (inner.Ends name .restart) (inner.put name target)
      ⟨.request, .restart name, []⟩ := by
  refine .restart hcalm.launching (fun error hanswer => quitObeyed_ensure hanswer)
    (fun hdisabled off reply hoff => .rest rfl (.of_put _ htarget ?_ ?_))
    (fun _ _ halted error hanswer _ => quitObeyed_stop hanswer)
    (fun henabled down error hdown => .rest rfl (.of_put _ htarget ?_ ?_))
    fun henabled up reply hup => .rest rfl (.of_put _ htarget ?_ ?_)
  · exact hcalm.becomes hoff (fun _ => rfl) fun _ => rfl
  · simp [Lifecycle.next, RuntimeTarget.lifecycle, hoff.config, hoff.stopped, hoff.online, hdisabled]
  · exact hcalm.becomes hdown (fun h => by cases h) fun h => by rw [henabled] at h; cases h
  · simp [Lifecycle.next, Lifecycle.launched, RuntimeTarget.lifecycle, hdown.config, hdown.stopped,
      hdown.online, henabled]
  · exact hcalm.becomes hup (fun h => by cases h) fun h => by rw [henabled] at h; cases h
  · simp [Lifecycle.next, Lifecycle.launched, RuntimeTarget.lifecycle, hup.config, hup.stopped, hup.online,
      henabled]

/-- `persist_target_change` of a calm target; the write may fail. -/
theorem enable_follows (hagrees : inner.Agrees) (htarget : inner.targets.get? name = some target)
    (hcalm : target.Calm) :
    Task.Settles toml quitObeyed (fun _ => True) (inner.Ends name .enable) (inner.put name target)
      ⟨.request, .persistLock name .enable, []⟩ := by
  refine .persistLock (hagrees.target?_of_get? htarget) (fun _ => trivial) (fun error => .rest rfl ?_)
    (fun hkept reply => .rest rfl ?_)
    fun candidate persisted changed after reply hmutate hconfig hstopped honline hlaunching =>
      .rest rfl (.of_put candidate htarget ?_ ?_)
  · rw [Inner.put_eq_self htarget]
    refine .unchanged htarget hcalm ?_
    simp [Lifecycle.next, RuntimeTarget.lifecycle]
  · rw [Inner.put_eq_self htarget]
    refine .unchanged htarget hcalm ?_
    have henabled : target.config.disabled = false := by simpa [ConfigChange.mutate] using hkept
    simp [Lifecycle.next, RuntimeTarget.lifecycle, henabled]
  · have henabled : after.config.disabled = false := by
      rw [hconfig]
      grind [ConfigChange.mutate]
    exact ⟨hlaunching.trans hcalm.launching, by rw [hstopped, honline]; exact hcalm.offline, fun h => by
      rw [henabled] at h; cases h⟩
  · have henabled : after.config.disabled = false := by
      rw [hconfig]
      grind [ConfigChange.mutate]
    simp [Lifecycle.next, RuntimeTarget.lifecycle, henabled, hstopped, honline]

/-- `disable` from the `mutations` mutex on, with its target stopped. -/
theorem disable_follows (hagrees : inner.Agrees) (htarget : inner.targets.get? name = some target)
    (hcalm : target.Calm) :
    Task.Settles toml quitObeyed (fun _ => True) (inner.Ends name .disable) (inner.put name target)
      ⟨.request, .disable name, []⟩ := by
  have hpersist : ∀ off, target.Becomes true false off →
      Task.Settles toml quitObeyed (fun _ => True) (inner.Ends name .disable) (inner.put name off)
        ⟨.request, .persistLock name .disable, []⟩ := by
    intro off hoff
    have hcalm' := hcalm.becomes hoff (fun _ => rfl) fun _ => rfl
    have hentry : inner.config.target? name = some off.config := by
      rw [hoff.config]
      exact hagrees.target?_of_get? htarget
    refine .persistLock hentry (fun _ => trivial) (fun error => .rest rfl ?_) (fun hkept reply => .rest rfl ?_)
      fun candidate persisted changed after reply hmutate hconfig hstopped honline hlaunching =>
        .rest rfl (.of_put candidate htarget ?_ ?_)
    · refine .of_put inner.config htarget hcalm' ?_
      simp [Lifecycle.next, RuntimeTarget.lifecycle, hoff.config, hoff.stopped, hoff.online]
    · refine .of_put inner.config htarget hcalm' ?_
      have hdisabled : target.config.disabled = true := by
        rw [← hoff.config]
        simpa [ConfigChange.mutate] using hkept
      simp [Lifecycle.next, RuntimeTarget.lifecycle, hoff.config, hoff.stopped, hoff.online, hdisabled]
    · exact ⟨hlaunching.trans hcalm'.launching, fun _ => honline.trans hoff.online,
        fun _ => hstopped.trans hoff.stopped⟩
    · have hdisabled : after.config.disabled = true := by
        rw [hconfig]
        grind [ConfigChange.mutate]
      simp [Lifecycle.next, RuntimeTarget.lifecycle, hdisabled, hstopped, honline, hoff.stopped, hoff.online]
  refine .disable (fun _ _ halted error hanswer _ => quitObeyed_stop hanswer) (fun hstopped => ?_)
    fun _ off hoff => hpersist off hoff
  exact hpersist target ⟨rfl, hstopped, hcalm.offline hstopped, id⟩

theorem add_follows {source : Option String} {enable : Bool}
    (hcalm : ∀ target, inner.targets.get? name = some target → target.Calm) :
    Task.Settles toml quitObeyed (fun _ => True) (inner.Ends name (.add enable)) inner
      ⟨.request, .addLock name source enable, []⟩ := by
  refine .addLock (fun error => .rest rfl ?_) fun hnone candidate entry reply hdisabled => .rest rfl ?_
  · cases htarget : inner.targets.get? name with
    | none => exact .unknown htarget rfl
    | some target => exact .unchanged htarget (hcalm target htarget) rfl
  · refine ⟨?_, fun target htarget => ?_, fun other hother => by rw [Inner.get?_put, if_neg hother]⟩
    · rw [Inner.lifecycle, hnone, Inner.lifecycle, Inner.get?_put_self]
      simp [Lifecycle.step, Lifecycle.appears, RuntimeTarget.lifecycle, RuntimeTarget.initial, hdisabled]
    · rw [Inner.get?_put_self] at htarget
      cases htarget
      exact ⟨rfl, fun _ => rfl, fun _ => rfl⟩

/-- An operation that finds no target of its name ends in an error at once. -/
theorem unknown_follows {pc : Pc} {event : LifecycleEvent} (hnone : inner.targets.get? name = none)
    (happears : Lifecycle.appears event false = some none) (hrests : pc.rests = false)
    (hturn : ∀ view external turn, view.inner = inner →
      Task.turn toml view ⟨.request, pc, []⟩ external = some turn →
      inner.after toml (pc.critical external) = inner ∧
        ∃ error, turn.pc = .done (.error error) ∧ turn.callers = []) :
    Task.Settles toml quitObeyed (fun _ => True) (inner.Ends name event) inner ⟨.request, pc, []⟩ := by
  refine .step hrests (fun _ => trivial) fun view external turn hview _ hstep => ?_
  obtain ⟨hafter, error, hpc, hcallers⟩ := hturn view external turn hview hstep
  simp only [hafter, hpc, hcallers]
  exact .rest rfl (.unknown hnone happears)

/-- A section on a name without a target leaves everything as it is. -/
theorem Inner.after_onTarget_of_none {op : TargetOp} (hnone : inner.targets.get? name = none) :
    inner.after toml (some (.onTarget name op)) = inner := by
  simp only [Inner.after, CriticalSection.run, Inner.onTarget, hnone]

/-- Every operation of the machine, from a calm target or none. -/
theorem Request.follows {request : Request} {event : LifecycleEvent}
    (hevent : request.lifecycleEvent = some (name, event)) (hagrees : inner.Agrees)
    (hcalm : ∀ target, inner.targets.get? name = some target → target.Calm) :
    Task.Settles toml quitObeyed (fun _ => True) (inner.Ends name event) inner request.task := by
  cases htarget : inner.targets.get? name with
  | none =>
      cases request with
      | add other source enabled =>
          cases hevent
          exact add_follows hcalm
      | start other | stop other =>
          cases hevent
          refine unknown_follows htarget rfl rfl fun view external turn hview hturn => ?_
          simp only [Task.turn, hview, htarget] at hturn
          cases hturn
          exact ⟨Inner.after_onTarget_of_none htarget, _, rfl, rfl⟩
      | restart other | disable other =>
          cases hevent
          refine unknown_follows htarget rfl rfl fun view external turn hview hturn => ?_
          simp only [Task.turn, Task.read, hview, htarget] at hturn
          cases hturn
          exact ⟨rfl, _, rfl, rfl⟩
      | enable other =>
          cases hevent
          refine .step rfl (fun _ => trivial) fun view external turn _ _ hturn => ?_
          obtain ⟨_, rfl⟩ := Task.acquire_eq_some hturn
          have hentry : inner.config.target? name = none := by rw [hagrees.entries, htarget]; rfl
          refine unknown_follows htarget rfl rfl fun view external turn hview hturn => ?_
          simp only [Task.turn, hview, persistTargetChange, Task.goto, Pc.critical, Inner.after,
            CriticalSection.run, hentry] at hturn ⊢
          cases hturn
          exact ⟨trivial, _, rfl, rfl⟩
      | _ => cases hevent
  | some target =>
      have hcalm' := hcalm target htarget
      cases request with
      | add other source enabled =>
          cases hevent
          exact add_follows hcalm
      | start other =>
          cases hevent
          exact (start_follows htarget hcalm').of_put htarget
      | stop other =>
          cases hevent
          exact (stop_follows htarget hcalm').of_put htarget
      | restart other =>
          cases hevent
          exact (restart_follows htarget hcalm').of_put htarget
      | enable other =>
          cases hevent
          exact (enable_follows hagrees htarget hcalm').of_put htarget
      | disable other =>
          cases hevent
          exact (disable_follows hagrees htarget hcalm').of_put htarget
      | _ => cases hevent

theorem Inner.after_onTarget (toml : Toml) (op : TargetOp) (htarget : inner.targets.get? name = some target) :
    inner.after toml (some (.onTarget name op)) = inner.put name (op.run target).1 := by
  have h := inner.after_onTarget_put name target toml op
  rwa [Inner.put_eq_self htarget] at h

/-- A section that changes no flag of the machine. -/
theorem Inner.Follows.after_kept {op : TargetOp}
    (hstopped : ∀ target : RuntimeTarget, (op.run target).1.stopped = target.stopped)
    (honline : ∀ target : RuntimeTarget, (op.run target).1.online = target.online)
    (hlaunching : ∀ target : RuntimeTarget, (op.run target).1.launching = target.launching)
    (hcalm : ∀ target, inner.targets.get? name = some target → target.Calm) :
    inner.Follows name none (inner.after toml (some (.onTarget name op))) := by
  cases htarget : inner.targets.get? name with
  | none =>
      rw [Inner.after_onTarget_of_none htarget]
      exact ⟨rfl, hcalm, fun _ _ => rfl⟩
  | some target =>
      have hbecomes : target.Becomes target.stopped target.online (op.run target).1 :=
        ⟨TargetOp.run_config _ _, hstopped _, honline _, (hlaunching _).trans⟩
      rw [Inner.after_onTarget toml op htarget]
      refine ⟨?_, fun found hfound => ?_, fun other hother => by rw [Inner.get?_put, if_neg hother]⟩
      · rw [Inner.lifecycle, Inner.lifecycle, htarget, Inner.get?_put_self, Option.map_some, Option.map_some,
          hbecomes.lifecycle]
        rfl
      · rw [Inner.get?_put_self] at hfound
        cases hfound
        have hrests := hcalm target htarget
        exact hrests.becomes hbecomes hrests.offline hrests.stopped

/-- A recovery loop wakes up; when it finds its target expected, it launches it. -/
theorem recoverCheck_follows {origin : Origin} {delay : Nat} {view : View} {external : External}
    {turn : Turn} (hview : view.inner = inner)
    (hcalm : ∀ target, inner.targets.get? name = some target → target.Calm)
    (hturn : Task.turn toml view ⟨origin, .recoverCheck name delay, []⟩ external = some turn) :
    Task.Settles toml quitObeyed (fun _ => True) (inner.Ends name .wake)
      (inner.after toml (some (.onTarget name .stillExpected))) ⟨origin, turn.pc, turn.callers⟩ := by
  cases htarget : inner.targets.get? name with
  | none =>
      simp only [Task.turn, hview, htarget] at hturn
      cases hturn
      rw [Inner.after_onTarget_of_none htarget]
      exact .rest rfl (.unknown htarget rfl)
  | some target =>
      have hcalm' := hcalm target htarget
      simp only [Task.turn, hview, htarget, Option.map_some] at hturn
      rw [Inner.after_onTarget toml .stillExpected htarget]
      cases hexpected : target.config.disabled || target.stopped with
      | true =>
          have hsection : stillExpectedSection target = ⟨{ target with recovering := false }, none, false⟩ := by
            simp only [stillExpectedSection, hexpected, if_true]
          rw [hsection] at hturn
          cases hturn
          rw [TargetOp.run, hsection]
          refine .rest rfl (.of_put _ htarget ⟨hcalm'.launching, hcalm'.offline, hcalm'.stopped⟩ ?_)
          simp [Lifecycle.next, RuntimeTarget.lifecycle, TargetSection.effect, hexpected]
      | false =>
          have hsection : stillExpectedSection target = ⟨target, none, true⟩ := by
            simp only [stillExpectedSection, hexpected, Bool.false_eq_true, if_false]
          have hkept : (TargetOp.stillExpected.run target).1 = target := by
            simp only [TargetOp.run, hsection, TargetSection.effect]
          rw [hsection] at hturn
          cases hturn
          rw [hkept]
          change Task.Settles toml quitObeyed _ _ (inner.put name target)
            ⟨origin, .start name, [.recovery name delay]⟩
          obtain ⟨henabled, hrunning⟩ := Bool.or_eq_false_iff.mp hexpected
          refine .start hcalm'.launching (fun hdisabled => by rw [henabled] at hdisabled; cases hdisabled)
            (fun _ hoffline down error hdown => .rest rfl (.of_put _ htarget ?_ ?_))
            fun _ up reply hup => .rest rfl (.of_put _ htarget ?_ ?_)
          · exact hcalm'.becomes hdown (fun h => by cases h) fun h => by rw [henabled] at h; cases h
          · simp [Lifecycle.next, Lifecycle.start, Lifecycle.launched, RuntimeTarget.lifecycle, hdown.config,
              hdown.stopped, hdown.online, henabled, hrunning, hoffline, Task.returned, resume, Pc.returned?]
          · exact hcalm'.becomes hup (fun h => by cases h) fun h => by rw [henabled] at h; cases h
          · simp [Lifecycle.next, Lifecycle.start, Lifecycle.launched, RuntimeTarget.lifecycle, hup.config,
              hup.stopped, hup.online, henabled, hrunning, Task.returned, resume, Pc.returned?]

/-- An observer has ended with the exit of its mpv, or it listens on. -/
abbrev Inner.Hears (before : Inner) (name : String) (now : Inner) (task : Task) : Prop :=
  before.Follows name (if task.pc.returned? = some true then some (.exit, true) else none) now

theorem targetLost_follows {origin : Origin}
    (hcalm : ∀ target, inner.targets.get? name = some target → target.Calm) :
    Task.Settles toml quitObeyed (fun _ => True) (inner.Hears name) inner
      ⟨origin, .targetLost name, []⟩ := by
  refine .step rfl (fun _ => trivial) fun view external turn hview _ hturn => ?_
  cases htarget : inner.targets.get? name with
  | none =>
      simp only [Task.turn, hview, htarget] at hturn
      cases hturn
      simp only [Pc.critical, Inner.after_onTarget_of_none htarget]
      exact .rest rfl (.unknown htarget rfl)
  | some target =>
      have hcalm' := hcalm target htarget
      simp only [Task.turn, hview, htarget, Option.bind_some] at hturn
      simp only [Pc.critical, Inner.after_onTarget toml .targetLost htarget]
      cases honline : target.online with
      | false =>
          have hsection : targetLostSection target = ⟨target, none, none⟩ := by
            simp only [targetLostSection, honline, Bool.false_eq_true, if_false]
          rw [hsection] at hturn
          cases hturn
          rw [TargetOp.run, hsection]
          refine .rest rfl (.of_put _ htarget hcalm' ?_)
          simp [Lifecycle.next, RuntimeTarget.lifecycle, honline, TargetSection.effect]
      | true =>
          have hsection : (targetLostSection target).value =
              some (!target.config.disabled && !target.stopped) := by
            simp only [targetLostSection, honline, if_true]
          rw [hsection] at hturn
          cases hturn
          have hlost : target.Becomes target.stopped false (TargetOp.targetLost.run target).1 := by
            refine ⟨TargetOp.run_config _ _, TargetOp.run_stopped _ _, TargetOp.run_online _ _, ?_⟩
            intro hlanded
            simp only [TargetOp.run_launching, hlanded, Bool.false_and]
          refine .clearObserved fun cleared _ _ hconfig hstopped hoffline hlaunching => .rest rfl ?_
          have hbecomes : target.Becomes target.stopped false cleared :=
            ⟨hconfig.trans hlost.config, hstopped.trans hlost.stopped, hoffline.trans hlost.online,
              fun hlanded => hlaunching.trans (hlost.launching hlanded)⟩
          refine .of_put _ htarget (hcalm'.becomes hbecomes (fun _ => rfl) hcalm'.stopped) ?_
          rw [hbecomes.lifecycle]
          rfl

/-- Where one line leads an observer it listens on, with the flags as before. -/
theorem update_follows {origin : Origin} {pc : Pc} {op : TargetOp} (hpc : ∀ external,
      pc.critical external = some (.onTarget name op)) (hrests : pc.rests = false)
    (hupdates : op.updates = true)
    (hturn : ∀ view external turn, Task.turn toml view ⟨origin, pc, []⟩ external = some turn →
      turn.callers = [] ∧ (turn.pc = .observeRead name ∨ turn.pc = .mediaEndSend name))
    (hcalm : ∀ target, inner.targets.get? name = some target → target.Calm) :
    Task.Settles toml quitObeyed (fun _ => True) (inner.Hears name) inner ⟨origin, pc, []⟩ := by
  refine .step hrests (fun _ => trivial) fun view external turn _ _ hstep => ?_
  have hkept : inner.Follows name none (inner.after toml (some (.onTarget name op))) := by
    refine .after_kept (fun target => ?_) (fun target => ?_) (fun target => ?_) hcalm
    all_goals cases op <;> cases hupdates
    all_goals simp only [TargetOp.run_stopped, TargetOp.run_online, TargetOp.run_launching]
  obtain ⟨hcallers, hnext⟩ := hturn view external turn hstep
  simp only [hpc, hcallers]
  rcases hnext with hnext | hnext
  · rw [hnext]
    exact .rest rfl hkept
  · rw [hnext]
    refine .step rfl (fun _ => trivial) fun view external turn _ _ hstep => ?_
    cases hstep
    exact .rest rfl hkept

/-- An observer hears from its mpv, or finds it gone. -/
theorem observe_follows {origin : Origin} {pc : Pc} (hpc : pc = .observeConnect name ∨ pc = .observeRead name)
    {view : View} {external : External} {turn : Turn}
    (hcalm : ∀ target, inner.targets.get? name = some target → target.Calm)
    (hturn : Task.turn toml view ⟨origin, pc, []⟩ external = some turn) :
    Task.Settles toml quitObeyed (fun _ => True) (inner.Hears name) inner
      ⟨origin, turn.pc, turn.callers⟩ := by
  have hread : Task.Settles toml quitObeyed (fun _ => True) (inner.Hears name) inner
      ⟨origin, .observeRead name, []⟩ := .rest rfl ⟨rfl, hcalm, fun _ _ => rfl⟩
  rcases hpc with rfl | rfl
  · rcases External.probe_eq_some hturn with rfl | rfl
    · exact hread
    · exact targetLost_follows hcalm
  · cases external with
    | ok => cases hturn
    | failed error =>
        cases hturn
        exact targetLost_follows hcalm
    | line message =>
        cases hturn
        change Task.Settles toml quitObeyed _ _ inner ⟨origin, observeLine name message, []⟩
        rcases observeLine_pc name message with h | ⟨field, value, h⟩ | ⟨reason, error, h⟩ | h
        · rw [h]
          exact hread
        · rw [h]
          refine update_follows (fun _ => rfl) rfl rfl (fun view external turn hturn => ?_) hcalm
          cases hturn
          exact ⟨rfl, Or.inl rfl⟩
        · rw [h]
          refine update_follows (fun _ => rfl) rfl rfl (fun view external turn hturn => ?_) hcalm
          simp only [Task.turn] at hturn
          split at hturn <;> cases hturn
          · exact ⟨rfl, Or.inr rfl⟩
          · exact ⟨rfl, Or.inl rfl⟩
        · rw [h]
          refine update_follows (fun _ => rfl) rfl rfl (fun view external turn hturn => ?_) hcalm
          simp only [Task.turn] at hturn
          split at hturn <;> cases hturn
          · exact ⟨rfl, Or.inr rfl⟩
          · exact ⟨rfl, Or.inl rfl⟩

/-- A recovery loop is admitted or not; the machine does not see it. -/
theorem recoverAdmit_follows {origin : Origin} {view : View} {external : External} {turn : Turn}
    (hcalm : ∀ target, inner.targets.get? name = some target → target.Calm)
    (hturn : Task.turn toml view ⟨origin, .recoverAdmit name, []⟩ external = some turn) :
    Task.Settles toml quitObeyed (fun _ => True) (fun now _ => inner.Follows name none now)
      (inner.after toml (some (.onTarget name .admitRecovery))) ⟨origin, turn.pc, turn.callers⟩ := by
  have hkept : inner.Follows name none (inner.after toml (some (.onTarget name .admitRecovery))) :=
    .after_kept (fun target => TargetOp.run_stopped _ _) (fun target => TargetOp.run_online _ _)
      (fun target => TargetOp.run_launching _ _) hcalm
  simp only [Task.turn] at hturn
  split at hturn <;> cases hturn <;> exact .rest rfl hkept

end

/-! ### Runs -/

/-- What holds of the daemon between two episodes. -/
structure System.Orderly (toml : Toml) (s : System) : Prop where
  atRest : s.atRest = true
  configured : s.Configured toml
  shaped : s.Shaped
  startup : ∀ task ∈ s.tasks, task.origin = .startup → ∃ result, task.pc = .done result
  calm : ∀ name target, s.inner.targets.get? name = some target → target.Calm

section

variable {toml : Toml} {config : DaemonConfig} {file : String} {s t : System} {episode : Episode}

/-- A task that has ended takes no step, so nothing but the first task comes from the start. -/
theorem System.startup_step {label : Label}
    (h : ∀ task ∈ s.tasks, task.origin = .startup → ∃ result, task.pc = .done result)
    (hstep : System.step toml s label = some t) :
    ∀ task ∈ t.tasks, task.origin = .startup → ∃ result, task.pc = .done result := by
  rcases System.step_cases hstep with
    ⟨index, external, task, turn, rfl, _, htask, hturn, rfl⟩ | ⟨request, rfl, _, rfl⟩ | ⟨_, _, rfl⟩
  · refine TaskPool.forall_advance (fun horigin => ?_)
      (fun _ other _ hother => h other (List.mem_of_getElem? hother)) fun other hother horigin => ?_
    · obtain ⟨result, hdone⟩ := h task (List.mem_of_getElem? htask) horigin
      rw [Task.turn, hdone] at hturn
      cases hturn
    · rcases Task.turn_spawned hturn hother with ⟨_, rfl⟩ | ⟨_, _, _, _, _, rfl⟩ <;> cases horigin
  · intro task htask horigin
    rcases List.mem_append.mp htask with hold | hnew
    · exact h task hold horigin
    · rw [List.mem_singleton.mp hnew] at horigin
      cases request <;> cases horigin
  · exact h

/-- A resting task that can go on has no caller waiting. -/
theorem System.Orderly.callers (h : s.Orderly toml) {task : Task} (htask : task ∈ s.tasks)
    (hdone : ∀ result, task.pc ≠ .done result) (hpanicked : task.pc ≠ .panicked) : task.callers = [] := by
  have hrests := List.all_eq_true.mp h.atRest task htask
  have hshaped := h.shaped task htask
  rcases task with ⟨origin, pc, callers⟩
  cases origin with
  | request =>
      obtain ⟨hpc, _⟩ := hshaped
      cases pc <;> simp_all [Pc.rests, Pc.requested]
  | startup =>
      obtain ⟨result, hpc⟩ := h.startup _ htask rfl
      exact absurd hpc (hdone result)
  | recovery =>
      obtain ⟨name, hat⟩ := hshaped
      cases hat with
      | start delay hstarts => cases pc <;> simp_all [Pc.rests, Pc.starts, Pc.started, Pc.launches]
      | _ => rfl
  | observer connection =>
      obtain ⟨_, _, hcallers⟩ := hshaped
      exact hcallers

theorem System.orderly_ready (hvalid : config.validate = .ok ())
    (hfile : DaemonConfig.parse toml file = .ok config) :
    (System.ready config file).Orderly toml where
  atRest := rfl
  configured := by
    refine ⟨.initial hvalid, TaskPool.AtMostOne.singleton _ _, fun task htask => ?_,
      fun task htask candidate hcandidate => ?_, fun _ => hfile⟩
    · rw [List.mem_singleton.mp htask]
      trivial
    · rw [List.mem_singleton.mp htask] at hcandidate
      cases hcandidate
  shaped := by
    intro task htask
    rw [List.mem_singleton.mp htask]
    trivial
  startup := by
    intro task htask _
    rw [List.mem_singleton.mp htask]
    exact ⟨_, rfl⟩
  calm := by
    intro name target htarget
    obtain ⟨entry, _, heq⟩ := List.mem_map.mp (OrderedMap.mem_of_get?_ofList htarget)
    cases heq
    exact ⟨rfl, fun _ => rfl, id⟩

/-- What an episode is to each name, from how its task has ended. -/
theorem System.lifecycleLabel_eq {name : String} {event : LifecycleEvent} {after : Task}
    (hevent : episode.lifecycleEvent s = some (name, event))
    (hplay : s.play toml quitObeyed episode = some t)
    (hafter : t.tasks[episode.index s]? = some after) (other : String) :
    s.lifecycleLabel toml other episode =
      if name = other then
        if event = .exit → after.pc.returned? = some true then
          some (event, decide (after.pc.returned? = some true))
        else none
      else none := by
  simp only [System.lifecycleLabel, hevent, hplay, Option.any_some, Option.bind_some, System.succeeded,
    hafter, decide_eq_true_eq]
  by_cases hname : name = other
  · simp only [hname, true_and, if_true]
  · simp only [hname, false_and, if_false]

/-- An operation is one event of its target. -/
theorem System.Orderly.operation_follows (h : s.Orderly toml) {request : Request}
    {externals : List External} {name : String} {event : LifecycleEvent}
    (hevent : request.lifecycleEvent = some (name, event))
    (hplay : s.play toml quitObeyed (.operation request externals) = some t) :
    ∃ label, s.inner.Follows name label t.inner ∧
      ∀ other, s.lifecycleLabel toml other (.operation request externals) =
        if name = other then label else none := by
  obtain ⟨begun, history, hbegun, htrace, _, hcond, hrest⟩ := System.play_cases hplay
  obtain ⟨after, hafter, hends⟩ := (Request.follows hevent h.configured.agrees (h.calm name)).ends
    (System.lone_request h.atRest hbegun) htrace hcond hrest
  refine ⟨_, hends, fun other => ?_⟩
  have hexit : event ≠ .exit := by
    cases request <;> cases hevent <;> simp
  have hevent' : (Episode.operation request externals).lifecycleEvent s = some (name, event) := hevent
  rw [System.lifecycleLabel_eq hevent' hplay hafter, if_pos fun heq => absurd heq hexit]

/-- A resting task that goes on is the exit of an mpv, the waking of a recovery loop, or nothing. -/
theorem System.Orderly.resume_follows (h : s.Orderly toml) {index : Nat} {external : External}
    {externals : List External}
    (hplay : s.play toml quitObeyed (.resume index external externals) = some t) :
    ∃ name label, s.inner.Follows name label t.inner ∧
      ∀ other, s.lifecycleLabel toml other (.resume index external externals) =
        if name = other then label else none := by
  obtain ⟨begun, history, hbegun, htrace, _, hcond, hrest⟩ := System.play_cases hplay
  rcases System.step_cases hbegun with
    ⟨_, _, task, _, hlabel, _, htask, _, _⟩ | ⟨_, hlabel, _⟩ | ⟨hlabel, _⟩ <;> cases hlabel
  obtain ⟨turn, hturn, hlone⟩ := (System.lone_resting h.atRest htask).step_cases hbegun
  have hcallers := h.callers (List.mem_of_getElem? htask)
  have hrests := List.all_eq_true.mp h.atRest task (List.mem_of_getElem? htask)
  have hevent : (Episode.resume index external externals).lifecycleEvent s = task.pc.lifecycleEvent := by
    simp only [Episode.lifecycleEvent, htask, Option.bind_some]
  rcases task with ⟨origin, pc, callers⟩
  cases pc with
  | observeConnect name | observeRead name =>
      obtain rfl : callers = [] := hcallers (fun _ => by simp) (by simp)
      obtain ⟨after, hafter, hhears⟩ := Task.Settles.ends
        (observe_follows (by simp) (h.calm name) hturn) hlone htrace hcond hrest
      refine ⟨name, _, hhears, fun other => ?_⟩
      rw [System.lifecycleLabel_eq hevent hplay hafter]
      by_cases hended : after.pc.returned? = some true <;> simp [hended]
  | recoverCheck name delay =>
      obtain rfl : callers = [] := hcallers (fun _ => by simp) (by simp)
      obtain ⟨after, hafter, hends⟩ := (recoverCheck_follows rfl (h.calm name) hturn).ends hlone htrace
        hcond hrest
      refine ⟨name, _, hends, fun other => ?_⟩
      rw [System.lifecycleLabel_eq hevent hplay hafter, if_pos fun heq => by cases heq]
  | recoverAdmit name =>
      obtain rfl : callers = [] := hcallers (fun _ => by simp) (by simp)
      obtain ⟨after, hafter, hkept⟩ := (recoverAdmit_follows (h.calm name) hturn).ends hlone htrace
        hcond hrest
      refine ⟨name, none, hkept, fun other => ?_⟩
      simp only [System.lifecycleLabel, hevent, Pc.lifecycleEvent, Option.bind_none, ite_self]
  | done result => cases hturn
  | panicked => cases hturn
  | _ => cases hrests

/-- Every episode keeps the daemon orderly, and each name makes a step of its machine. -/
theorem System.Orderly.play (h : s.Orderly toml) (hparses : toml.ParsesBack)
    (hepisode : episode.inLifecycle = true)
    (hplay : s.play toml quitObeyed episode = some t) :
    t.Orderly toml ∧ ∀ name, Lifecycle.step (s.inner.lifecycle name)
      (s.lifecycleLabel toml name episode) = some (t.inner.lifecycle name) := by
  obtain ⟨_, _, _, _, _, _, hrest⟩ := System.play_cases hplay
  obtain ⟨name, label, hfollows, hlabel⟩ : ∃ name label, s.inner.Follows name label t.inner ∧
      ∀ other, s.lifecycleLabel toml other episode = if name = other then label else none := by
    cases episode with
    | operation request externals =>
        obtain ⟨⟨name, event⟩, hevent⟩ := Option.isSome_iff_exists.mp hepisode
        exact ⟨name, h.operation_follows hevent hplay⟩
    | resume index external externals => exact h.resume_follows hplay
  have hothers : ∀ other, other ≠ name → t.inner.lifecycle other = s.inner.lifecycle other := by
    intro other hother
    rw [Inner.lifecycle, Inner.lifecycle, hfollows.others other hother]
  refine ⟨⟨hrest, ?_, ?_, ?_, fun other target htarget => ?_⟩, fun other => ?_⟩
  · exact System.play_keeps (fun t label u ht hu => ht.step hparses hu) hplay h.configured
  · exact System.play_keeps (fun t label u ht hu => ht.step hu) hplay h.shaped
  · exact System.play_keeps (fun t label u ht hu => System.startup_step ht hu) hplay h.startup
  · by_cases hother : other = name
    · rw [hother] at htarget
      exact hfollows.calm target htarget
    · rw [hfollows.others other hother] at htarget
      exact h.calm other target htarget
  · rw [hlabel]
    split_ifs with hother
    · rw [← hother]
      exact hfollows.step
    · rw [hothers other (Ne.symm hother)]
      rfl

/-- When operations run one at a time and mpv obeys, every name follows the documented machine: its state
after each episode is what the machine makes of the state before. -/
theorem lifecycle_followed {history : List (System × Episode)} (hparses : toml.ParsesBack)
    (hconfig : DaemonConfig.parse toml file = .ok config)
    (hrun : System.SequentialRun toml quitObeyed config file history s)
    (hepisodes : ∀ entry ∈ history, entry.2.inLifecycle = true) (name : String) :
    Trace Lifecycle.step ((config.target? name).map fun entry => ⟨entry.disabled, entry.disabled, false⟩)
      (history.map fun entry => (entry.1.inner.lifecycle name, entry.1.lifecycleLabel toml name entry.2))
      (s.inner.lifecycle name) := by
  have hvalid := validate_of_parse hconfig
  have hstart : (System.ready config file).inner.lifecycle name =
      (config.target? name).map fun entry => ⟨entry.disabled, entry.disabled, false⟩ := by
    have hentry : config.target? name = _ := (Inner.Agrees.initial hvalid).entries name
    change ((Inner.new config).targets.get? name).map RuntimeTarget.lifecycle = _
    rw [hentry]
    cases htarget : (Inner.new config).targets.get? name with
    | none => rfl
    | some target =>
        obtain ⟨entry, _, heq⟩ := List.mem_map.mp (OrderedMap.mem_of_get?_ofList htarget)
        cases heq
        rfl
  rw [← hstart]
  have hstep : ∀ (t : System) (episode : Episode) (u : System), t.Orderly toml → episode.inLifecycle = true →
      t.play toml quitObeyed episode = some u → u.Orderly toml ∧
        Lifecycle.step (t.inner.lifecycle name) (t.lifecycleLabel toml name episode) =
          some (u.inner.lifecycle name) :=
    fun t episode u ht hepisode hplay =>
      ⟨(ht.play hparses hepisode hplay).1, (ht.play hparses hepisode hplay).2 name⟩
  exact Trace.refines (fun t => t.inner.lifecycle name) (fun t episode => t.lifecycleLabel toml name episode)
    (System.orderly_ready hvalid hconfig) hstep hrun hepisodes

end

/-- `tv` is started, stopped and disabled, and mpv obeys. -/
def startedStoppedDisabled : List Episode :=
  [.operation (.start "tv") (List.replicate 5 .ok), .operation (.stop "tv") (List.replicate 6 .ok),
    .operation (.disable "tv") (List.replicate 4 .ok)]

theorem lifecycle_followed_disable : ∃ history s,
    System.SequentialRun tvToml quitObeyed tvNode tvNode.toText history s ∧
    Trace Lifecycle.step (some ⟨false, false, false⟩)
      (history.map fun entry => (entry.1.inner.lifecycle "tv", entry.1.lifecycleLabel tvToml "tv" entry.2))
      (some ⟨true, true, false⟩) := by
  have hrun : (runChecked (System.play tvToml quitObeyed) (fun _ episode => episode.inLifecycle)
      (System.ready tvNode tvNode.toText) startedStoppedDisabled).any (fun s =>
        s.inner.lifecycle "tv" = some ⟨true, true, false⟩) = true := by decide +kernel
  obtain ⟨s, hs, hend⟩ := (Option.any_eq_true _ _).mp hrun
  obtain ⟨history, htrace, _, hepisodes⟩ := exists_trace_of_runChecked hs
  refine ⟨history, s, htrace, ?_⟩
  rw [← of_decide_eq_true hend]
  exact lifecycle_followed tvToml_parsesBack tvNode_parse htrace hepisodes "tv"

end MpvTargets

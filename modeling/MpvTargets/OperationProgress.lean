import MpvTargets.ConfigPersistence
import MpvTargets.TaskShapes

/-! Client operations come to an end. An operation passes a bounded number of await points, and the only
one where it can be held up by the others is the `mutations` mutex, whose holder never waits for it. -/

namespace MpvTargets

/-- How many steps a client's operation takes at most before it returns to what awaits it. -/
def Pc.turnsLeft : Pc → Nat
  | start _ => 6
  | launchConfig _ => 5
  | launchProbe _ => 4
  | launchSpawn _ => 3
  | launchOnline _ => 2
  | launchFailed _ _ => 1
  | stop _ => 7
  | stopQuit _ => 6
  | stopGone _ => 5
  | stopOffline _ => 2
  | clearObserved _ .stop => 4
  | clearObserved _ _ => 3
  | clearObservedSend _ .stop => 3
  | clearObservedSend _ _ => 2
  | ensureProbe _ => 6
  | ensureQuit _ => 5
  | ensureGone _ => 4
  | ensureOff _ => 1
  | restart _ => 15
  | restartStopped _ => 14
  | disable _ => 11
  | persistLock _ _ => 3
  | persist _ _ => 2
  | targetRecord _ => 1
  | addLock _ _ _ => 7
  | addCheck _ _ _ => 6
  | addPrepare _ => 5
  | addCandidate _ => 4
  | addPersist _ _ => 3
  | addCommit _ _ => 2
  | addRecord _ => 1
  | removeLock _ => 14
  | removeCheck _ => 13
  | removeStage _ => 5
  | removeCandidate _ => 4
  | removePersist _ _ => 3
  | removeCommit _ _ => 2
  | removeClean _ => 1
  | renameLock _ _ => 7
  | renameCheck _ _ => 6
  | renameMove _ _ => 5
  | renameCandidate _ _ => 4
  | renamePersist _ _ _ => 3
  | renameCommit _ _ _ => 2
  | renameRecord _ => 1
  | mpvOnline _ => 2
  | mpvIpc _ => 1
  | saveLock _ => 4
  | saveWrite _ => 1
  | _ => 0

/-- How many steps a caller takes at most once it has the result. -/
def Caller.turnsLeft : Caller → Nat
  | restartStop _ => 6
  | restartEnsured _ => 1
  | setChannel _ true => 15
  | setChannel _ false => 0
  | disableStop _ => 3
  | removeStop _ => 5
  | saveChannel _ => 1
  | recovery _ _ | startupEnsured _ | startupStarted _ _ => 0

def turnsOfCallers (callers : List Caller) : Nat := (callers.map Caller.turnsLeft).sum

def Task.turnsLeft (task : Task) : Nat := task.pc.turnsLeft + turnsOfCallers task.callers

@[simp] theorem turnsOfCallers_nil : turnsOfCallers [] = 0 := rfl

@[simp] theorem turnsOfCallers_cons (caller : Caller) (callers : List Caller) :
    turnsOfCallers (caller :: callers) = caller.turnsLeft + turnsOfCallers callers := by
  rw [turnsOfCallers, List.map_cons, List.sum_cons]
  rfl

section

variable {toml : Toml} {view : View} {task : Task} {external : External} {turn : Turn}

/-- A returning call leaves no more steps than its callers had. -/
theorem resume_turnsLeft (result : Outcome) {callers : List Caller}
    (h : callers.all Caller.requested = true) :
    (resume result callers).pc.turnsLeft + turnsOfCallers (resume result callers).callers ≤
      turnsOfCallers callers := by
  fun_induction resume result callers with
  | case14 error caller callers _ _ ih =>
      rw [List.all_cons, Bool.and_eq_true] at h
      rw [turnsOfCallers_cons]
      exact le_add_left (ih h.2)
  | _ => simp_all [Pc.turnsLeft, Caller.turnsLeft, Caller.requested]

theorem Pc.Next.turnsLeft {pc pc' : Pc} (h : pc.Next toml view external pc')
    (hpc : pc.requested = true) : pc'.turnsLeft < pc.turnsLeft := by
  cases h with
  | clearObserved name clearing => cases clearing <;> simp [Pc.turnsLeft]
  | _ => first | exact absurd hpc Bool.false_ne_true | simp [Pc.turnsLeft]

theorem Pc.Calls.turnsLeft {pc pc' : Pc} {caller : Caller} (h : pc.Calls view pc' caller)
    (hpc : pc.requested = true) : pc'.turnsLeft + caller.turnsLeft < pc.turnsLeft := by
  cases h <;> first | exact absurd hpc Bool.false_ne_true | simp [Pc.turnsLeft, Caller.turnsLeft]

/-- A task that has not finished is at an await point that counts. -/
theorem Task.turnsLeft_pos (h : task.turn toml view external = some turn)
    (hpc : task.pc.requested = true) : 0 < task.pc.turnsLeft := by
  rcases task with ⟨origin, pc, callers⟩
  cases pc with
  | clearObserved name clearing | clearObservedSend name clearing =>
      cases clearing <;> simp [Pc.turnsLeft]
  | done | panicked => cases h
  | _ => first | exact absurd hpc Bool.false_ne_true | simp [Pc.turnsLeft]

/-- Every step of a client's operation brings it closer to its end. -/
theorem Task.turn_turnsLeft (h : task.turn toml view external = some turn)
    (hpc : task.pc.requested = true) (hcallers : task.callers.all Caller.requested = true) :
    Task.turnsLeft ⟨task.origin, turn.pc, turn.callers⟩ < task.turnsLeft := by
  have hpos := Task.turnsLeft_pos h hpc
  have hleads := Task.turn_leads h
  rcases turn with ⟨effect, pc', callers', spawned⟩
  simp only [Task.turnsLeft] at hleads ⊢
  cases hleads with
  | next hnext =>
      have hless := hnext.turnsLeft hpc
      omega
  | call hcalls =>
      have hless := hcalls.turnsLeft hpc
      rw [turnsOfCallers_cons]
      omega
  | ret result =>
      have hle := resume_turnsLeft result hcallers
      omega
  | finish => exact Nat.lt_of_lt_of_le hpos (Nat.le_add_right ..)
  | panic => exact Nat.lt_of_lt_of_le hpos (Nat.le_add_right ..)

end

/-- The step is one of the task at `index`. -/
def Label.isTurnOf (index : Nat) : Label → Bool
  | .task stepped _ => stepped == index
  | _ => false

/-- How many steps the longest run of this operation has. -/
def Request.turns (request : Request) : Nat := request.task.turnsLeft

theorem Request.turns_le (request : Request) : request.turns ≤ 18 := by
  cases request with
  | setChannel name channel restart => cases restart <;> exact of_decide_eq_true rfl
  | _ => exact of_decide_eq_true rfl

/-- The task at `index` is a client's operation with so many steps left. -/
def System.HasTurns (index limit : Nat) (s : System) : Prop :=
  ∃ task, s.tasks[index]? = some task ∧ task.origin = .request ∧ task.turnsLeft ≤ limit

theorem System.HasTurns.step {toml : Toml} {s s' : System} {label : Label} {index limit : Nat}
    (h : s.HasTurns index limit) (hshaped : s.Shaped) (hstep : System.step toml s label = some s') :
    ∃ limit', s'.HasTurns index limit' ∧ limit' + (if label.isTurnOf index then 1 else 0) ≤ limit := by
  obtain ⟨task, htask, horigin, hlimit⟩ := h
  rcases System.step_cases hstep with
    ⟨stepped, external, other, turn, rfl, _, hother, hturn, rfl⟩ | ⟨request, rfl, _, rfl⟩ | ⟨rfl, _, rfl⟩
  · by_cases hindex : stepped = index
    · subst hindex
      cases htask.symm.trans hother
      have htyped := hshaped task (List.mem_of_getElem? htask)
      rw [Task.Shaped, horigin] at htyped
      have hless := Task.turn_turnsLeft hturn htyped.1 htyped.2
      refine ⟨_, ⟨_, TaskPool.getElem?_advance_self htask, horigin, le_refl _⟩, ?_⟩
      simp only [Label.isTurnOf, beq_self_eq_true, if_true]
      omega
    · refine ⟨limit, ⟨task, ?_, horigin, hlimit⟩, ?_⟩
      · exact TaskPool.getElem?_advance_of_ne (Ne.symm hindex) htask
      · simp [Label.isTurnOf, hindex]
  · have hlt := (List.getElem?_eq_some_iff.mp htask).1
    refine ⟨limit, ⟨task, ?_, horigin, hlimit⟩, le_refl _⟩
    rw [List.getElem?_append_left hlt, htask]
  · exact ⟨limit, ⟨task, htask, horigin, hlimit⟩, le_refl _⟩

theorem System.Shaped.run {toml : Toml} {config : DaemonConfig} {file : String}
    {history : List (System × Label)} {s : System} (hrun : System.Run toml config file history s) :
    s.Shaped := by
  have hstep : ∀ (t : System) (label : Label) (u : System), t.Shaped → True →
      System.step toml t label = some u → u.Shaped := fun _ _ _ ht _ hu => ht.step hu
  exact Trace.invariant (System.shaped_initial config file) hstep hrun fun _ _ => trivial

/-- Once issued, an operation stays the task it was issued as, and every one of its steps takes one off
what it has left. -/
theorem System.HasTurns.run {toml : Toml} {s s' : System} {history : List (System × Label)}
    {index limit : Nat} (hrun : Trace (System.step toml) s history s') (h : s.HasTurns index limit)
    (hshaped : s.Shaped) :
    s'.Shaped ∧ ∃ limit', s'.HasTurns index limit' ∧
      limit' + (history.countP fun entry => entry.2.isTurnOf index) ≤ limit := by
  induction hrun with
  | refl => exact ⟨hshaped, limit, h, le_refl _⟩
  | tail _ hstep ih =>
      obtain ⟨hbetween, limit', hturns, hle⟩ := ih
      obtain ⟨limit'', hturns', hless⟩ := hturns.step hbetween hstep
      refine ⟨hbetween.step hstep, limit'', hturns', ?_⟩
      rw [List.countP_append, List.countP_singleton]
      split_ifs at hless ⊢ <;> omega

/-- **Operations are bounded**: in every run, whatever the others do and whatever comes back from mpv and
the file system, an operation takes at most its number of steps, of which there are never more than 18. -/
theorem operation_turns_bounded {toml : Toml} {config : DaemonConfig} {file : String}
    {before after : List (System × Label)} {t s : System} {request : Request}
    (hrun : System.Run toml config file (before ++ (t, .request request) :: after) s) :
    (after.countP fun entry => entry.2.isTurnOf t.tasks.length) ≤ request.turns ∧
      request.turns ≤ 18 := by
  obtain ⟨hbefore, issued, hissued, hafter⟩ := hrun.split rfl
  have hshaped := System.Shaped.run hbefore
  have hturns : issued.HasTurns t.tasks.length request.turns := by
    rcases System.step_cases hissued with ⟨_, _, _, _, hlabel, _⟩ | ⟨_, hlabel, _, rfl⟩ | ⟨hlabel, _⟩
    · cases hlabel
    · cases hlabel
      refine ⟨request.task, by simp, ?_, le_refl _⟩
      cases request <;> rfl
    · cases hlabel
  obtain ⟨_, limit, _, hle⟩ := System.HasTurns.run hafter hturns (hshaped.step hissued)
  exact ⟨by omega, request.turns_le⟩

def tvMovieNode : DaemonConfig := nodeWith [⟨"tv", false, some "/media/movies.m3u8"⟩]

def movieToml : Toml := .ofTable [tvNode, tvMovieNode]

def setMovies : Request := .setChannel "tv" (some "/media/movies.m3u8") true

/-- The channel of the running `tv` is set with a restart whose launch finds no mpv to attach to. -/
def restartedForMovies : List Label :=
  List.replicate 14 (.task 2 .ok) ++ .task 2 unavailable :: List.replicate 3 (.task 2 .ok)

/-- A request becomes task 2. -/
def issuesSecond (s : System) : Label → Bool
  | .request _ => s.tasks.length == 2
  | _ => true

/-- Setting a channel with a restart can take 18 steps. -/
theorem operation_turns_bounded_setMovies :
    ∃ before after t s,
      System.Run movieToml tvNode tvNode.toText (before ++ (t, .request setMovies) :: after) s ∧
      (after.countP fun entry => entry.2.isTurnOf t.tasks.length) = 18 ∧
      (after.countP fun entry => entry.2.isTurnOf t.tasks.length) ≤ setMovies.turns ∧
      setMovies.turns ≤ 18 := by
  have hlabels : (runChecked (System.step movieToml) issuesSecond
      (System.initial tvNode tvNode.toText)
      (startAttached ++ [.task 1 .ok, .task 1 (muteLine true), .task 1 .ok] ++
        .request setMovies :: restartedForMovies)).any (fun _ => true) = true := by
    decide +kernel
  obtain ⟨history, s, hrun, hlabels, hchecks, _⟩ := System.exists_run hlabels
  obtain ⟨before, rest, rfl, _, hrest⟩ := List.map_eq_append_iff.mp hlabels
  obtain ⟨⟨t, label⟩, after, rfl, hlabel, hafter⟩ := List.map_eq_cons_iff.mp hrest
  obtain rfl : label = .request setMovies := hlabel
  have hlength : t.tasks.length = 2 := by
    simpa [issuesSecond] using hchecks (t, .request setMovies) (by simp)
  have hcount : (after.countP fun entry => entry.2.isTurnOf t.tasks.length) = 18 := by
    rw [hlength]
    calc after.countP (fun entry => entry.2.isTurnOf 2)
        = (after.map Prod.snd).countP (Label.isTurnOf 2) := by
          rw [List.countP_map]
          rfl
      _ = restartedForMovies.countP (Label.isTurnOf 2) := by rw [hafter]
      _ = 18 := by decide
  exact ⟨before, after, t, s, hrun, hcount, operation_turns_bounded hrun⟩

/-- Where a task waits for the `mutations` mutex. -/
def Pc.locks : Pc → Bool
  | persistLock _ _ | addLock _ _ _ | removeLock _ | renameLock _ _ | saveLock _ => true
  | _ => false

/-- The await points of operations that no other operation calls, and the end. -/
def Pc.outermost : Pc → Bool
  | done _ | panicked => true
  | disable _ | saveLock _ | saveWrite _ => true
  | addLock _ _ _ | addCheck _ _ _ | addPrepare _ | addCandidate _ | addPersist _ _ => true
  | addCommit _ _ | addRecord _ => true
  | removeLock _ | removeCheck _ | removeStage _ | removeCandidate _ | removePersist _ _ => true
  | removeCommit _ _ | removeClean _ => true
  | renameLock _ _ | renameCheck _ _ | renameMove _ _ | renameCandidate _ _ => true
  | renamePersist _ _ _ | renameCommit _ _ _ | renameRecord _ => true
  | _ => false

def Caller.outermost : Caller → Bool
  | disableStop _ | removeStop _ | saveChannel _ => true
  | _ => false

/-- An operation that nobody calls is the first of its task. -/
def OutermostLast : List Caller → Prop
  | [] => True
  | caller :: callers => (caller.outermost = true → callers = []) ∧ OutermostLast callers

/-- How the operations of a task nest. Only `set_channel` calls `persist_target_change`. -/
structure Task.Nested (task : Task) : Prop where
  outermost : task.pc.outermost = true → task.callers = []
  persists : ∀ name change, task.pc = .persistLock name change →
    ∀ caller ∈ task.callers, caller.outermost = false
  callers : OutermostLast task.callers

section

variable {toml : Toml} {view : View} {task : Task} {external : External} {turn : Turn}

theorem Task.Nested.of_nil (origin : Origin) (pc : Pc) : Task.Nested ⟨origin, pc, []⟩ where
  outermost _ := rfl
  persists _ _ _ _ h := absurd h List.not_mem_nil
  callers := trivial

theorem Task.Nested.of_inner (origin : Origin) {pc : Pc} {callers : List Caller}
    (hpc : pc.outermost = false) (hpersists : ∀ name change, pc ≠ .persistLock name change)
    (hcallers : OutermostLast callers) : Task.Nested ⟨origin, pc, callers⟩ where
  outermost h := absurd (hpc.symm.trans h) Bool.false_ne_true
  persists name change h := absurd h (hpersists name change)
  callers := hcallers

theorem nested_resume (origin : Origin) (result : Outcome) {callers : List Caller}
    (h : OutermostLast callers) :
    Task.Nested ⟨origin, (resume result callers).pc, (resume result callers).callers⟩ := by
  fun_induction resume result callers with
  | case1 | case2 => exact .of_nil ..
  | case9 _ _ _ ih => exact ih h.2
  | case10 | case11 | case12 =>
      obtain rfl := h.1 rfl
      exact .of_nil ..
  | case14 _ _ _ _ _ ih => exact ih h.2
  | _ => exact .of_inner _ rfl (by intro _ _ h; cases h) h.2

/-- A step within an operation keeps it the first of its task, or one that others call. -/
theorem Pc.Next.nested {pc pc' : Pc} (h : pc.Next toml view external pc') {callers : List Caller}
    (hnested : Task.Nested ⟨task.origin, pc, callers⟩) : Task.Nested ⟨task.origin, pc', callers⟩ := by
  cases h with
  | disable name =>
      obtain rfl := hnested.outermost rfl
      exact .of_nil ..
  | _ =>
      first
      | exact .of_inner _ rfl (by intro _ _ h; cases h) hnested.callers
      | exact ⟨hnested.outermost, (by intro _ _ h; cases h), hnested.callers⟩

theorem Pc.Calls.nested {pc pc' : Pc} {caller : Caller} (h : pc.Calls view pc' caller)
    {callers : List Caller} (hnested : Task.Nested ⟨task.origin, pc, callers⟩) :
    Task.Nested ⟨task.origin, pc', caller :: callers⟩ := by
  cases h with
  | disableStop | removeStop | saveChannel =>
      exact .of_inner _ rfl (by intro _ _ h; cases h) ⟨fun _ => hnested.outermost rfl, hnested.callers⟩
  | _ => exact .of_inner _ rfl (by intro _ _ h; cases h) ⟨fun h => (by cases h), hnested.callers⟩

theorem Task.turn_nested (hnested : task.Nested) (h : task.turn toml view external = some turn) :
    Task.Nested ⟨task.origin, turn.pc, turn.callers⟩ := by
  have hleads := Task.turn_leads h
  rcases turn with ⟨effect, pc', callers', spawned⟩
  cases hleads with
  | next hnext => exact hnext.nested hnested
  | call hcalls => exact hcalls.nested hnested
  | ret result => exact nested_resume _ result hnested.callers
  | finish => exact .of_nil ..
  | panic => exact .of_nil ..

/-- The holder of the mutex does not wait for it. -/
theorem Task.Nested.not_locks (h : task.Nested) (hholds : task.holdsMutations = true) :
    task.pc.locks = false := by
  rcases task with ⟨origin, pc, callers⟩
  cases pc with
  | persistLock name change =>
      obtain ⟨caller, hcaller, hheld⟩ := List.any_eq_true.mp hholds
      have hinner := h.persists name change rfl caller hcaller
      cases caller <;>
        first | exact absurd hheld Bool.false_ne_true | exact absurd hinner.symm Bool.false_ne_true
  | addLock | removeLock | renameLock | saveLock =>
      obtain rfl := h.outermost rfl
      cases hholds
  | _ => rfl

end

/-- A client's operation that has not returned can take its next step, unless it waits for the mutex. -/
theorem Task.can_turn (toml : Toml) {view : View} {task : Task} (hpc : task.pc.requested = true)
    (hlocks : task.pc.locks = true → view.mutationsFree = true) :
    (∃ result, task.pc = .done result) ∨ task.pc = .panicked ∨
      ∃ turn, task.turn toml view .ok = some turn := by
  rcases task with ⟨origin, pc, callers⟩
  cases pc with
  | done result => exact Or.inl ⟨result, rfl⟩
  | panicked => exact Or.inr (Or.inl rfl)
  | persistLock | addLock | removeLock | renameLock | saveLock =>
      have hfree := hlocks rfl
      simp [Task.turn, Task.acquire, hfree]
  | _ =>
      refine Or.inr (Or.inr (Option.isSome_iff_exists.mp ?_))
      first
      | exact absurd hpc Bool.false_ne_true
      | rfl
      | simp only [Task.turn]
        split <;> rfl

/-! ### Completion -/

/-- A daemon that has not given up, with the operations of its tasks nested. -/
structure System.Live (toml : Toml) (s : System) : Prop where
  inOrder : s.InOrder toml
  shaped : s.Shaped
  nested : ∀ task ∈ s.tasks, task.Nested
  running : s.exited = false

/-- Continuations in which only tasks move, and nothing they call fails. -/
def System.Proceeds (toml : Toml) (s s' : System) : Prop :=
  ∃ later, Trace (System.step toml) s later s' ∧ ∀ entry ∈ later, ∃ index, entry.2 = .task index .ok

namespace System

variable {toml : Toml} {s s' t : System} {index : Nat} {task : Task}

theorem Proceeds.refl : s.Proceeds toml s := ⟨[], Trace.refl, by simp⟩

theorem Proceeds.trans (h : s.Proceeds toml t) (h' : t.Proceeds toml s') : s.Proceeds toml s' := by
  obtain ⟨first, hfirst, hfirstOk⟩ := h
  obtain ⟨second, hsecond, hsecondOk⟩ := h'
  refine ⟨first ++ second, hfirst.trans hsecond, fun entry hentry => ?_⟩
  exact (List.mem_append.mp hentry).elim (hfirstOk entry) (hsecondOk entry)

/-- The tasks that were there are nested after a step, and so are the new ones. -/
theorem nested_step {label : Label} (h : ∀ task ∈ s.tasks, task.Nested)
    (hstep : System.step toml s label = some s') : ∀ task ∈ s'.tasks, task.Nested := by
  rcases step_cases hstep with
    ⟨index, external, task, turn, _, _, htask, hturn, rfl⟩ | ⟨request, _, _, rfl⟩ | ⟨_, _, rfl⟩
  · refine TaskPool.forall_advance ?_ ?_ ?_
    · exact Task.turn_nested (h task (List.mem_of_getElem? htask)) hturn
    · exact fun _ other _ hother => h other (List.mem_of_getElem? hother)
    · intro other hother
      rcases Task.turn_spawned hturn hother with ⟨_, rfl⟩ | ⟨_, _, _, _, _, rfl⟩ <;> exact .of_nil ..
  · intro task htask
    rcases List.mem_append.mp htask with hold | hnew
    · exact h task hold
    · rw [List.mem_singleton.mp hnew]
      cases request with
      | setChannel name channel restart =>
          refine ⟨fun h => (by cases h), fun _ _ _ caller hcaller => ?_, ⟨fun h => (by cases h), trivial⟩⟩
          rw [List.mem_singleton.mp hcaller]
          rfl
      | _ => exact .of_nil ..
  · exact h

/-- Only the first task ends the daemon. -/
theorem exited_apply_of_pos {turn : Turn} (hindex : 0 < index)
    (htask : s.tasks[index]? = some task) :
    (s.apply toml index task turn).exited = s.exited := by
  have hlt := (List.getElem?_eq_some_iff.mp htask).1
  have hpos : 0 < s.tasks.length := Nat.zero_lt_of_lt hlt
  have hfirst : s.tasks[0]? = some s.tasks[0] := List.getElem?_eq_getElem hpos
  rw [exited, exited, List.head?_eq_getElem?, List.head?_eq_getElem?, apply_tasks,
    TaskPool.getElem?_advance_of_ne hindex.ne hfirst, hfirst]

/-- The tasks of clients come after the first one. -/
theorem Live.index_pos (h : s.Live toml) (htask : s.tasks[index]? = some task)
    (horigin : task.origin = .request) : 0 < index := by
  obtain ⟨first, others, pending, hstarts⟩ := h.inOrder.started
  rw [hstarts.tasks] at htask
  cases index with
  | zero =>
      cases htask
      cases horigin.symm.trans hstarts.origin
  | succ index => exact Nat.succ_pos index

/-- An operation that can take its next step takes it, and the others stay where they are. -/
theorem Live.advance (hparses : toml.ParsesBack) (h : s.Live toml)
    (htask : s.tasks[index]? = some task) (horigin : task.origin = .request)
    (hlocks : task.pc.locks = true → s.mutationsFree = true) :
    (∃ result, task.pc = .done result) ∨
    ∃ turn, task.turn toml s.view .ok = some turn ∧
      s.Proceeds toml (s.apply toml index task turn) ∧ (s.apply toml index task turn).Live toml ∧
      Task.turnsLeft ⟨task.origin, turn.pc, turn.callers⟩ < task.turnsLeft := by
  have hmem := List.mem_of_getElem? htask
  have htyped := h.shaped task hmem
  rw [Task.Shaped, horigin] at htyped
  have hlocksView : task.pc.locks = true → s.view.mutationsFree = true := hlocks
  rcases task.can_turn toml htyped.1 hlocksView with hdone | hpanicked | ⟨turn, hturn⟩
  · exact Or.inl hdone
  · exact absurd hpanicked (h.inOrder.sound task hmem)
  · have hstep : System.step toml s (.task index .ok) = some (s.apply toml index task turn) := by
      rw [System.step, h.running, if_neg Bool.false_ne_true, htask, Option.bind_some, hturn,
        Option.map_some]
    have hless := Task.turn_turnsLeft hturn htyped.1 htyped.2
    refine Or.inr ⟨turn, hturn, ⟨_, Trace.single hstep, ?_⟩, ?_, hless⟩
    · intro entry hentry
      exact ⟨index, by rw [List.mem_singleton.mp hentry]⟩
    · refine ⟨⟨?_, ?_, ?_⟩, h.shaped.step hstep, nested_step h.nested hstep, ?_⟩
      · exact h.inOrder.configured.step hparses hstep
      · exact h.inOrder.started.step hstep
      · exact h.inOrder.sound.step h.inOrder.configured h.inOrder.started hstep
      · rw [exited_apply_of_pos (h.index_pos htask horigin) htask]
        exact h.running

/-- Only a client's operation holds the mutex. -/
theorem Live.holder_origin (h : s.Live toml) (htask : task ∈ s.tasks)
    (hholds : task.holdsMutations = true) : task.origin = .request := by
  have htyped := h.shaped task htask
  rw [Task.holdsMutations, Bool.or_eq_true] at hholds
  cases horigin : task.origin with
  | request => rfl
  | startup =>
      obtain ⟨pending, hat, _⟩ := h.inOrder.started.startup_at htask horigin
      generalize task.pc = pc at hat hholds
      generalize task.callers = callers at hat hholds
      cases hat with
      | started hstarted =>
          cases pc <;> simp_all [Pc.holdsMutations, Caller.holdsMutations, Pc.started, Pc.launches]
      | ensured hensures => cases pc <;> simp_all [Pc.holdsMutations, Caller.holdsMutations, Pc.ensures]
      | _ => simp [Pc.holdsMutations, Caller.holdsMutations] at hholds
  | recovery =>
      rw [Task.Shaped, horigin] at htyped
      obtain ⟨name, hat⟩ := htyped
      generalize task.pc = pc at hat hholds
      generalize task.callers = callers at hat hholds
      cases hat with
      | start delay hstarts =>
          cases pc <;> simp_all [Pc.holdsMutations, Caller.holdsMutations, Pc.starts, Pc.started, Pc.launches]
      | _ => simp [Pc.holdsMutations] at hholds
  | observer connection =>
      rw [Task.Shaped, horigin] at htyped
      obtain ⟨name, hobserves, hcallers⟩ := htyped
      rw [hcallers] at hholds
      generalize task.pc = pc at hobserves hholds
      cases pc <;> simp_all [Pc.holdsMutations, Pc.observes]

/-- The mutex is free once its holder has let it go. -/
theorem Live.free_of_released (h : s.Live toml) (htask : s.tasks[index]? = some task)
    (hholds : task.holdsMutations = true) {turn : Turn} (hturn : task.turn toml s.view .ok = some turn)
    (hreleased : Task.holdsMutations ⟨task.origin, turn.pc, turn.callers⟩ = false) :
    (s.apply toml index task turn).mutationsFree = true := by
  rw [mutationsFree, apply_tasks, List.all_eq_true]
  refine TaskPool.forall_advance ?_ ?_ ?_
  · rw [hreleased]
    rfl
  · intro position other hne hother
    rw [Bool.not_eq_true', ← Bool.not_eq_true]
    intro hother'
    exact hne (h.inOrder.configured.exclusive position index other task hother htask hother' hholds)
  · intro other hother
    rw [spawned_holdsMutations hturn hother]
    rfl

/-- The holder of the mutex, left to itself, releases it; the other tasks stay where they are. -/
theorem Live.releases (hparses : toml.ParsesBack) (h : s.Live toml) (htask : s.tasks[index]? = some task)
    (hholds : task.holdsMutations = true) :
    ∃ s', s.Proceeds toml s' ∧ s'.Live toml ∧ s'.mutationsFree = true ∧
      ∀ position other, position ≠ index → s.tasks[position]? = some other →
        s'.tasks[position]? = some other := by
  -- Every step of the holder takes one off what it has left.
  induction hleft : task.turnsLeft using Nat.strong_induction_on generalizing s task with
  | _ left ih =>
      have hmem := List.mem_of_getElem? htask
      have hnested := h.nested task hmem
      have hlocks : task.pc.locks = true → s.mutationsFree = true := by
        rw [hnested.not_locks hholds]
        exact fun h => absurd h Bool.false_ne_true
      rcases h.advance hparses htask (h.holder_origin hmem hholds) hlocks with
        ⟨result, hdone⟩ | ⟨turn, hturn, hproceeds, hlive, hless⟩
      · rw [Task.holdsMutations, hdone, hnested.outermost (by rw [hdone]; rfl)] at hholds
        cases hholds
      · have hself : (s.apply toml index task turn).tasks[index]? =
            some ⟨task.origin, turn.pc, turn.callers⟩ := TaskPool.getElem?_advance_self htask
        have hothers : ∀ position other, position ≠ index → s.tasks[position]? = some other →
            (s.apply toml index task turn).tasks[position]? = some other :=
          fun position other hne hother => TaskPool.getElem?_advance_of_ne hne hother
        by_cases hstill : Task.holdsMutations ⟨task.origin, turn.pc, turn.callers⟩ = true
        · obtain ⟨s', hrest, hlive', hfree, hkept⟩ := ih _ (hleft ▸ hless) hlive hself hstill rfl
          exact ⟨s', hproceeds.trans hrest, hlive', hfree,
            fun position other hne hother => hkept position other hne (hothers position other hne hother)⟩
        · exact ⟨_, hproceeds, hlive,
            h.free_of_released htask hholds hturn (Bool.eq_false_of_not_eq_true hstill), hothers⟩

/-- An operation that waits for the mutex gets it once its holder has been given its turns. -/
theorem Live.unlocked (hparses : toml.ParsesBack) (h : s.Live toml) (htask : s.tasks[index]? = some task) :
    ∃ t, s.Proceeds toml t ∧ t.Live toml ∧ t.tasks[index]? = some task ∧
      (task.pc.locks = true → t.mutationsFree = true) := by
  by_cases hfree : task.pc.locks = true → s.mutationsFree = true
  · exact ⟨s, .refl, h, htask, hfree⟩
  · obtain ⟨hlocks, hheld⟩ := Classical.not_imp.mp hfree
    obtain ⟨holder, hholder, hholds⟩ : ∃ holder ∈ s.tasks, holder.holdsMutations = true := by
      simpa [mutationsFree] using hheld
    obtain ⟨position, hposition⟩ := List.mem_iff_getElem?.mp hholder
    have hne : index ≠ position := by
      rintro rfl
      cases htask.symm.trans hposition
      exact absurd hlocks (by rw [(h.nested task hholder).not_locks hholds]; exact Bool.false_ne_true)
    obtain ⟨t, hproceeds, hlive, hfree, hkept⟩ := h.releases hparses hposition hholds
    exact ⟨t, hproceeds, hlive, hkept index task hne htask, fun _ => hfree⟩

/-- A client's operation, given its turn whenever it can take one, returns. -/
theorem Live.completes (hparses : toml.ParsesBack) (h : s.Live toml) (htask : s.tasks[index]? = some task)
    (horigin : task.origin = .request) :
    ∃ s' result, s.Proceeds toml s' ∧ (s'.tasks[index]?).map Task.pc = some (.done result) := by
  induction hleft : task.turnsLeft using Nat.strong_induction_on generalizing s task with
  | _ left ih =>
      obtain ⟨t, hproceeds, hlive, htask', hfree⟩ := h.unlocked hparses htask
      rcases hlive.advance hparses htask' horigin hfree with
        ⟨result, hdone⟩ | ⟨turn, hturn, hnext, hlive', hless⟩
      · exact ⟨t, result, hproceeds, by rw [htask', Option.map_some, hdone]⟩
      · obtain ⟨s', result, hrest, hresult⟩ := ih _ (hleft ▸ hless) hlive'
          (TaskPool.getElem?_advance_self htask') horigin rfl
        exact ⟨s', result, (hproceeds.trans hnext).trans hrest, hresult⟩

theorem Run.live {config : DaemonConfig} {file : String} {history : List (System × Label)}
    (hparses : toml.ParsesBack) (hfile : DaemonConfig.parse toml file = .ok config)
    (hrun : System.Run toml config file history s) (hexited : s.exited = false) : s.Live toml where
  inOrder := Run.inOrder hparses (validate_of_parse hfile) hfile hrun
  shaped := Shaped.run hrun
  nested := by
    have hstart : ∀ task ∈ (System.initial config file).tasks, task.Nested := by
      intro task htask
      rw [List.mem_singleton.mp htask]
      exact .of_nil ..
    have hstep : ∀ (t : System) (label : Label) (u : System), (∀ task ∈ t.tasks, task.Nested) → True →
        System.step toml t label = some u → ∀ task ∈ u.tasks, task.Nested :=
      fun _ _ _ ht _ hu => nested_step ht hu
    exact Trace.invariant hstart hstep hrun fun _ _ => trivial
  running := hexited

end System

/-- **Operations can complete**: in whatever state a run leaves the daemon, an operation of a client that has
not returned has a continuation in which it does, with steps of tasks alone: the operations do not
deadlock, and none is left to wait for a mutex that nobody will release. -/
theorem operation_completes {toml : Toml} {config : DaemonConfig} {file : String}
    {history : List (System × Label)} {s : System} {index : Nat} {task : Task}
    (hparses : toml.ParsesBack) (hfile : DaemonConfig.parse toml file = .ok config)
    (hrun : System.Run toml config file history s) (hexited : s.exited = false)
    (htask : s.tasks[index]? = some task) (horigin : task.origin = .request) :
    ∃ later s' result, Trace (System.step toml) s later s' ∧
      (∀ entry ∈ later, ∃ stepped, entry.2 = .task stepped .ok) ∧
      (s'.tasks[index]?).map Task.pc = some (.done result) := by
  have hlive := System.Run.live hparses hfile hrun hexited
  obtain ⟨s', result, ⟨later, htrace, htasks⟩, hdone⟩ := hlive.completes hparses htask horigin
  exact ⟨later, s', result, htrace, htasks, hdone⟩

/-- `tv` is being removed and its mpv asked to quit, while an `enable` waits for the mutex, as task 3. -/
def enableDuringRemove : List Label :=
  startAttached ++ .request (.remove "tv") :: List.replicate 3 (.task 2 .ok) ++ [.request (.enable "tv")]

/-- The `enable` can still complete. -/
theorem operation_completes_enableDuringRemove :
    ∃ history s, System.Run tvToml tvNode tvNode.toText history s ∧ s.mutationsFree = false ∧
      ∃ later s' result, Trace (System.step tvToml) s later s' ∧
        (∀ entry ∈ later, ∃ stepped, entry.2 = .task stepped .ok) ∧
        (s'.tasks[3]?).map Task.pc = some (.done result) := by
  have hlabels : (runChecked (System.step tvToml) (fun _ _ => true)
      (System.initial tvNode tvNode.toText) enableDuringRemove).any
        (fun s => !s.mutationsFree && !s.exited &&
          (s.tasks[3]?).any fun task => task.origin = .request) = true := by
    decide +kernel
  obtain ⟨history, s, hrun, _, _, hresult⟩ := System.exists_run hlabels
  simp only [Bool.and_eq_true, Bool.not_eq_true', Option.any_eq_true, decide_eq_true_eq] at hresult
  obtain ⟨⟨hheld, hup⟩, task, htask, horigin⟩ := hresult
  exact ⟨history, s, hrun, hheld,
    operation_completes tvToml_parsesBack tvNode_parse hrun hup htask horigin⟩

end MpvTargets

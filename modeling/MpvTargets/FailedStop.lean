import MpvTargets.OperationOutcomes

/-! A target that is disabled, removed or renamed after a `stop` that failed. `stop` marks its target as
stopped before mpv has quit, and keeps the mark when mpv does not; an operation that comes later takes a
stopped target for one that is off. -/

namespace MpvTargets

/-- The target an operation takes out of service when it succeeds. -/
def Request.retires : Request → Option String
  | disable name | remove name | rename name _ => some name
  | _ => none

/-- What a failed `stop` leaves behind: the target is marked as stopped, and its mpv is still there. -/
def Inner.stoppedOnline (inner : Inner) (name : String) : Bool :=
  (inner.targets.get? name).any fun target => target.stopped && target.online

/-- The target is offline, unless a failed `stop` had left it online before. -/
def Inner.OfflineUnless (before : Inner) (name : String) (now : Inner) : Prop :=
  System.online now name = false ↔ before.stoppedOnline name = false

namespace Task.Settles

section

variable {toml : Toml} {answers : Answers} {C : Inner → Prop} {Q : Inner → Task → Prop} {inner : Inner}
  {name : String} {origin : Origin}

theorem refused (hQ : ∀ after error, Q after ⟨origin, .done (.error error), []⟩)
    (error : SupervisorError) :
    Task.Settles toml answers C Q inner (.returned origin [] (.error error)) :=
  rest rfl (hQ _ _)

/-- `disable` from the `mutations` mutex on. -/
theorem persistDisable (hC : C inner)
    (hcommitted : ∀ external, answers (.persist name .disable) external = true → ∀ after task, Q after task) :
    Task.Settles toml answers C Q inner ⟨origin, .persistLock name .disable, []⟩ := by
  refine step rfl (fun hcommits => by cases hcommits) fun view external turn _ _ hturn => ?_
  obtain ⟨_, rfl⟩ := Task.acquire_eq_some hturn
  refine step rfl (fun _ => hC) fun view external turn _ hanswer hturn => ?_
  have hQ := hcommitted external hanswer
  simp only [Task.goto, Task.turn] at hturn
  split at hturn
  · cases hturn
    refine step rfl (fun hcommits => by cases hcommits) fun view external turn _ _ hturn => ?_
    simp only [Task.turn, Task.record, Task.read] at hturn
    split at hturn <;> cases hturn <;> exact rest rfl (hQ _ _)
  · cases hturn
    exact rest rfl (hQ _ _)
  · cases hturn
    exact rest rfl (hQ _ _)

/-- `remove` of a stopped target. -/
theorem removeStage (hC : C inner) (hfailed : ∀ after error, Q after ⟨origin, .done (.error error), []⟩)
    (hcommitted : ∀ candidate external, answers (.removeCommit name candidate) external = true →
      ∀ after task, Q after task) :
    Task.Settles toml answers C Q inner ⟨origin, .removeStage name, []⟩ := by
  refine step rfl (fun hcommits => by cases hcommits) fun view external turn _ _ hturn => ?_
  rcases Task.await_eq_some hturn with ⟨_, rfl⟩ | ⟨error, _, rfl⟩
  · refine step rfl (fun hcommits => by cases hcommits) fun view external turn _ _ hturn => ?_
    cases hturn
    refine step rfl (fun hcommits => by cases hcommits) fun view external turn _ _ hturn => ?_
    simp only [Task.turn, Task.goto] at hturn
    split at hturn
    · cases hturn
      exact refused hfailed _
    · cases hturn
      refine step rfl (fun _ => hC) fun view external turn _ hanswer hturn => ?_
      have hQ := hcommitted _ external hanswer
      cases hturn
      refine step rfl (fun hcommits => by cases hcommits) fun view external turn _ _ hturn => ?_
      rcases Task.await_eq_some hturn with ⟨_, rfl⟩ | ⟨error, _, rfl⟩
      · exact rest rfl (hQ _ _)
      · exact rest rfl (hQ _ _)
  · exact refused hfailed error

/-- `rename` moves a stopped target. -/
theorem renameLock {replacement : String}
    (hC : ∀ target, inner.targets.get? name = some target → target.stopped = true → C inner)
    (hfailed : ∀ after error, Q after ⟨origin, .done (.error error), []⟩)
    (hcommitted : ∀ candidate external, answers (.renameCommit name replacement candidate) external = true →
      ∀ after task, Q after task) :
    Task.Settles toml answers C Q inner ⟨origin, .renameLock name replacement, []⟩ := by
  refine step rfl (fun hcommits => by cases hcommits) fun view external turn _ _ hturn => ?_
  obtain ⟨_, rfl⟩ := Task.acquire_eq_some hturn
  change Task.Settles toml answers C Q inner ⟨origin, .renameCheck name replacement, []⟩
  refine step rfl (fun hcommits => by cases hcommits) fun view external turn hview _ hturn => ?_
  simp only [Task.turn, hview] at hturn
  cases hchecked : renameChecked inner name replacement with
  | error error =>
      rw [hchecked] at hturn
      cases hturn
      exact refused hfailed error
  | ok =>
      rw [hchecked] at hturn
      cases hturn
      obtain ⟨target, htarget, hstopped⟩ := renameChecked_stopped hchecked
      change Task.Settles toml answers C Q inner ⟨origin, .renameMove name replacement, []⟩
      refine step rfl (fun hcommits => by cases hcommits) fun view external turn _ _ hturn => ?_
      rcases Task.await_eq_some hturn with ⟨_, rfl⟩ | ⟨error, _, rfl⟩
      · refine step rfl (fun hcommits => by cases hcommits) fun view external turn _ _ hturn => ?_
        simp only [Task.turn, Task.goto] at hturn
        split at hturn
        · cases hturn
          exact refused hfailed _
        · cases hturn
          refine step rfl (fun hcommits => by cases hcommits) fun view external turn _ _ hturn => ?_
          simp only [Task.turn, Task.goto] at hturn
          split at hturn
          · cases hturn
            exact refused hfailed _
          · cases hturn
            refine step rfl (fun _ => hC target htarget hstopped) ?_
            intro view external turn hview hanswer hturn
            have hQ := hcommitted _ external hanswer
            change view.inner = inner at hview
            simp only [Task.turn, hview, htarget] at hturn
            cases hturn
            refine step rfl (fun hcommits => by cases hcommits) fun view external turn _ _ hturn => ?_
            simp only [Task.turn, Task.goto, Task.record, Task.read] at hturn
            split at hturn <;> cases hturn <;> exact rest rfl (hQ _ _)
      · exact refused hfailed error

/-- A name without a target is an error. -/
theorem unknown {pc : Pc} (hnone : inner.targets.get? name = none) (hrests : pc.rests = false)
    (hcommits : pc.commits = false)
    (hturn : ∀ view external, ∃ next, Task.turn toml view ⟨origin, pc, []⟩ external =
      some (Task.read ⟨origin, pc, []⟩ view name next))
    (hfailed : ∀ after error, Q after ⟨origin, .done (.error error), []⟩) :
    Task.Settles toml answers C Q inner ⟨origin, pc, []⟩ := by
  refine step hrests (fun h => ?_) fun view external turn hview _ hturn' => ?_
  · rw [hcommits] at h
    cases h
  obtain ⟨next, hnext⟩ := hturn view external
  rw [hnext, Task.read, hview, hnone] at hturn'
  cases hturn'
  exact refused hfailed _

/-- A target that is stopped keeps its mpv through `disable`, `remove` and `rename`; any other one is
offline before they commit. -/
theorem retires {request : Request} (hretires : request.retires = some name)
    (hfailed : ∀ after error, Q after ⟨.request, .done (.error error), []⟩)
    (hcommitted : ∀ pc external, pc.commits = true → answers pc external = true →
      ∀ after task, Q after task) :
    Task.Settles toml answers (inner.OfflineUnless name) Q inner request.task := by
  cases htarget : inner.targets.get? name with
  | none =>
      cases request with
      | disable other =>
          cases hretires
          exact unknown htarget rfl rfl (fun _ _ => ⟨_, rfl⟩) hfailed
      | remove other =>
          cases hretires
          refine step rfl (fun hcommits => by cases hcommits) fun view external turn _ _ hturn => ?_
          obtain ⟨_, rfl⟩ := Task.acquire_eq_some hturn
          exact unknown htarget rfl rfl (fun _ _ => ⟨_, rfl⟩) hfailed
      | rename other replacement =>
          cases hretires
          refine renameLock (fun target h => ?_) hfailed fun candidate external => hcommitted _ _ rfl
          rw [htarget] at h
          cases h
      | _ => cases hretires
  | some target =>
      have hstopped : target.stopped = true →
          inner.OfflineUnless name (inner.put name target) := by
        intro hstopped
        simp [Inner.OfflineUnless, System.online, Inner.stoppedOnline, htarget, hstopped]
      have hoff : target.stopped = false → ∀ off, target.Becomes true false off →
          inner.OfflineUnless name (inner.put name off) := by
        intro hrunning off hoff
        simp [Inner.OfflineUnless, System.online, Inner.stoppedOnline, htarget, hrunning, hoff.online]
      cases request with
      | disable other =>
          cases hretires
          exact of_put (disable (fun _ _ halted error _ _ => refused hfailed error)
            (fun hwas => persistDisable (hstopped hwas) fun external => hcommitted _ _ rfl)
            fun hwas off hbecomes => persistDisable (hoff hwas off hbecomes) fun external => hcommitted _ _ rfl)
            htarget
      | remove other =>
          cases hretires
          refine step rfl (fun hcommits => by cases hcommits) fun view external turn _ _ hturn => ?_
          obtain ⟨_, rfl⟩ := Task.acquire_eq_some hturn
          change Task.Settles toml answers _ Q inner ⟨.request, .removeCheck name, []⟩
          refine of_put (stopFirst (.removeStage name) (.removeStop name) rfl rfl (fun _ => rfl)
            (fun view _ hview => ?_) (fun _ => rfl) (fun _ => rfl)
            (fun _ _ halted error _ _ => refused hfailed error)
            (fun hwas => removeStage (hstopped hwas) hfailed fun candidate external => hcommitted _ _ rfl)
            fun hwas off hbecomes =>
              removeStage (hoff hwas off hbecomes) hfailed fun candidate external => hcommitted _ _ rfl) htarget
          simp only [Task.turn, Task.read, hview, Inner.get?_put_self]
      | rename other replacement =>
          cases hretires
          refine renameLock (fun found h hwas => ?_) hfailed fun candidate external => hcommitted _ _ rfl
          rw [htarget] at h
          cases h
          rw [Inner.put_eq_self htarget] at hstopped
          exact hstopped hwas
      | _ => cases hretires

end

end Task.Settles

/-- The task at `index` is about to disable, remove or rename a target. -/
def System.commitsAt (index : Nat) (s : System) : Bool :=
  (s.tasks[index]?).any fun task => task.pc.commits

/-- The task at `index` has returned without an error. -/
def System.returnedOk (index : Nat) (s : System) : Bool :=
  (s.tasks[index]?).any fun task => task.pc.returned? = some true

section

variable {toml : Toml} {answers : Answers} {config : DaemonConfig} {file name : String}
  {history : List (System × Episode)} {s before after : System} {request : Request}
  {externals : List External} {steps : List (System × Label)}

/-- A `disable`, `remove` or `rename` that succeeds has its target offline when it commits if and only if
its target was not both stopped and online when the operation began. -/
theorem retired_offline_iff (hrun : System.SequentialRun toml answers config file history s)
    (hentry : (before, Episode.operation request externals) ∈ history)
    (hretires : request.retires = some name) (hsteps : Trace (System.step toml) before steps after)
    (hlabels : steps.map Prod.snd = (Episode.operation request externals).labels before)
    (hok : after.returnedOk before.tasks.length = true) :
    (∀ commit ∈ steps, commit.1.commitsAt before.tasks.length = true →
        System.online commit.1.inner name = false) ↔
      before.inner.stoppedOnline name = false := by
  obtain ⟨hrest, next, hplay⟩ := hrun.plays hentry
  obtain ⟨begun, later, rfl, hbegun, htrace, hcond, hrest', rfl⟩ := System.play_steps hplay hsteps hlabels
  have hlone := System.lone_request hrest hbegun
  have hcommits : ∀ commit ∈ later, commit.1.commitsAt before.tasks.length = true →
      before.inner.OfflineUnless name commit.1.inner := by
    intro commit hcommit hat
    have hsettles : Task.Settles toml answers (before.inner.OfflineUnless name) (fun _ _ => True)
        before.inner request.task :=
      .retires hretires (fun _ _ => trivial) fun _ _ _ _ _ _ => trivial
    obtain ⟨left, right, rfl⟩ := List.append_of_mem hcommit
    obtain ⟨point, hpoint, hcommits, _⟩ := hsettles.of_trace hlone (htrace.split rfl).1
      fun entry hentry => hcond entry (List.mem_append_left _ hentry)
    rw [System.commitsAt, hpoint.task, Option.any_some] at hat
    rw [hpoint.inner]
    exact hcommits hat
  -- without a commit on the way, the operation ends in an error
  have hexists : ∃ commit ∈ later, commit.1.commitsAt before.tasks.length = true := by
    by_contra hnone
    have hsettles : Task.Settles toml (fun pc _ => !pc.commits) (before.inner.OfflineUnless name)
        (fun _ task => ∃ error, task.pc = .done (.error error)) before.inner request.task := by
      refine .retires hretires (fun _ error => ⟨error, rfl⟩) fun pc _ hcommits hanswer => ?_
      rw [hcommits] at hanswer
      cases hanswer
    obtain ⟨point, hpoint, _, hended⟩ := hsettles.of_trace hlone htrace fun entry hentry => by
      obtain ⟨external, hlabel, hproceeds⟩ := hcond entry hentry
      refine ⟨external, hlabel, ?_⟩
      rw [hlabel, System.proceeds, Bool.and_eq_true] at hproceeds ⊢
      refine ⟨hproceeds.1, (Option.all_eq_true _ _).mpr fun task htask => ?_⟩
      have hnot := fun hcommits => hnone ⟨entry, hentry, (Option.any_eq_true _ _).mpr ⟨task, htask, hcommits⟩⟩
      rw [Bool.not_eq_true', Bool.eq_false_iff]
      exact hnot
    rw [← hpoint.rests_of_atRest] at hrest'
    obtain ⟨error, herror⟩ := hended hrest'
    rw [System.returnedOk, hpoint.task, Option.any_some, herror] at hok
    cases hok
  have hfirst : System.commitsAt before.tasks.length before = false := by
    rw [System.commitsAt, List.getElem?_eq_none le_rfl]
    rfl
  constructor
  · intro hoffline
    obtain ⟨commit, hcommit, hat⟩ := hexists
    exact (hcommits commit hcommit hat).mp (hoffline commit (List.mem_cons_of_mem _ hcommit) hat)
  · intro hgood commit hcommit hat
    rcases List.mem_cons.mp hcommit with rfl | hcommit
    · rw [hfirst] at hat
      cases hat
    · exact (hcommits commit hcommit hat).mpr hgood

end

/-- `start tv` finds mpv running, and `stop tv` then comes back so. -/
def startedThenStopped (quit : External) (gone : List External) : List Episode :=
  [.operation (.start "tv") (List.replicate 5 .ok), .operation (.stop "tv") ([.ok, quit] ++ gone)]

/-- The episodes, then an operation taken apart at one of its steps. -/
theorem exists_retirement (episodes : List Episode) (request : Request) (left : List External)
    (external : External) (right : List External) (result : System → System → System → Bool)
    (h : (runChecked (System.play tvToml fun _ _ => true) (fun _ _ => true)
      (System.ready tvNode tvNode.toText) episodes).any (fun before =>
        (before.play tvToml (fun _ _ => true) (.operation request (left ++ external :: right))).isSome &&
        (runChecked (System.step tvToml) (fun _ _ => true) before
          (.request request :: left.map (.task before.tasks.length))).any (fun commit =>
            (runChecked (System.step tvToml) (fun _ _ => true) commit
              (.task before.tasks.length external :: right.map (.task before.tasks.length))).any
                (result before commit))) = true) :
    ∃ history s before steps after commit,
      System.SequentialRun tvToml (fun _ _ => true) tvNode tvNode.toText history s ∧
      (before, Episode.operation request (left ++ external :: right)) ∈ history ∧
      Trace (System.step tvToml) before steps after ∧
      steps.map Prod.snd = (Episode.operation request (left ++ external :: right)).labels before ∧
      (commit, .task before.tasks.length external) ∈ steps ∧ result before commit after = true := by
  obtain ⟨before, hbefore, h⟩ := (Option.any_eq_true _ _).mp h
  obtain ⟨hplays, h⟩ := Bool.and_eq_true_iff.mp h
  obtain ⟨commit, hcommit, h⟩ := (Option.any_eq_true _ _).mp h
  obtain ⟨after, hafter, hresult⟩ := (Option.any_eq_true _ _).mp h
  obtain ⟨history, hrun, _, _⟩ := exists_trace_of_runChecked hbefore
  obtain ⟨s, hplay⟩ := Option.isSome_iff_exists.mp hplays
  obtain ⟨earlier, hearlier, hlabels, _⟩ := exists_trace_of_runChecked hcommit
  obtain ⟨later, hlater, hlabels', _⟩ := exists_trace_of_runChecked hafter
  refine ⟨_, s, before, earlier ++ later, after, commit, hrun.tail hplay, by simp, hearlier.trans hlater,
    ?_, ?_, hresult⟩
  · rw [List.map_append, hlabels, hlabels']
    simp [Episode.labels, Episode.first, Episode.externals, Episode.index]
  · refine List.mem_append_right _ ?_
    cases later with
    | nil => cases hlabels'
    | cons entry rest =>
        obtain ⟨hlabel, _⟩ := List.cons.inj hlabels'
        have hfirst : entry.1 = commit := (hlater.split (List.nil_append _).symm).1.eq_of_nil rfl
        rw [← hfirst, ← hlabel]
        exact List.mem_cons_self

/-- A `disable` after a `stop` that mpv has obeyed. -/
theorem retired_offline_iff_disableTv : ∃ history s before externals steps after,
    System.SequentialRun tvToml (fun _ _ => true) tvNode tvNode.toText history s ∧
    (before, Episode.operation (.disable "tv") externals) ∈ history ∧
    Trace (System.step tvToml) before steps after ∧
    ∀ commit ∈ steps, commit.1.commitsAt before.tasks.length = true →
      System.online commit.1.inner "tv" = false := by
  obtain ⟨history, s, before, steps, after, commit, hrun, hentry, hsteps, hlabels, _, hresult⟩ :=
    exists_retirement (startedThenStopped .ok (List.replicate 4 .ok)) (.disable "tv") [.ok, .ok] .ok [.ok]
      (fun before _ after => after.returnedOk before.tasks.length && !before.inner.stoppedOnline "tv")
      (by decide +kernel)
  obtain ⟨hok, hgood⟩ := Bool.and_eq_true_iff.mp hresult
  exact ⟨history, s, before, _, steps, after, hrun, hentry, hsteps,
    (retired_offline_iff hrun hentry rfl hsteps hlabels hok).mpr (Bool.not_eq_true' _ ▸ hgood)⟩

/-- mpv has not obeyed the `stop`: `disable` succeeds with mpv online. -/
theorem disable_not_retired_offline : ∃ history s before request externals name steps after,
    System.SequentialRun tvToml (fun _ _ => true) tvNode tvNode.toText history s ∧
    (before, Episode.operation request externals) ∈ history ∧ request.retires = some name ∧
    Trace (System.step tvToml) before steps after ∧
    steps.map Prod.snd = (Episode.operation request externals).labels before ∧
    after.returnedOk before.tasks.length = true ∧
    ¬∀ commit ∈ steps, commit.1.commitsAt before.tasks.length = true →
      System.online commit.1.inner name = false := by
  obtain ⟨history, s, before, steps, after, commit, hrun, hentry, hsteps, hlabels, hcommit, hresult⟩ :=
    exists_retirement (startedThenStopped unavailable []) (.disable "tv") [.ok, .ok] .ok [.ok]
      (fun before commit after => after.returnedOk before.tasks.length &&
        commit.commitsAt before.tasks.length && System.online commit.inner "tv") (by decide +kernel)
  simp only [Bool.and_eq_true] at hresult
  obtain ⟨⟨hok, hat⟩, honline⟩ := hresult
  refine ⟨history, s, before, .disable "tv", _, "tv", steps, after, hrun, hentry, rfl, hsteps, hlabels, hok,
    fun hoffline => ?_⟩
  rw [hoffline _ hcommit hat] at honline
  cases honline

end MpvTargets

import MpvTargets.ConfigPersistence
import MpvTargets.FileReplacement

/-! `save_channel` among the other tasks of the daemon: its calls on the channel files one at a time, with
the steps of the daemon between them. The `mutations` mutex is held over all of them. -/

namespace MpvTargets

/-- How a call on the files ends; a write that fails has written some of its bytes. -/
inductive CallResult where
  | ok
  | failed (error : String) (written : Nat)
  deriving DecidableEq, Repr

inductive SavePhase where
  | createDirAll
  | check
  | create
  | write
  | sync
  | rename
  | remove (error : String)
  | done (result : Except SupervisorError Nat)

/-- A `save_channel` that has the playlist. -/
structure Saving where
  channel : String
  overwrite : Bool
  contents : Bytes
  items : Nat
  phase : SavePhase

namespace Saving

def start (channel : String) (overwrite : Bool) (playlist : Value) : Saving :=
  match playlistM3u playlist with
  | .error error => ⟨channel, overwrite, [], 0, .done (.error error)⟩
  | .ok (contents, items) => ⟨channel, overwrite, Utf8.encode contents.toList, items, .createDirAll⟩

variable (saving : Saving)

def goto (phase : SavePhase) : Saving := { saving with phase }

def fail (error : String) : Saving := saving.goto (.done (.error (.config error)))

/-- The next call, with the files after it. -/
def step (directories : Directories) (createdMode : Nat) (result : CallResult) (files : Files) :
    Option (Saving × Files) :=
  let path := directories.channelPath saving.channel
  let temporary := directories.channelStaging saving.channel
  match saving.phase, result with
  | .createDirAll, .ok => some (saving.goto .check, files)
  | .createDirAll, .failed error _ => some (saving.fail error, files)
  | .check, _ =>
      if !saving.overwrite && (files path).isSome then
        some (saving.goto (.done (.error (.channelExists saving.channel))), files)
      else some (saving.goto .create, files)
  | .create, .failed error _ => some (saving.fail error, files)
  | .create, .ok =>
      if (files temporary).isSome then some (saving.fail "File exists (os error 17)", files)
      else some (saving.goto .write, files.set temporary (some ⟨[], createdMode⟩))
  | .write, .ok =>
      some (saving.goto .sync,
        files.set temporary ((files temporary).map fun file => { file with contents := saving.contents }))
  | .write, .failed error written =>
      some (saving.goto (.remove error),
        files.set temporary ((files temporary).map fun file =>
          { file with contents := saving.contents.take written }))
  | .sync, .ok => some (saving.goto .rename, files)
  | .sync, .failed error _ => some (saving.goto (.remove error), files)
  | .rename, .failed error _ => some (saving.goto (.remove error), files)
  | .rename, .ok =>
      match files temporary with
      | none => some (saving.goto (.remove "No such file or directory (os error 2)"), files)
      | some file =>
          some (saving.goto (.done (.ok saving.items)),
            (files.set path (some file)).set temporary none)
  | .remove error, _ => some (saving.fail error, files.set temporary none)
  | .done _, _ => none

/-- The files change only at the temporary, and at the channel when the temporary takes its place. -/
theorem step_files {directories : Directories} {createdMode : Nat} {result : CallResult}
    {files files' : Files} {saving' : Saving}
    (h : saving.step directories createdMode result files = some (saving', files')) {path : List Char}
    (htemporary : path ≠ directories.channelStaging saving.channel)
    (hchannel : saving.phase = .rename → path ≠ directories.channelPath saving.channel) :
    files' path = files path := by
  have hset : ∀ file, (files.set (directories.channelStaging saving.channel) file) path = files path :=
    fun file => Files.set_of_ne htemporary ..
  unfold step at h
  dsimp only at h
  split at h
  case h_11 hphase =>
    split at h
    · cases h
      rfl
    · cases h
      rw [Files.set_of_ne htemporary, Files.set_of_ne (hchannel hphase)]
  all_goals first
    | cases h <;> rfl
    | cases h <;> exact hset _
    | split at h <;> cases h <;> first | rfl | exact hset _

/-- A save keeps to its channel and to its choice. -/
theorem step_channel {directories : Directories} {createdMode : Nat} {result : CallResult}
    {files files' : Files} {saving' : Saving}
    (h : saving.step directories createdMode result files = some (saving', files')) :
    saving'.channel = saving.channel ∧ saving'.overwrite = saving.overwrite := by
  unfold step at h
  dsimp only at h
  split at h <;> first
    | cases h <;> exact ⟨rfl, rfl⟩
    | split at h <;> cases h <;> exact ⟨rfl, rfl⟩

end Saving

/-- How the call of a phase ends where at most one call fails. -/
def FileWorld.callResult (world : FileWorld) (phase : SavePhase) : CallResult :=
  let ended (step : FileStep) : CallResult :=
    (world.error? step).elim .ok fun error => .failed error (world.failure.elim 0 FileFailure.written)
  match phase with
  | .createDirAll => ended .createDirAll
  | .create => ended .create
  | .write => ended .write
  | .sync => ended .sync
  | .rename => ended .rename
  | .check | .remove _ | .done _ => .ok

/-- The calls one after another, with nothing between them. -/
def Saving.alone (world : FileWorld) (directories : Directories) :
    Nat → Saving × Files → Saving × Files
  | 0, ended => ended
  | count + 1, (saving, files) =>
      match saving.step directories world.createdMode (world.callResult saving.phase) files with
      | none => (saving, files)
      | some next => alone world directories count next

section

variable {world : FileWorld} {directories : Directories} {saving : Saving} {files : Files}

/-- From the creation of the temporary on. -/
theorem Saving.alone_replace (hphase : saving.phase = .write) {temporary path : List Char}
    (htemporary : directories.channelStaging saving.channel = temporary)
    (hpath : directories.channelPath saving.channel = path) (mode : Nat) :
    alone world directories 4 (saving, files.set temporary (some ⟨[], mode⟩)) =
      match ((world.writeAll temporary saving.contents (files.set temporary (some ⟨[], mode⟩))).andThen
          world.syncAll).andThen (world.rename temporary path) with
      | (some error, files) => (saving.fail error, FileWorld.removeFile temporary files)
      | (none, files) => (saving.goto (.done (.ok saving.items)), files) := by
  unfold FileWorld.writeAll FileWorld.syncAll FileWorld.rename
  cases hwrite : world.error? .write with
  | some error =>
      simp [alone, step, hphase, FileWorld.callResult, hwrite, goto, fail, htemporary, Attempt.andThen,
        FileWorld.removeFile]
  | none =>
      cases hsync : world.error? .sync with
      | some error =>
          simp [alone, step, hphase, FileWorld.callResult, hwrite, hsync, goto, fail, htemporary,
            Attempt.andThen, FileWorld.removeFile]
      | none =>
          cases hrename : world.error? .rename with
          | some error =>
              simp [alone, step, hphase, FileWorld.callResult, hwrite, hsync, hrename, goto, fail,
                htemporary, Attempt.andThen, FileWorld.removeFile]
          | none =>
              simp [alone, step, hphase, FileWorld.callResult, hwrite, hsync, hrename, goto, htemporary,
                hpath, Attempt.andThen, Files.set_self]

/-- The calls of a save are those of `save_channel`. -/
theorem saveChannel_eq_alone (world : FileWorld) (directories : Directories) (files : Files)
    (channel : String) (overwrite : Bool) (playlist : Value) :
    (Saving.alone world directories 7 (.start channel overwrite playlist, files)).1.phase =
        .done (world.saveChannel directories channel overwrite playlist files).1 ∧
      (Saving.alone world directories 7 (.start channel overwrite playlist, files)).2 =
        (world.saveChannel directories channel overwrite playlist files).2 := by
  unfold FileWorld.saveChannel FileWorld.createDirAll FileWorld.createNew Saving.start
  cases playlistM3u playlist with
  | error error => exact ⟨rfl, rfl⟩
  | ok written =>
      obtain ⟨contents, items⟩ := written
      dsimp only
      cases hdirectory : world.error? .createDirAll with
      | some error =>
          simp [Saving.alone, Saving.step, FileWorld.callResult, hdirectory, Saving.fail, Saving.goto]
      | none =>
          by_cases hexists : (!overwrite && (files (directories.channelPath channel)).isSome) = true
          · simp [Saving.alone, Saving.step, FileWorld.callResult, hdirectory, hexists, Saving.goto]
          · cases hcreate : world.error? .create with
            | some error =>
                simp [Saving.alone, Saving.step, FileWorld.callResult, hdirectory, hexists, hcreate,
                  Saving.fail, Saving.goto]
            | none =>
                by_cases htemporary : (files (directories.channelStaging channel)).isSome = true
                · simp [Saving.alone, Saving.step, FileWorld.callResult, hdirectory, hexists, hcreate,
                    htemporary, Saving.fail, Saving.goto]
                · have hbegun : Saving.alone world directories 7
                      (⟨channel, overwrite, Utf8.encode contents.toList, items, .createDirAll⟩, files) =
                      Saving.alone world directories 4
                        (⟨channel, overwrite, Utf8.encode contents.toList, items, .write⟩,
                          files.set (directories.channelStaging channel) (some ⟨[], world.createdMode⟩)) := by
                    simp [Saving.alone, Saving.step, FileWorld.callResult, hdirectory, hexists, hcreate,
                      htemporary, Saving.goto]
                  rw [hbegun, Saving.alone_replace rfl rfl rfl]
                  dsimp only
                  rw [if_neg hexists, if_neg htemporary]
                  dsimp only
                  generalize ((world.writeAll _ _ _).andThen world.syncAll).andThen _ = attempt
                  obtain ⟨_ | error, left⟩ := attempt <;> exact ⟨rfl, rfl⟩

end

/-! ### The daemon with its channel files -/

/-- The daemon, the channel files, and the calls of the `save_channel` of the task at each place. The files
the other operations write are not channels, and lie elsewhere. -/
structure SavingDaemon where
  system : System
  files : Files
  saving : Nat → Option Saving

inductive SavingLabel where
  | daemon (label : Label)
  | start (index : Nat) (channel : String) (overwrite : Bool) (playlist : Value)
  | file (index : Nat) (result : CallResult)

/-- The task stands at the section of `save_channel` that works on the files. -/
def Task.saves (task : Task) : Bool :=
  match task.pc with
  | .saveWrite _ => true
  | _ => false

/-- A finished save tells its task how it went. -/
def Saving.Reports (saving : Saving) (external : External) : Prop :=
  match saving.phase with
  | .done (.ok _) => external = .ok
  | .done (.error error) => external = .failed error
  | _ => False

namespace SavingDaemon

variable (daemon : SavingDaemon)

def task? (index : Nat) : Option Task := daemon.system.tasks[index]?

/-- A step of the daemon with its channel files. -/
inductive Step (toml : Toml) (directories : Directories) (createdMode : Nat) :
    SavingDaemon → SavingLabel → SavingDaemon → Prop where
  | saved {daemon : SavingDaemon} {system : System} {index : Nat} {external : External} {task : Task}
      {saving : Saving} (htask : daemon.task? index = some task) (hsaves : task.saves = true)
      (hsaving : daemon.saving index = some saving) (hreports : saving.Reports external)
      (hstep : System.step toml daemon.system (.task index external) = some system) :
      Step toml directories createdMode daemon (.daemon (.task index external))
        { daemon with system, saving := Function.update daemon.saving index none }
  | other {daemon : SavingDaemon} {system : System} {label : Label}
      (hother : ∀ index external task, label = .task index external → daemon.task? index = some task →
        task.saves = false)
      (hstep : System.step toml daemon.system label = some system) :
      Step toml directories createdMode daemon (.daemon label) { daemon with system }
  | start {daemon : SavingDaemon} {index : Nat} {task : Task} {channel : String} {overwrite : Bool}
      {playlist : Value} (htask : daemon.task? index = some task) (hsaves : task.saves = true)
      (hsaving : daemon.saving index = none) (hchannel : Protocol.validChannelName channel = true) :
      Step toml directories createdMode daemon (.start index channel overwrite playlist)
        { daemon with saving := Function.update daemon.saving index (some (.start channel overwrite playlist)) }
  | file {daemon : SavingDaemon} {index : Nat} {result : CallResult} {saving saving' : Saving}
      {files : Files} (hsaving : daemon.saving index = some saving)
      (hstep : saving.step directories createdMode result daemon.files = some (saving', files)) :
      Step toml directories createdMode daemon (.file index result)
        { daemon with files, saving := Function.update daemon.saving index (some saving') }

/-- Runs from the start of the daemon, with any channel files. -/
inductive Run (toml : Toml) (directories : Directories) (createdMode : Nat) (config : DaemonConfig)
    (file : String) : SavingDaemon → Prop where
  | initial (files : Files) :
      Run toml directories createdMode config file ⟨System.initial config file, files, fun _ => none⟩
  | step {daemon daemon' : SavingDaemon} {label : SavingLabel}
      (hrun : Run toml directories createdMode config file daemon)
      (hstep : Step toml directories createdMode daemon label daemon') :
      Run toml directories createdMode config file daemon'

end SavingDaemon

/-- From the check on, a save that must not overwrite knows that there is no such channel. -/
def Saving.Clear (directories : Directories) (files : Files) (saving : Saving) : Prop :=
  match saving.phase with
  | .create | .write | .sync | .rename =>
      saving.overwrite = false → files (directories.channelPath saving.channel) = none
  | _ => True

/-- The invariant: savings belong to tasks at their section, which hold the mutex. -/
structure SavingDaemon.Sound (directories : Directories) (daemon : SavingDaemon) : Prop where
  exclusive : daemon.system.Exclusive
  owned : ∀ index saving, daemon.saving index = some saving →
    ∃ task, daemon.task? index = some task ∧ task.saves = true
  valid : ∀ index saving, daemon.saving index = some saving →
    Protocol.validChannelName saving.channel = true
  clear : ∀ index saving, daemon.saving index = some saving → saving.Clear directories daemon.files

section

variable {toml : Toml} {directories : Directories} {createdMode : Nat} {config : DaemonConfig}
  {file : String} {daemon daemon' : SavingDaemon} {label : SavingLabel}

theorem Task.holdsMutations_of_saves {task : Task} (h : task.saves = true) :
    task.holdsMutations = true := by
  rw [Task.holdsMutations, Bool.or_eq_true]
  unfold saves at h
  split at h
  · rename_i hpc
    rw [hpc]
    exact Or.inl rfl
  · cases h

/-- Only one task is saving at a time. -/
theorem SavingDaemon.Sound.unique (h : daemon.Sound directories) {index other : Nat} {saving saving' : Saving}
    (hsaving : daemon.saving index = some saving) (hother : daemon.saving other = some saving') :
    index = other := by
  obtain ⟨task, htask, hsaves⟩ := h.owned index saving hsaving
  obtain ⟨task', htask', hsaves'⟩ := h.owned other saving' hother
  exact h.exclusive index other task task' htask htask' (Task.holdsMutations_of_saves hsaves)
    (Task.holdsMutations_of_saves hsaves')

/-- A step of the daemon leaves every task at its place but the one whose turn it is. -/
theorem System.step_getElem? {s s' : System} {label : Label} (hstep : System.step toml s label = some s')
    {index : Nat} {task : Task} (htask : s.tasks[index]? = some task)
    (hother : ∀ external, label ≠ .task index external) : s'.tasks[index]? = some task := by
  rcases System.step_cases hstep with
    ⟨place, external, turning, turn, rfl, _, _, _, rfl⟩ | ⟨request, rfl, _, rfl⟩ | ⟨rfl, _, rfl⟩
  · exact TaskPool.getElem?_advance_of_ne (fun heq => hother external (by rw [heq])) htask
  · exact (List.getElem?_append_left (List.getElem?_eq_some_iff.mp htask).1).trans htask
  · exact htask

/-- A temporary is no channel: it has no such extension. -/
theorem channelStaging_ne_channelPath (directories : Directories) {saved channel : String}
    (hsaved : Protocol.validChannelName saved = true) (hchannel : Protocol.validChannelName channel = true) :
    directories.channelPath channel ≠ directories.channelStaging saved := by
  have hstaging : UnixPath.Ordinary (directories.savingName saved) :=
    ordinary_savingName (ordinary_of_validChannelName hsaved)
  intro heq
  have hname := UnixPath.name_eq_of_join_eq (ordinary_of_validChannelName hchannel) hstaging heq
  have hextension : UnixPath.extension (directories.savingName saved) =
      some (temporaryExtension directories.pid) := by
    have hjoin : UnixPath.extension (UnixPath.join [] (directories.savingName saved)) =
        if '.' :: saved.toList = [] then none else some (temporaryExtension directories.pid) :=
      UnixPath.extension_join [] hstaging (not_mem_temporaryExtension directories.pid)
    rw [if_neg (List.cons_ne_nil _ _)] at hjoin
    rwa [← FilePath.text_ofJoin [] hstaging] at hjoin
  rw [Protocol.validChannelName, Bool.and_eq_true, hname, hasChannelExtension, hextension] at hchannel
  have hlower := hchannel.2
  simp only [temporaryExtension, List.map_append, Bool.or_eq_true, beq_iff_eq] at hlower
  have hhead : ("tmp-".toList.map Char.toLower ++ directories.pid.repr.toList.map Char.toLower).head? =
      some 't' := rfl
  rcases hlower with h | h
  · rw [h] at hhead
    exact absurd hhead (by decide +kernel)
  · rw [h] at hhead
    exact absurd hhead (by decide +kernel)

theorem Saving.Clear.step {saving saving' : Saving} {result : CallResult} {files files' : Files}
    (h : saving.Clear directories files) (hvalid : Protocol.validChannelName saving.channel = true)
    (hstep : saving.step directories createdMode result files = some (saving', files')) :
    saving'.Clear directories files' := by
  have hne := (channelStaging_ne directories hvalid).symm
  have hkept : ∀ file, (files.set (directories.channelStaging saving.channel) file)
      (directories.channelPath saving.channel) = files (directories.channelPath saving.channel) :=
    fun file => Files.set_of_ne hne ..
  unfold Saving.Clear at h
  unfold Saving.step at hstep
  dsimp only at hstep
  cases hphase : saving.phase with
  | createDirAll =>
      rw [hphase] at hstep
      cases result <;> cases hstep <;> trivial
  | check =>
      rw [hphase] at hstep
      dsimp only at hstep
      split_ifs at hstep with hexists <;> cases hstep
      · trivial
      · intro hoverwrite
        simp only [Bool.and_eq_true, Bool.not_eq_true', Option.isSome_iff_ne_none, not_and, not_not]
          at hexists
        exact hexists hoverwrite
  | create =>
      rw [hphase] at h hstep
      cases result with
      | ok =>
          dsimp only at hstep
          split_ifs at hstep <;> cases hstep
          · trivial
          · exact fun hoverwrite => (hkept _).trans (h hoverwrite)
      | failed error written =>
          cases hstep
          trivial
  | write =>
      rw [hphase] at h hstep
      cases result <;> cases hstep
      · exact fun hoverwrite => (hkept _).trans (h hoverwrite)
      · trivial
  | sync =>
      rw [hphase] at h hstep
      cases result <;> cases hstep
      · exact h
      · trivial
  | rename =>
      rw [hphase] at hstep
      cases result with
      | ok =>
          dsimp only at hstep
          split at hstep <;> cases hstep <;> trivial
      | failed error written =>
          cases hstep
          trivial
  | remove error =>
      rw [hphase] at hstep
      cases hstep
      trivial
  | done result =>
      rw [hphase] at hstep
      cases hstep

/-- A new save is before its check, or has ended. -/
theorem Saving.start_cases (channel : String) (overwrite : Bool) (playlist : Value) :
    (Saving.start channel overwrite playlist).channel = channel ∧
      (Saving.start channel overwrite playlist).overwrite = overwrite ∧
      ((Saving.start channel overwrite playlist).phase = .createDirAll ∨
        ∃ error, (Saving.start channel overwrite playlist).phase = .done (.error error)) := by
  unfold start
  split
  · exact ⟨rfl, rfl, Or.inr ⟨_, rfl⟩⟩
  · exact ⟨rfl, rfl, Or.inl rfl⟩

/-- What holds of every save still does when one of them is replaced. -/
theorem forall_update {savings : Nat → Option Saving} {place : Nat} {next : Option Saving}
    {P : Nat → Saving → Prop} (hothers : ∀ index saving, savings index = some saving → P index saving)
    (hnext : ∀ saving, next = some saving → P place saving) :
    ∀ index saving, Function.update savings place next index = some saving → P index saving := by
  intro index saving hsaving
  by_cases hindex : index = place
  · rw [hindex, Function.update_self] at hsaving
    exact hindex ▸ hnext saving hsaving
  · rw [Function.update_of_ne hindex] at hsaving
    exact hothers index saving hsaving

theorem SavingDaemon.Sound.step (h : daemon.Sound directories)
    (hstep : SavingDaemon.Step toml directories createdMode daemon label daemon') :
    daemon'.Sound directories := by
  cases hstep with
  | @saved system index external task saving htask hsaves hsaving hreports hstep =>
      refine ⟨h.exclusive.step hstep, ?_, ?_, ?_⟩
      · intro place saved hsaved
        dsimp only at hsaved
        have hplace : place ≠ index := by
          rintro rfl
          rw [Function.update_self] at hsaved
          cases hsaved
        rw [Function.update_of_ne hplace] at hsaved
        exact absurd (h.unique hsaved hsaving) hplace
      · exact forall_update h.valid nofun
      · exact forall_update h.clear nofun
  | @other system label hother hstep =>
      refine ⟨h.exclusive.step hstep, ?_, h.valid, h.clear⟩
      intro index saving hsaving
      obtain ⟨task, htask, hsaves⟩ := h.owned index saving hsaving
      refine ⟨task, System.step_getElem? hstep htask ?_, hsaves⟩
      rintro external rfl
      rw [hother index external task rfl htask] at hsaves
      cases hsaves
  | @start index task channel overwrite playlist htask hsaves hsaving hchannel =>
      obtain ⟨hname, _, hphase⟩ := Saving.start_cases channel overwrite playlist
      refine ⟨h.exclusive, forall_update h.owned ?_, forall_update h.valid ?_, forall_update h.clear ?_⟩
      · exact fun _ _ => ⟨task, htask, hsaves⟩
      · rintro saving ⟨⟩
        rwa [hname]
      · rintro saving ⟨⟩
        unfold Saving.Clear
        rcases hphase with hphase | ⟨error, hphase⟩ <;> rw [hphase] <;> trivial
  | @file index result saving saving' files hsaving hstep =>
      have hvalid := h.valid index saving hsaving
      have hsame := Saving.step_channel saving hstep
      refine ⟨h.exclusive, forall_update h.owned ?_, forall_update h.valid ?_, ?_⟩
      · exact fun _ _ => h.owned index saving hsaving
      · rintro saved ⟨⟩
        rwa [hsame.1]
      · intro place saved hsaved
        dsimp only at hsaved
        by_cases hplace : place = index
        · rw [hplace, Function.update_self] at hsaved
          cases hsaved
          exact (h.clear index saving hsaving).step hvalid hstep
        · rw [Function.update_of_ne hplace] at hsaved
          exact absurd (h.unique hsaved hsaving) hplace

theorem SavingDaemon.Run.sound (hrun : SavingDaemon.Run toml directories createdMode config file daemon) :
    daemon.Sound directories := by
  induction hrun with
  | initial files => exact ⟨TaskPool.AtMostOne.singleton _ _, nofun, nofun, nofun⟩
  | step hrun hstep ih => exact ih.step hstep

/-- A channel that exists changes only in the renaming of a save that was asked to overwrite it. -/
theorem SavingDaemon.Sound.channel_kept (h : daemon.Sound directories)
    (hstep : SavingDaemon.Step toml directories createdMode daemon label daemon') {channel : String}
    {old : RegularFile} (hchannel : Protocol.validChannelName channel = true)
    (hold : daemon.files (directories.channelPath channel) = some old) :
    daemon'.files (directories.channelPath channel) = some old ∨
      ∃ index result saving, label = .file index result ∧ daemon.saving index = some saving ∧
        saving.channel = channel ∧ saving.overwrite = true := by
  cases hstep with
  | saved => exact Or.inl hold
  | other => exact Or.inl hold
  | start => exact Or.inl hold
  | @file index result saving saving' files hsaving hstep =>
      have hvalid := h.valid index saving hsaving
      by_cases hsame : saving.channel = channel ∧ saving.overwrite = true
      · exact Or.inr ⟨index, result, saving, rfl, hsaving, hsame⟩
      · refine Or.inl (Eq.trans ?_ hold)
        refine saving.step_files hstep (channelStaging_ne_channelPath directories hvalid hchannel) ?_
        intro hphase hpath
        have hname := UnixPath.name_eq_of_join_eq (ordinary_of_validChannelName hchannel)
          (ordinary_of_validChannelName hvalid) hpath
        have hclear := h.clear index saving hsaving
        rw [Saving.Clear, hphase] at hclear
        rw [not_and, Bool.not_eq_true] at hsame
        rw [hpath, hclear (hsame (String.toList_injective hname).symm)] at hold
        cases hold

/-- Exactly the calls that leave the temporary of `atomic_write` do not replace their file; and in every run
of the daemon a channel that exists changes only in a save that was asked to overwrite it. -/
theorem file_replacement_iff (toml : Toml) (world : FileWorld) (replacement : Replacement) (before : Files) :
    (Files.Replaced replacement.destination (replacement.temporary world.pid)
        (replacement.newFile toml world.createdMode) before (replacement.run toml world before) ↔
      ¬replacement.Leaves world before) ∧
    ∀ (directories : Directories) (createdMode : Nat) (config : DaemonConfig) (file : String)
      (daemon daemon' : SavingDaemon) (label : SavingLabel),
      SavingDaemon.Run toml directories createdMode config file daemon →
      SavingDaemon.Step toml directories createdMode daemon label daemon' →
      ∀ (channel : String) (old : RegularFile), Protocol.validChannelName channel = true →
        daemon.files (directories.channelPath channel) = some old →
        daemon'.files (directories.channelPath channel) = some old ∨
          ∃ index result saving, label = .file index result ∧ daemon.saving index = some saving ∧
            saving.channel = channel ∧ saving.overwrite = true :=
  ⟨replacement.replaced_iff,
    fun _ _ _ _ _ _ _ hrun hstep _ _ hchannel hold => hrun.sound.channel_kept hstep hchannel hold⟩

end

/-- Whether a label leaves the saving tasks where they are. -/
def Label.sparesSaves (s : System) : Label → Bool
  | .task index _ => (s.tasks[index]?).all fun task => !task.saves
  | .request _ | .subscribe => true

/-- Labels of the daemon in which no save ends, accepted one after another. -/
theorem SavingDaemon.Run.of_checked {toml : Toml} {directories : Directories} {createdMode : Nat}
    {config : DaemonConfig} {file : String} {daemon : SavingDaemon} {labels : List Label} {s : System}
    (hrun : SavingDaemon.Run toml directories createdMode config file daemon)
    (h : runChecked (System.step toml) Label.sparesSaves daemon.system labels = some s) :
    SavingDaemon.Run toml directories createdMode config file { daemon with system := s } := by
  induction labels generalizing daemon with
  | nil =>
      cases h
      exact hrun
  | cons label rest ih =>
      rw [runChecked] at h
      split at h
      · rename_i hspares
        obtain ⟨t, hstep, hrest⟩ := Option.bind_eq_some_iff.mp h
        have hother : SavingDaemon.Step toml directories createdMode daemon (.daemon label)
            { daemon with system := t } := by
          refine .other ?_ hstep
          rintro index external task rfl htask
          rw [Label.sparesSaves, show daemon.system.tasks[index]? = some task from htask, Option.all_some,
            Bool.not_eq_true'] at hspares
          exact hspares
        have hnext := ih (hrun.step hother) hrest
        exact hnext
      · cases h

/-- The configuration of a deployment, whose synchronization fails. -/
def failedSync : FileWorld where
  pid := 7
  createdMode := 0o644
  failure := some ⟨.sync, 0, "Input/output error (os error 5)"⟩

def tvConfigPath : FilePath :=
  .ofJoin "/etc/mpv-targets".toList "mpv-targets.toml".toList
    (ordinary_of_mem_deployedNames (by decide +kernel))

theorem tvConfigPath_deployed : String.ofList tvConfigPath.name ∈ deployedNames := by
  decide +kernel

/-- The `atomic_write` of that configuration. -/
def tvConfigWrite : Replacement :=
  .atomicWrite tvConfigPath (Utf8.encode tvNode.toText.toList) none tvConfigPath_deployed

def newsDirectories : Directories where
  configRoot := "/etc/mpv-targets".toList
  runtimeRoot := "/run/user/1000/mpv-targets".toList
  logsDirectory := "/var/log/mpv-targets".toList
  pid := 7

def newsFile : RegularFile := ⟨Utf8.encode "#EXTM3U\nnews.mp4\n".toList, 0o644⟩

/-- The one file is the channel `news.m3u`. -/
def newsFiles : Files :=
  Files.set (fun _ => none) (newsDirectories.channelPath "news.m3u") (some newsFile)

/-- The playlist to be saved under that name. -/
def weatherPlaylist : Value := .array [.object [("filename", .string "weather.mp4")]]

def newsSaving (phase : SavePhase) : Saving :=
  ⟨"news.m3u", false, Utf8.encode "#EXTM3U\nweather.mp4\n".toList, 1, phase⟩

/-- The one save is that of task 2. -/
def newsSavings (phase : SavePhase) : Nat → Option Saving :=
  Function.update (fun _ => none) 2 (some (newsSaving phase))

/-- The running `tv` has given its playlist to task 2. -/
def savingNews : List Label := startAttached ++ .request (.saveChannel "tv") :: List.replicate 3 (.task 2 .ok)

/-- Meanwhile it is stopped. -/
def stoppingMeanwhile : List Label := [.request (.stop "tv"), .task 3 .ok]

/-- The playlist of the running `tv` is to be saved as `news.m3u`, which exists: the save, task 2, ends at
its check. And a synchronization that fails leaves a temporary. -/
theorem file_replacement_iff_news :
    ¬Files.Replaced tvConfigWrite.destination (tvConfigWrite.temporary 7) (tvConfigWrite.newFile tvToml 0o644)
      (fun _ => none) (tvConfigWrite.run tvToml failedSync fun _ => none) ∧
    ∃ daemon daemon', SavingDaemon.Run tvToml newsDirectories 0o644 tvNode tvNode.toText daemon ∧
      daemon.saving 2 = some (newsSaving .check) ∧
      SavingDaemon.Step tvToml newsDirectories 0o644 daemon (.file 2 .ok) daemon' ∧
      daemon'.saving 2 = some (newsSaving (.done (.error (.channelExists "news.m3u")))) ∧
      daemon'.files (newsDirectories.channelPath "news.m3u") = some newsFile := by
  obtain ⟨hreplaced, hkept⟩ := file_replacement_iff tvToml failedSync tvConfigWrite fun _ => none
  refine ⟨fun h => hreplaced.mp h ⟨rfl, _, rfl, rfl⟩, ?_⟩
  have hlabels : ((runChecked (System.step tvToml) Label.sparesSaves (System.initial tvNode tvNode.toText)
      savingNews).bind fun s => ((s.tasks[2]?).filter Task.saves).bind fun _ =>
        runChecked (System.step tvToml) Label.sparesSaves s stoppingMeanwhile).isSome = true := by
    decide +kernel
  obtain ⟨later, hlater⟩ := Option.isSome_iff_exists.mp hlabels
  obtain ⟨s, hs, hlater⟩ := Option.bind_eq_some_iff.mp hlater
  obtain ⟨task, htask, hlater⟩ := Option.bind_eq_some_iff.mp hlater
  obtain ⟨htask, hsaves⟩ := Option.filter_eq_some_iff.mp htask
  have hstart : SavingDaemon.Step tvToml newsDirectories 0o644 ⟨s, newsFiles, fun _ => none⟩
      (.start 2 "news.m3u" false weatherPlaylist) ⟨s, newsFiles, newsSavings .createDirAll⟩ :=
    .start htask hsaves rfl (by decide +kernel)
  have hcall : ∀ {phase phase' : SavePhase},
      (newsSaving phase).step newsDirectories 0o644 .ok newsFiles = some (newsSaving phase', newsFiles) →
      SavingDaemon.Step tvToml newsDirectories 0o644 ⟨later, newsFiles, newsSavings phase⟩ (.file 2 .ok)
        ⟨later, newsFiles, newsSavings phase'⟩ := by
    intro phase phase' hstep
    have hfile : SavingDaemon.Step tvToml newsDirectories 0o644 ⟨later, newsFiles, newsSavings phase⟩
        (.file 2 .ok) ⟨later, newsFiles, Function.update (newsSavings phase) 2 (some (newsSaving phase'))⟩ :=
      .file rfl hstep
    rwa [newsSavings, Function.update_idem] at hfile
  have hbegun := ((SavingDaemon.Run.initial newsFiles).of_checked hs).step hstart
  have hchecking := (hbegun.of_checked hlater).step (hcall rfl)
  have hcheck := hcall
    (show (newsSaving .check).step newsDirectories 0o644 .ok newsFiles = some (_, newsFiles) from rfl)
  have hfile := hkept newsDirectories 0o644 tvNode tvNode.toText _ _ _ hchecking hcheck "news.m3u" newsFile
    (by decide +kernel) rfl
  refine ⟨_, _, hchecking, rfl, hcheck, rfl, hfile.resolve_right ?_⟩
  rintro ⟨_, _, saving, ⟨⟩, hsaving, _, hoverwrite⟩
  have hsame : newsSaving .check = saving := Option.some.inj hsaving
  rw [← hsame] at hoverwrite
  cases hoverwrite

/-- A deployment whose configuration cannot be synchronized leaves the temporary. -/
theorem atomicWrite_not_replaced :
    ¬∀ (toml : Toml) (world : FileWorld) (replacement : Replacement) (before : Files),
      Files.Replaced replacement.destination (replacement.temporary world.pid)
        (replacement.newFile toml world.createdMode) before (replacement.run toml world before) := by
  intro h
  have hreplaced := h tvToml failedSync tvConfigWrite fun _ => none
  exact (Replacement.replaced_iff _).mp hreplaced ⟨rfl, _, rfl, rfl⟩

end MpvTargets

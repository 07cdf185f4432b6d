import MpvTargets.Deployment
import MpvTargets.Library.Utf8
import MpvTargets.SavedChannels
import Mathlib.Logic.Function.Basic

/-! The three routines that replace a file: a temporary is written beside it and renamed over it. One step
of a routine may fail, and a write may fail half way; the removal of a temporary does not fail. -/

namespace MpvTargets

structure RegularFile where
  contents : Bytes
  mode : Nat
  deriving DecidableEq, Repr

abbrev Files := List Char → Option RegularFile

namespace Files

def set (files : Files) (path : List Char) (file : Option RegularFile) : Files :=
  Function.update files path file

theorem set_self (files : Files) (path : List Char) (file : Option RegularFile) :
    files.set path file path = file :=
  Function.update_self ..

theorem set_of_ne {path other : List Char} (h : other ≠ path) (files : Files) (file : Option RegularFile) :
    files.set path file other = files other :=
  Function.update_of_ne h ..

theorem set_set (files : Files) (path : List Char) (file later : Option RegularFile) :
    (files.set path file).set path later = files.set path later :=
  Function.update_idem ..

theorem set_comm {path other : List Char} (h : path ≠ other) (files : Files)
    (file later : Option RegularFile) :
    (files.set path file).set other later = (files.set other later).set path file :=
  Function.update_comm h ..

theorem set_eq_self {files : Files} {path : List Char} {file : Option RegularFile}
    (h : files path = file) : files.set path file = files := by
  rw [← h]
  exact Function.update_eq_self ..

end Files

/-- The calls a routine makes. -/
inductive FileStep where
  | createDirAll
  | create
  | write
  | sync
  | chmod
  | rename
  deriving DecidableEq, Repr

/-- The call that fails, with how much a failed write has written. -/
structure FileFailure where
  step : FileStep
  written : Nat
  error : String
  deriving DecidableEq, Repr

/-- The process, the mode of the files it creates, and the call that fails. -/
structure FileWorld where
  pid : Nat
  createdMode : Nat
  failure : Option FileFailure

/-- How a call ends, and the files after it. -/
abbrev Attempt := Option String × Files

/-- `and_then`: the next call is made if the one before it has succeeded. -/
def Attempt.andThen (attempt : Attempt) (next : Files → Attempt) : Attempt :=
  match attempt with
  | (none, files) => next files
  | (some error, files) => (some error, files)

namespace FileWorld

variable (world : FileWorld)

/-- The error of a call, if it is the one that fails. -/
def error? (step : FileStep) : Option String :=
  world.failure.bind fun failure => if failure.step = step then some failure.error else none

def createDirAll (files : Files) : Attempt := (world.error? .createDirAll, files)

/-- `open` with `create_new`. -/
def createNew (path : List Char) (files : Files) : Attempt :=
  match world.error? .create with
  | some error => (some error, files)
  | none =>
      if (files path).isSome then (some "File exists (os error 17)", files)
      else (none, files.set path (some ⟨[], world.createdMode⟩))

def writeAll (path : List Char) (contents : Bytes) (files : Files) : Attempt :=
  let fill (contents : Bytes) := files.set path ((files path).map fun file => { file with contents })
  match world.error? .write with
  | some error => (some error, fill (contents.take (world.failure.elim 0 FileFailure.written)))
  | none => (none, fill contents)

def syncAll (files : Files) : Attempt := (world.error? .sync, files)

def setPermissions (path : List Char) (mode : Nat) (files : Files) : Attempt :=
  match world.error? .chmod with
  | some error => (some error, files)
  | none => (none, files.set path ((files path).map fun file => { file with mode }))

def rename (source destination : List Char) (files : Files) : Attempt :=
  match world.error? .rename with
  | some error => (some error, files)
  | none =>
      match files source with
      | none => (some "No such file or directory (os error 2)", files)
      | some file => (none, (files.set destination (some file)).set source none)

def removeFile (path : List Char) (files : Files) : Files := files.set path none

end FileWorld

/-- `tmp-{pid}`. -/
def temporaryExtension (pid : Nat) : List Char := "tmp-".toList ++ pid.repr.toList

theorem temporaryExtension_no_slash (pid : Nat) : '/' ∉ temporaryExtension pid := by
  rw [temporaryExtension, List.mem_append, not_or]
  exact ⟨by decide +kernel, not_mem_pid (by decide) pid⟩

theorem not_mem_temporaryExtension (pid : Nat) : '.' ∉ temporaryExtension pid := by
  rw [temporaryExtension, List.mem_append, not_or]
  exact ⟨by decide +kernel, not_mem_pid (by decide) pid⟩

theorem mem_temporaryExtension (pid : Nat) : 't' ∈ temporaryExtension pid :=
  List.mem_append_left _ (by decide +kernel)

/-- The extension of `atomic_write`'s temporary. -/
def atomicExtension (pid : Nat) : FileExtension where
  text := temporaryExtension pid
  no_slash := temporaryExtension_no_slash pid
  not_dots := ⟨'t', mem_temporaryExtension pid, by decide⟩

/-- The extension of `persist_config`'s temporary. -/
def persistExtension (pid : Nat) : FileExtension where
  text := "toml.".toList ++ temporaryExtension pid
  no_slash := by
    rw [List.mem_append, not_or]
    exact ⟨by decide +kernel, temporaryExtension_no_slash pid⟩
  not_dots := ⟨'t', List.mem_append_right _ (mem_temporaryExtension pid), by decide⟩

namespace FileWorld

variable (world : FileWorld)

/-- `Supervisor::persist_config`. -/
def persistConfig (toml : Toml) (configPath : FilePath) (config : DaemonConfig) (files : Files) :
    Except SupervisorError Unit × Files :=
  match toml.toStringPretty config with
  | none => (.error .configSerialization, files)
  | some source =>
      let temporary := (configPath.withExtension (persistExtension world.pid)).text
      match world.createNew temporary files with
      | (some error, files) => (.error (.config error), files)
      | (none, files) =>
          let attempt := ((world.writeAll temporary (Utf8.encode source.toList) files).andThen
            world.syncAll).andThen (world.rename temporary configPath.text)
          match attempt with
          | (some error, files) => (.error (.config error), removeFile temporary files)
          | (none, files) => (.ok (), files)

/-- `Supervisor::save_channel`, once the playlist has been read. -/
def saveChannel (directories : Directories) (channel : String) (overwrite : Bool) (playlist : Value)
    (files : Files) : Except SupervisorError Nat × Files :=
  match playlistM3u playlist with
  | .error error => (.error error, files)
  | .ok (contents, items) =>
      match world.createDirAll files with
      | (some error, files) => (.error (.config error), files)
      | (none, files) =>
          let path := directories.channelPath channel
          if !overwrite && (files path).isSome then (.error (.channelExists channel), files)
          else
            let temporary := directories.channelStaging channel
            match world.createNew temporary files with
            | (some error, files) => (.error (.config error), files)
            | (none, files) =>
                let attempt := ((world.writeAll temporary (Utf8.encode contents.toList) files).andThen
                  world.syncAll).andThen (world.rename temporary path)
                match attempt with
                | (some error, files) => (.error (.config error), removeFile temporary files)
                | (none, files) => (.ok items, files)

/-- `atomic_write` of `deploy-targets`. A write or a change of the mode that fails leaves the temporary. -/
def atomicWrite (path : FilePath) (contents : Bytes) (mode : Option Nat) (files : Files) :
    Except DeployError Unit × Files :=
  let temporary := (path.withExtension (atomicExtension world.pid)).text
  match world.createNew temporary files with
  | (some error, files) => (.error (.output temporary error), files)
  | (none, files) =>
      match (world.writeAll temporary contents files).andThen world.syncAll with
      | (some error, files) => (.error (.output temporary error), files)
      | (none, files) =>
          match mode.elim (none, files) fun mode => world.setPermissions temporary mode files with
          | (some error, files) => (.error (.output temporary error), files)
          | (none, files) =>
              match world.rename temporary path.text files with
              | (some error, files) => (.error (.output path.text error), removeFile temporary files)
              | (none, files) => (.ok (), files)

end FileWorld

section

variable {world : FileWorld} {files : Files} {temporary path : List Char} {contents : Bytes}

theorem FileWorld.createNew_cases (world : FileWorld) (path : List Char) (files : Files) :
    (∃ error, world.createNew path files = (some error, files) ∧
      (world.error? .create = none → files path ≠ none)) ∨
    (world.error? .create = none ∧ files path = none ∧
      world.createNew path files = (none, files.set path (some ⟨[], world.createdMode⟩))) := by
  unfold createNew
  cases hcreate : world.error? .create with
  | some error => exact Or.inl ⟨error, rfl, nofun⟩
  | none =>
      dsimp only
      cases hfile : files path with
      | some file => exact Or.inl ⟨_, rfl, fun _ => nofun⟩
      | none => exact Or.inr ⟨rfl, rfl, rfl⟩

/-- The temporary has the new contents, or the write or the synchronization has failed. -/
theorem FileWorld.writeSync_cases (world : FileWorld) (files : Files) (temporary : List Char)
    (contents : Bytes) (mode : Nat) :
    (world.error? .write = none ∧ world.error? .sync = none ∧
      (world.writeAll temporary contents (files.set temporary (some ⟨[], mode⟩))).andThen world.syncAll =
        (none, files.set temporary (some ⟨contents, mode⟩))) ∨
    ((world.error? .write).isSome || (world.error? .sync).isSome) = true ∧ ∃ error left,
      (world.writeAll temporary contents (files.set temporary (some ⟨[], mode⟩))).andThen world.syncAll =
        (some error, files.set temporary (some left)) := by
  unfold writeAll syncAll
  simp only [Files.set_self, Option.map_some]
  cases hwrite : world.error? .write with
  | some error =>
      dsimp only [Attempt.andThen]
      rw [Files.set_set]
      exact Or.inr ⟨rfl, error, _, rfl⟩
  | none =>
      dsimp only [Attempt.andThen]
      rw [Files.set_set]
      cases hsync : world.error? .sync with
      | some error => exact Or.inr ⟨rfl, error, _, rfl⟩
      | none => exact Or.inl ⟨rfl, rfl, rfl⟩

/-- The file takes its place and the temporary is gone, or the renaming has failed. -/
theorem FileWorld.rename_cases (world : FileWorld) (hne : temporary ≠ path) (hnone : files temporary = none)
    (file : RegularFile) :
    (world.error? .rename = none ∧ world.rename temporary path (files.set temporary (some file)) =
      (none, files.set path (some file))) ∨
    (∃ error, world.error? .rename = some error ∧
      world.rename temporary path (files.set temporary (some file)) =
        (some error, files.set temporary (some file))) := by
  unfold rename
  cases hrename : world.error? .rename with
  | some error => exact Or.inr ⟨error, rfl, rfl⟩
  | none =>
      dsimp only
      rw [Files.set_self]
      dsimp only
      rw [Files.set_comm hne, Files.set_set, ← Files.set_comm hne, Files.set_eq_self hnone]
      exact Or.inl ⟨rfl, rfl⟩

theorem FileWorld.removeFile_set (hnone : files temporary = none) (file : Option RegularFile) :
    removeFile temporary (files.set temporary file) = files := by
  rw [removeFile, Files.set_set, Files.set_eq_self hnone]

/-- The closure of `persist_config` and `save_channel`, with the removal after it. -/
theorem FileWorld.replace_cases (world : FileWorld) (hne : temporary ≠ path)
    (hnone : files temporary = none) (contents : Bytes) (mode : Nat) :
    (((world.writeAll temporary contents (files.set temporary (some ⟨[], mode⟩))).andThen
        world.syncAll).andThen (world.rename temporary path) = (none, files.set path (some ⟨contents, mode⟩))) ∨
    ∃ error left, ((world.writeAll temporary contents (files.set temporary (some ⟨[], mode⟩))).andThen
        world.syncAll).andThen (world.rename temporary path) = (some error, left) ∧
      removeFile temporary left = files := by
  rcases world.writeSync_cases files temporary contents mode with ⟨_, _, h⟩ | ⟨_, error, left, h⟩
  · rw [h, Attempt.andThen]
    rcases world.rename_cases hne hnone ⟨contents, mode⟩ with ⟨_, hrename⟩ | ⟨error, _, hrename⟩
    · exact Or.inl hrename
    · exact Or.inr ⟨error, _, hrename, removeFile_set hnone _⟩
  · rw [h]
    exact Or.inr ⟨error, _, rfl, removeFile_set hnone _⟩

end

/-! ### Replacements -/

/-- The names of the files a deployment writes. -/
def deployedNames : List String :=
  ["mpv.conf", "server.crt", "server.key", "mpv-targets.toml", "mpv-targetsd",
    "mpv-targets-wait-hyprland", "mpv-targets.service"]

/-- A call of one of the three routines. -/
inductive Replacement where
  | persistConfig (configPath : FilePath) (config : DaemonConfig)
  | saveChannel (directories : Directories) (channel : String) (overwrite : Bool) (playlist : Value)
      (hchannel : Protocol.validChannelName channel = true)
  | atomicWrite (path : FilePath) (contents : Bytes) (mode : Option Nat)
      (hpath : String.ofList path.name ∈ deployedNames)

namespace Replacement

variable (replacement : Replacement)

def destination : List Char :=
  match replacement with
  | persistConfig configPath _ => configPath.text
  | saveChannel directories channel _ _ _ => directories.channelPath channel
  | atomicWrite path _ _ _ => path.text

def temporary (pid : Nat) : List Char :=
  match replacement with
  | persistConfig configPath _ => (configPath.withExtension (persistExtension pid)).text
  | saveChannel directories channel _ _ _ => directories.channelStaging channel
  | atomicWrite path _ _ _ => (path.withExtension (atomicExtension pid)).text

/-- The new file, if there is one to be written. -/
def newFile (toml : Toml) (createdMode : Nat) : Option RegularFile :=
  match replacement with
  | persistConfig _ config =>
      (toml.toStringPretty config).map fun source => ⟨Utf8.encode source.toList, createdMode⟩
  | saveChannel _ _ _ playlist _ =>
      (playlistM3u playlist).toOption.map fun written => ⟨Utf8.encode written.1.toList, createdMode⟩
  | atomicWrite _ contents mode _ => some ⟨contents, mode.getD createdMode⟩

/-- Whether the call succeeds, and the files after it. -/
def run (toml : Toml) (world : FileWorld) (files : Files) : Bool × Files :=
  match replacement with
  | persistConfig configPath config =>
      let (result, files) := world.persistConfig toml configPath config files
      (result.isOk, files)
  | saveChannel directories channel overwrite playlist _ =>
      let (result, files) := world.saveChannel directories channel overwrite playlist files
      (result.isOk, files)
  | atomicWrite path contents mode _ =>
      let (result, files) := world.atomicWrite path contents mode files
      (result.isOk, files)

end Replacement

/-- A success puts the new file in place and a failure leaves the old one; no temporary stays behind, and
no other file changes. -/
structure Files.Replaced (destination temporary : List Char) (file : Option RegularFile) (before : Files)
    (result : Bool × Files) : Prop where
  written : result.1 = true → file.isSome = true ∧ result.2 destination = file
  kept : result.1 = false → result.2 destination = before destination
  removed : result.2 temporary = before temporary
  others : ∀ other, other ≠ destination → other ≠ temporary → result.2 other = before other

section

variable {toml : Toml} {world : FileWorld} {before : Files} {destination temporary : List Char}

theorem Files.Replaced.of_success (hne : temporary ≠ destination) (file : RegularFile) :
    Files.Replaced destination temporary (some file) before (true, before.set destination (some file)) where
  written _ := ⟨rfl, Files.set_self ..⟩
  kept := nofun
  removed := Files.set_of_ne hne ..
  others _ hother _ := Files.set_of_ne hother ..

theorem Files.Replaced.of_failure (file : Option RegularFile) :
    Files.Replaced destination temporary file before (false, before) where
  written := nofun
  kept _ := rfl
  removed := rfl
  others _ _ _ := rfl

theorem mem_persistExtension (pid : Nat) : '.' ∈ (persistExtension pid).text :=
  List.mem_append_left _ (by decide +kernel)

theorem FileWorld.persistConfig_replaced (configPath : FilePath) (config : DaemonConfig) :
    Files.Replaced configPath.text (configPath.withExtension (persistExtension world.pid)).text
      ((toml.toStringPretty config).map fun source => ⟨Utf8.encode source.toList, world.createdMode⟩) before
      ((world.persistConfig toml configPath config before).1.isOk,
        (world.persistConfig toml configPath config before).2) := by
  have hne := configPath.withExtension_text_ne_of_dot (mem_persistExtension world.pid)
  unfold persistConfig
  cases toml.toStringPretty config with
  | none => exact .of_failure _
  | some source =>
      dsimp only [Option.map_some]
      generalize (configPath.withExtension (persistExtension world.pid)).text = temporary at hne
      rcases world.createNew_cases temporary before with ⟨error, hcreate, _⟩ | ⟨_, hnone, hcreate⟩
      · rw [hcreate]
        exact .of_failure _
      · rw [hcreate]
        dsimp only
        rcases world.replace_cases hne hnone (Utf8.encode source.toList) world.createdMode with
          hdone | ⟨error, left, hfailed, hremoved⟩
        · rw [hdone]
          exact .of_success hne _
        · rw [hfailed]
          dsimp only
          rw [hremoved]
          exact .of_failure _

theorem channelStaging_ne (directories : Directories) {channel : String}
    (h : Protocol.validChannelName channel = true) :
    directories.channelStaging channel ≠ directories.channelPath channel := by
  have hordinary := ordinary_of_validChannelName h
  intro heq
  have hname := UnixPath.name_eq_of_join_eq (ordinary_savingName hordinary) hordinary heq
  have hlength := congrArg List.length hname
  rw [Directories.savingName, List.cons_append, List.length_cons, List.length_append] at hlength
  omega

theorem FileWorld.saveChannel_replaced (world : FileWorld) (before : Files) (directories : Directories)
    {channel : String} (overwrite : Bool)
    (playlist : Value) (hchannel : Protocol.validChannelName channel = true) :
    Files.Replaced (directories.channelPath channel) (directories.channelStaging channel)
      ((playlistM3u playlist).toOption.map fun written =>
        ⟨Utf8.encode written.1.toList, world.createdMode⟩) before
      ((world.saveChannel directories channel overwrite playlist before).1.isOk,
        (world.saveChannel directories channel overwrite playlist before).2) := by
  have hne := channelStaging_ne directories hchannel
  unfold saveChannel
  cases playlistM3u playlist with
  | error error => exact .of_failure _
  | ok written =>
      obtain ⟨contents, items⟩ := written
      dsimp only [Except.toOption, Option.map_some]
      unfold createDirAll
      cases world.error? .createDirAll with
      | some error => exact .of_failure _
      | none =>
          dsimp only
          split_ifs
          · exact .of_failure _
          · rcases world.createNew_cases (directories.channelStaging channel) before with
              ⟨error, hcreate, _⟩ | ⟨_, hnone, hcreate⟩
            · rw [hcreate]
              exact .of_failure _
            · rw [hcreate]
              dsimp only
              rcases world.replace_cases hne hnone (Utf8.encode contents.toList) world.createdMode with
                hdone | ⟨error, left, hfailed, hremoved⟩
              · rw [hdone]
                exact .of_success hne _
              · rw [hfailed]
                dsimp only
                rw [hremoved]
                exact .of_failure _

theorem withExtension_atomic_ne {path : FilePath} (h : String.ofList path.name ∈ deployedNames) (pid : Nat) :
    (path.withExtension (atomicExtension pid)).text ≠ path.text := by
  have hnames : (deployedNames.all fun name => ¬".tmp-".toList <:+: name.toList) = true := by
    decide +kernel
  refine path.withExtension_text_ne fun hname => ?_
  have hfree := List.all_eq_true.mp hnames _ h
  rw [decide_eq_true_eq, String.toList_ofList] at hfree
  refine hfree ⟨UnixPath.fileStem path.name, pid.repr.toList, ?_⟩
  rw [List.append_assoc, String.toList_ofList]
  exact hname.symm

/-- The steps whose failure `atomic_write` does not clean up after. -/
def FileStep.leavesTemporary (mode : Option Nat) : FileStep → Bool
  | write | sync => true
  | chmod => mode.isSome
  | createDirAll | create | rename => false

/-- The call creates its temporary and leaves it behind. -/
def Replacement.Leaves (world : FileWorld) (before : Files) : Replacement → Prop
  | atomicWrite path _ mode _ =>
      before (path.withExtension (atomicExtension world.pid)).text = none ∧
        ∃ failure, world.failure = some failure ∧ failure.step.leavesTemporary mode = true
  | persistConfig _ _ | saveChannel _ _ _ _ _ => False

theorem FileWorld.error?_eq_some {step : FileStep} {error : String} (h : world.error? step = some error) :
    ∃ failure, world.failure = some failure ∧ failure.step = step := by
  obtain ⟨failure, hfailure, hstep⟩ := Option.bind_eq_some_iff.mp h
  exact ⟨failure, hfailure, (Option.ite_none_right_eq_some.mp hstep).1⟩

theorem FileWorld.error?_of_failure {failure : FileFailure} (h : world.failure = some failure) :
    world.error? failure.step = some failure.error := by
  rw [error?, h, Option.bind_some, if_pos rfl]

/-- `atomic_write` replaces the file except when it leaves its temporary. -/
theorem FileWorld.atomicWrite_replaced_iff (path : FilePath) (contents : Bytes) (mode : Option Nat)
    (hpath : String.ofList path.name ∈ deployedNames) :
    Files.Replaced path.text (path.withExtension (atomicExtension world.pid)).text
        (some ⟨contents, mode.getD world.createdMode⟩) before
        ((world.atomicWrite path contents mode before).1.isOk,
          (world.atomicWrite path contents mode before).2) ↔
      ¬(Replacement.atomicWrite path contents mode hpath).Leaves world before := by
  have hne := withExtension_atomic_ne hpath world.pid
  unfold Replacement.Leaves atomicWrite
  dsimp only
  generalize (path.withExtension (atomicExtension world.pid)).text = temporary at hne
  have hleft : ∀ {result : Except DeployError Unit} {left : RegularFile}, before temporary = none →
      ¬Files.Replaced path.text temporary (some ⟨contents, mode.getD world.createdMode⟩) before
        (result.isOk, before.set temporary (some left)) := by
    intro result left hnone hreplaced
    have hremoved := hreplaced.removed
    dsimp only at hremoved
    rw [Files.set_self, hnone] at hremoved
    cases hremoved
  have hsingle : ∀ {step : FileStep} {error : String}, world.error? step = some error →
      step.leavesTemporary mode = false → ∀ failure, world.failure = some failure →
        failure.step.leavesTemporary mode ≠ true := by
    intro step error herror hstep failure hfailure
    obtain ⟨other, hother, rfl⟩ := error?_eq_some herror
    rw [Option.some.inj (hfailure.symm.trans hother), hstep]
    exact Bool.false_ne_true
  rcases world.createNew_cases temporary before with ⟨error, hcreate, hexists⟩ | ⟨hcreated, hnone, hcreate⟩
  · rw [hcreate]
    refine iff_of_true (.of_failure _) ?_
    rintro ⟨hnone, failure, hfailure, hleaves⟩
    cases hcreated : world.error? .create with
    | none => exact hexists hcreated hnone
    | some error => exact hsingle hcreated rfl failure hfailure hleaves
  · rw [hcreate]
    dsimp only
    rcases world.writeSync_cases before temporary contents world.createdMode with
      ⟨hwrite, hsync, hwritten⟩ | ⟨hfails, error, left, hfailed⟩
    · have hclean : (mode.isSome = true → world.error? .chmod = none) →
          ¬(before temporary = none ∧
            ∃ failure, world.failure = some failure ∧ failure.step.leavesTemporary mode = true) := by
        rintro hchmod ⟨_, failure, hfailure, hleaves⟩
        have herror := error?_of_failure hfailure
        cases hstep : failure.step <;> rw [hstep] at hleaves herror
        case write => exact nomatch hwrite.symm.trans herror
        case sync => exact nomatch hsync.symm.trans herror
        case chmod => exact nomatch (hchmod hleaves).symm.trans herror
        all_goals exact nomatch hleaves
      have hrenamed : ∀ file : RegularFile, file = ⟨contents, mode.getD world.createdMode⟩ →
          Files.Replaced path.text temporary (some ⟨contents, mode.getD world.createdMode⟩) before
            (let result := match world.rename temporary path.text (before.set temporary (some file)) with
              | (some error, files) => (Except.error (DeployError.output path.text error),
                  removeFile temporary files)
              | (none, files) => (.ok (), files)
            (result.1.isOk, result.2)) := by
        rintro file rfl
        rcases world.rename_cases hne hnone ⟨contents, mode.getD world.createdMode⟩ with
          ⟨_, hrename⟩ | ⟨error, _, hrename⟩
        · rw [hrename]
          exact .of_success hne _
        · rw [hrename]
          dsimp only
          rw [removeFile_set hnone]
          exact .of_failure _
      rw [hwritten]
      dsimp only
      cases mode with
      | none => exact iff_of_true (hrenamed _ rfl) (hclean nofun)
      | some mode =>
          dsimp only [Option.elim, Option.getD_some]
          unfold setPermissions
          cases hchmod : world.error? .chmod with
          | some error =>
              obtain ⟨failure, hfailure, hstep⟩ := error?_eq_some hchmod
              exact iff_of_false (hleft hnone) (not_not.mpr ⟨hnone, failure, hfailure, by rw [hstep]; rfl⟩)
          | none =>
              dsimp only
              rw [Files.set_self, Files.set_set]
              exact iff_of_true (hrenamed _ rfl) (hclean fun _ => hchmod)
    · rw [hfailed]
      refine iff_of_false (hleft hnone) (not_not.mpr ⟨hnone, ?_⟩)
      rw [Bool.or_eq_true, Option.isSome_iff_exists, Option.isSome_iff_exists] at hfails
      rcases hfails with ⟨_, herror⟩ | ⟨_, herror⟩
      · obtain ⟨failure, hfailure, hstep⟩ := error?_eq_some herror
        exact ⟨failure, hfailure, by rw [hstep]; rfl⟩
      · obtain ⟨failure, hfailure, hstep⟩ := error?_eq_some herror
        exact ⟨failure, hfailure, by rw [hstep]; rfl⟩

/-- Each of the three routines replaces its file, or it is `atomic_write` and leaves its temporary. -/
theorem Replacement.replaced_iff (replacement : Replacement) :
    Files.Replaced replacement.destination (replacement.temporary world.pid)
        (replacement.newFile toml world.createdMode) before (replacement.run toml world before) ↔
      ¬replacement.Leaves world before := by
  cases replacement with
  | persistConfig configPath config =>
      exact iff_of_true (FileWorld.persistConfig_replaced configPath config) not_false
  | saveChannel directories channel overwrite playlist hchannel =>
      exact iff_of_true (world.saveChannel_replaced before directories overwrite playlist hchannel) not_false
  | atomicWrite path contents mode hpath =>
      exact FileWorld.atomicWrite_replaced_iff path contents mode hpath

end

section

variable {toml : Toml} {plan : Plan} {path logsDirectory unitPath daemonPath helperPath : List Char}
  {contents : FileContents} {mode : Option Nat}

/-- A path below a directory, whose last component is known. -/
def FilePath.below (base inner name : List Char) (hinner : inner.getLast? = some '/')
    (h : UnixPath.Ordinary name) : FilePath where
  directory := UnixPath.join base inner
  name := name
  slash := Or.inr (by rw [UnixPath.getLast?_join (by rintro rfl; cases hinner), hinner])
  ordinary := h

theorem FilePath.text_below (base name : List Char) {inner : List Char} (hinner : inner.getLast? = some '/')
    (h : UnixPath.Ordinary name) :
    (below base inner name hinner h).text = UnixPath.join base (inner ++ name) := by
  have hne : inner ≠ [] := by
    rintro rfl
    cases hinner
  unfold text below UnixPath.join
  rw [UnixPath.isAbsolute_append hne]
  split_ifs
  · rfl
  · simp
  · simp

/-- The path of a file whose name is one of a deployment's. -/
def IsDeployed (path : List Char) : Prop :=
  ∃ file : FilePath, file.text = path ∧ String.ofList file.name ∈ deployedNames

theorem ordinary_of_mem_deployedNames {name : String} (h : name ∈ deployedNames) :
    UnixPath.Ordinary name.toList := by
  have hnames : (deployedNames.all fun name => UnixPath.fileName name.toList == some name.toList) = true := by
    decide +kernel
  exact UnixPath.ordinary_of_fileName (beq_iff_eq.mp (List.all_eq_true.mp hnames name h))

theorem isDeployed_of_name (file : FilePath) {name : String} (htext : file.text = path)
    (hname : file.name = name.toList) (h : name ∈ deployedNames) : IsDeployed path :=
  ⟨file, htext, by rwa [hname, String.ofList_toList]⟩

theorem isDeployed_join (base : List Char) {name : String} (hname : name ∈ deployedNames) :
    IsDeployed (UnixPath.join base name.toList) :=
  isDeployed_of_name _ (FilePath.text_ofJoin base (ordinary_of_mem_deployedNames hname)) rfl hname

theorem isDeployed_below (base : List Char) {inner name : String} (hinner : inner.toList.getLast? = some '/')
    (hname : name ∈ deployedNames) : IsDeployed (UnixPath.join base (inner.toList ++ name.toList)) :=
  isDeployed_of_name _
    (FilePath.text_below base name.toList hinner (ordinary_of_mem_deployedNames hname)) rfl hname

theorem isDeployed_of_createParent (h : FileCall.atomicWrite path contents mode ∈ Plan.createParent unitPath) :
    IsDeployed path := by
  simp only [Plan.createParent, Option.mem_toList, Option.map_eq_some_iff] at h
  obtain ⟨parent, _, hcall⟩ := h
  cases hcall

theorem Plan.layoutCalls_isDeployed
    (h : FileCall.atomicWrite path contents mode ∈ plan.layoutCalls unitPath logsDirectory) :
    IsDeployed path := by
  simp only [layoutCalls, List.mem_append, List.mem_cons, List.not_mem_nil, or_false, reduceCtorEq,
    or_assoc, FileCall.atomicWrite.injEq] at h
  rcases h with h | h | ⟨rfl, -⟩ | ⟨rfl, -⟩
  · exact isDeployed_of_createParent h
  · obtain ⟨entry, _, hcall⟩ := List.mem_flatMap.mp h
    simp only [targetCalls, List.mem_cons, List.not_mem_nil, or_false, reduceCtorEq, false_or,
      FileCall.atomicWrite.injEq] at hcall
    rw [hcall.1]
    exact isDeployed_join _ (by decide +kernel)
  · exact isDeployed_below plan.configRoot (by decide +kernel : "tls/".toList.getLast? = some '/')
      (by decide +kernel : "server.crt" ∈ deployedNames)
  · exact isDeployed_below plan.configRoot (by decide +kernel : "tls/".toList.getLast? = some '/')
      (by decide +kernel : "server.key" ∈ deployedNames)

theorem Plan.installCalls_isDeployed {configToml : String} (hdaemon : IsDeployed daemonPath)
    (hhelper : IsDeployed helperPath) (hunit : IsDeployed unitPath)
    (h : FileCall.atomicWrite path contents mode ∈
      plan.installCalls unitPath daemonPath helperPath configToml) : IsDeployed path := by
  simp only [installCalls, List.mem_append, List.mem_cons, List.not_mem_nil, or_false,
    FileCall.atomicWrite.injEq] at h
  rcases h with ⟨rfl, -⟩ | ((h | ⟨rfl, -⟩) | h) | ⟨rfl, -⟩
  · exact isDeployed_join _ (by decide +kernel)
  · exact isDeployed_of_createParent h
  · exact hdaemon
  · split_ifs at h
    · rw [(FileCall.atomicWrite.inj (List.mem_singleton.mp h)).1]
      exact hhelper
    · cases h
  · exact hunit

/-- Every file a deployment writes has one of the names. -/
theorem Plan.apply_isDeployed {answers : DeployAnswers} {environment : Environment}
    (h : FileCall.atomicWrite path contents mode ∈ (plan.apply toml answers environment).1) :
    IsDeployed path := by
  unfold apply at h
  dsimp only at h
  split at h
  · cases h
  · rename_i unitPath daemonPath logsDirectory helperPath hpaths
    have hdeployed : IsDeployed daemonPath ∧ IsDeployed helperPath ∧ IsDeployed unitPath := by
      simp only [bind, Except.bind] at hpaths
      split at hpaths
      · cases hpaths
      · rename_i daemon hdaemon
        split at hpaths
        · cases hpaths
        · rename_i helper hhelper
          split at hpaths
          · cases hpaths
          · rename_i unit hunit
            split at hpaths <;> cases hpaths
            unfold Environment.userDaemonPath at hdaemon
            unfold Environment.helperPath at hhelper
            unfold Environment.userUnitPath at hunit
            split at hdaemon <;> cases hdaemon
            split at hhelper <;> cases hhelper
            split at hunit <;> cases hunit
            rename_i home _ _ _ _ _ _ _
            exact ⟨isDeployed_below home (by decide +kernel : ".local/bin/".toList.getLast? = some '/')
                (by decide +kernel : "mpv-targetsd" ∈ deployedNames),
              isDeployed_join _ (by decide +kernel), isDeployed_join _ (by decide +kernel)⟩
    unfold applyAt at h
    dsimp only at h
    have hlayout := answers.performAll_firstCalls 0 (plan.layoutCalls unitPath logsDirectory)
    generalize answers.performAll 0 (plan.layoutCalls unitPath logsDirectory) = layout at h hlayout
    obtain ⟨performed, result⟩ := layout
    cases result with
    | error error => exact plan.layoutCalls_isDeployed (hlayout.1.subset h)
    | ok =>
        dsimp only at h
        split at h
        · exact plan.layoutCalls_isDeployed (hlayout.1.subset h)
        · rename_i configToml _
          rcases List.mem_append.mp h with h | h
          · exact plan.layoutCalls_isDeployed (hlayout.1.subset h)
          · exact plan.installCalls_isDeployed hdeployed.1 hdeployed.2.1 hdeployed.2.2
              ((answers.performAll_firstCalls _ _).1.subset h)

end

end MpvTargets

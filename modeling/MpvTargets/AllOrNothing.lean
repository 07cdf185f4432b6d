import MpvTargets.Admissibility
import MpvTargets.SoloRuns

/-! `add`, `remove` and `rename` as transactions over the configuration, the runtime targets, the
configuration file and the directories. -/

namespace MpvTargets

section

variable {toml : Toml} {host : Host} {arguments : AddArguments} {external : External}
  {before s t : Solo}

/-- The configuration, the names of the targets and the file are as before. -/
structure Solo.Uncommitted (before after : Solo) : Prop where
  config : after.inner.config = before.inner.config
  keys : after.inner.targets.keys = before.inner.targets.keys
  file : after.file = before.file

/-- So are the entries under `targets/`. -/
structure Solo.Same (before after : Solo) : Prop extends Solo.Uncommitted before after where
  entries : after.entries = before.entries

/-- The configuration is the candidate, and the file reads as the configuration. -/
structure Solo.Committed (toml : Toml) (candidate : DaemonConfig) (after : Solo) : Prop where
  config : after.inner.config = candidate
  file : DaemonConfig.parse toml after.file = .ok candidate

theorem Solo.Uncommitted.step (h : Solo.Uncommitted before s)
    (hstep : s.step toml host arguments external = some t)
    (hconfigures : (s.task.pc.critical external).any CriticalSection.configures = false)
    (hcandidate : s.task.pc.candidate? = none) : Solo.Uncommitted before t := by
  obtain ⟨hconfig, hkeys, hfile⟩ := Solo.step_keeps hstep hconfigures hcandidate
  exact ⟨hconfig.trans h.config, hkeys.trans h.keys, hfile.trans h.file⟩

/-- A candidate that does not get written leaves the three as they are. -/
theorem Solo.step_write (hstep : s.step toml host arguments external = some t) (candidate : DaemonConfig)
    (hcandidate : s.task.pc.candidate? = some candidate) :
    t.inner = s.inner ∧
      ((∃ source, validateAndPersist toml external candidate = .ok source ∧ t.file = source) ∨
        ∃ error, validateAndPersist toml external candidate = .error error ∧ t.file = s.file) := by
  obtain ⟨turn, _, hturn, hinner, hfile, _⟩ := Solo.step_cases hstep
  rcases s with ⟨inner, file, entries, ⟨origin, pc, callers⟩, spawned⟩
  refine ⟨?_, ?_⟩
  · rw [hinner]
    cases pc <;> cases hcandidate <;> rfl
  · rw [hfile]
    cases pc <;> cases hcandidate
    all_goals
      simp only [Task.turn] at hturn
      split at hturn <;> cases hturn
      · exact Or.inr ⟨_, by assumption, rfl⟩
      · exact Or.inl ⟨_, by assumption, rfl⟩

/-- The entry is in the configuration, the targets, the file and the directories. -/
structure Solo.Added (toml : Toml) (arguments : AddArguments) (name : String) (enable : Bool)
    (before after : Solo) : Prop where
  committed : ∃ entry : TargetConfig, entry.name = name ∧ entry.disabled = !enable ∧
    Solo.Committed toml (before.inner.config.push entry) after
  keys : ∀ other, other ∈ after.inner.targets.keys ↔ other = name ∨ other ∈ before.inner.targets.keys
  entries : ∃ directory, preparedDirectory arguments before.entries = some directory ∧
    after.entries = before.entries.insert name directory

/-- The directory has been prepared where there was none. -/
def Solo.Prepared (arguments : AddArguments) (name : String) (before after : Solo) : Prop :=
  before.entries.get? name = none ∧ ∃ directory,
    preparedDirectory arguments before.entries = some directory ∧
    after.entries = before.entries.insert name directory

/-- How far `add` is. -/
def Solo.AddAt (toml : Toml) (arguments : AddArguments) (name : String) (enable : Bool)
    (before s : Solo) : Prop :=
  s.task.callers = [] ∧
  match s.task.pc with
  | .addLock other _ enabled | .addCheck other _ enabled =>
      other = name ∧ enabled = enable ∧ Solo.Same before s
  | .addPrepare target =>
      target.name = name ∧ target.disabled = (!enable) ∧ Solo.Same before s
  | .addCandidate target =>
      target.name = name ∧ target.disabled = (!enable) ∧ Solo.Uncommitted before s ∧
        Solo.Prepared arguments name before s
  | .addPersist target candidate =>
      target.name = name ∧ target.disabled = (!enable) ∧ Solo.Uncommitted before s ∧
        Solo.Prepared arguments name before s ∧ candidate = before.inner.config.push target
  | .addCommit target candidate =>
      target.name = name ∧ target.disabled = (!enable) ∧
        s.inner.config = before.inner.config ∧ s.inner.targets.keys = before.inner.targets.keys ∧
        DaemonConfig.parse toml s.file = .ok candidate ∧
        Solo.Prepared arguments name before s ∧ candidate = before.inner.config.push target
  | .addRecord other => other = name ∧ Solo.Added toml arguments name enable before s
  | .done (.ok _) => Solo.Added toml arguments name enable before s
  | .done (.error _) => Solo.Same before s
  | _ => False

theorem Solo.AddAt.step (hparses : toml.ParsesBack) {name : String} {enable : Bool}
    (h : Solo.AddAt toml arguments name enable before s)
    (hstep : s.step toml host arguments external = some t) :
    Solo.AddAt toml arguments name enable before t := by
  obtain ⟨turn, hcall, hturn, hinner, hfile, htask, hspawned⟩ := Solo.step_cases hstep
  have hkeeps := fun hun : Solo.Uncommitted before s => hun.step hstep
  have hwrites := Solo.step_write hstep
  rcases s with ⟨inner, file, entries, ⟨origin, pc, callers⟩, spawned⟩
  rcases t with ⟨inner', file', entries', task', spawned'⟩
  obtain ⟨rfl, hat⟩ := h
  dsimp only at hcall hinner hfile htask hkeeps hwrites hat hturn
  subst htask
  cases pc <;> try exact absurd hat not_false
  case addLock other source enabled =>
    obtain ⟨_, rfl⟩ := Task.acquire_eq_some hturn
    obtain ⟨hname, henable, hsame⟩ := hat
    cases hcall
    exact ⟨rfl, hname, henable, hkeeps hsame.toUncommitted rfl rfl, hsame.entries⟩
  case addCheck other source enabled =>
    obtain ⟨rfl, rfl, hsame⟩ := hat
    cases hcall
    simp only [Task.turn] at hturn
    split at hturn
    · cases hturn
      exact ⟨rfl, hkeeps hsame.toUncommitted rfl rfl, hsame.entries⟩
    · rename_i target hchecked
      cases hturn
      exact ⟨rfl, addChecked_name hchecked, addChecked_disabled hchecked,
        hkeeps hsame.toUncommitted rfl rfl, hsame.entries⟩
  case addPrepare target =>
    obtain ⟨rfl, hdisabled, hsame⟩ := hat
    have hentries : entries = before.entries := hsame.entries
    have hkept := hkeeps hsame.toUncommitted rfl rfl
    rcases Host.call_addPrepare hcall with
      ⟨rfl, hnone, directory, hdirectory, rfl⟩ | ⟨⟨error, rfl⟩, rfl⟩
    · cases hturn
      subst hentries
      exact ⟨rfl, rfl, hdisabled, hkept, hnone, directory, hdirectory, rfl⟩
    · cases hturn
      exact ⟨rfl, hkept, hentries⟩
  case addCandidate target =>
    obtain ⟨hname, hdisabled, hsame, hprepared⟩ := hat
    cases hcall
    cases hturn
    refine ⟨rfl, hname, hdisabled, hkeeps hsame rfl rfl, hprepared, ?_⟩
    exact congrArg (fun config => DaemonConfig.push config target) hsame.config
  case addPersist target candidate =>
    obtain ⟨rfl, hdisabled, hsame, hprepared, hcandidate⟩ := hat
    obtain ⟨hstays, ⟨source, hsource, hwritten⟩ | ⟨error, herror, hkept⟩⟩ := hwrites _ rfl
    · simp only [Host.call, hsource] at hcall
      simp only [Task.turn, hsource] at hturn
      cases hcall
      cases hturn
      subst hstays
      refine ⟨rfl, rfl, hdisabled, hsame.config, hsame.keys, ?_, hprepared, hcandidate⟩
      rw [hwritten]
      exact parse_of_validateAndPersist hparses hsource
    · simp only [Host.call, herror] at hcall
      simp only [Task.turn, herror] at hturn
      cases hcall
      cases hturn
      subst hstays
      refine ⟨rfl, ⟨hsame.config, hsame.keys, hkept.trans hsame.file⟩, ?_⟩
      obtain ⟨hnone, directory, _, hinserted⟩ := hprepared
      show entries.erase target.name = before.entries
      rw [show entries = _ from hinserted]
      refine OrderedMap.ext_get? fun other => ?_
      rw [OrderedMap.get?_erase, OrderedMap.get?_insert]
      split_ifs with hother
      · rw [hother, hnone]
      · rfl
  case addCommit target candidate =>
    obtain ⟨rfl, hdisabled, hconfig, hkeys, hparse, ⟨_, hprepared⟩, rfl⟩ := hat
    cases hcall
    cases hturn
    subst hinner
    refine ⟨rfl, rfl, ⟨target, rfl, hdisabled, rfl, ?_⟩, fun other => ?_, hprepared⟩
    · rw [hfile]
      exact hparse
    · show other ∈ (inner.targets.insert target.name _).keys ↔ _
      rw [OrderedMap.mem_keys_insert, ← hkeys]
  case addRecord other =>
    obtain ⟨rfl, ⟨entry, hname, hdisabled, hconfig, hparse⟩, hkeys, hprepared⟩ := hat
    cases hcall
    have hstays : inner' = inner := hinner
    have hread : inner.targets.get? other ≠ none := by
      rw [Ne, OrderedMap.get?_eq_none_iff, not_not]
      exact (hkeys other).mpr (Or.inl rfl)
    simp only [Task.turn, Task.record, Task.read] at hturn
    split at hturn
    · contradiction
    · cases hturn
      subst hstays
      refine ⟨rfl, ⟨entry, hname, hdisabled, hconfig, ?_⟩, hkeys, hprepared⟩
      rw [hfile]
      exact hparse
  case done result => simp [Task.turn] at hturn

theorem Solo.AddAt.run (hparses : toml.ParsesBack) {name : String} {enable : Bool}
    {steps : List (Solo × External)} (h : Solo.AddAt toml arguments name enable before s)
    (hrun : Solo.Run toml host arguments s steps t) : Solo.AddAt toml arguments name enable before t := by
  induction hrun with
  | refl => exact h
  | tail _ hstep ih => exact ih.step hparses hstep

theorem Solo.AddAt.begun (toml : Toml) (inner : Inner) (file : String) (entries : TargetEntries)
    (name : String) (source : Option String) (enable : Bool) (arguments : AddArguments) :
    Solo.AddAt toml arguments name enable
      (.begun inner file entries (Request.add name source enable).task)
      (.begun inner file entries (Request.add name source enable).task) :=
  ⟨rfl, rfl, rfl, ⟨rfl, rfl, rfl⟩, rfl⟩

/-- The recursive delete at the end of `remove` fails. -/
def Solo.DeleteFails (entry : Solo × External) : Prop :=
  ∃ name error, entry.1.task.pc = .removeClean name ∧ entry.2 = .failed error

/-- `remove` fails to write its candidate. -/
def Solo.WriteFails (toml : Toml) (entry : Solo × External) : Prop :=
  ∃ name candidate error, entry.1.task.pc = .removePersist name candidate ∧
    validateAndPersist toml entry.2 candidate = .error error

/-- Nothing has gone wrong half way. -/
def Solo.Faultless (toml : Toml) (faults : List (Solo × External)) : Prop :=
  ∀ entry ∈ faults, ¬Solo.DeleteFails entry ∧ ¬Solo.WriteFails toml entry

/-- The entry has left the configuration, the targets, the file and the directories. -/
structure Solo.Removed (toml : Toml) (host : Host) (name : String) (before after : Solo) : Prop where
  committed : Solo.Committed toml (before.inner.config.without name) after
  keys : ∀ other, other ∈ after.inner.targets.keys ↔
    other ≠ name ∧ other ∈ before.inner.targets.keys
  entries : after.entries = (before.entries.erase name).erase (host.stagingName name)

/-- The directory has been moved aside, if there was one. -/
def Solo.Staged (host : Host) (name : String) (before after : Solo) : Prop :=
  (before.entries.get? name = none ∧ after.entries = before.entries) ∨
  ∃ tree, before.entries.get? name = some tree ∧
    after.entries = before.entries.move name (host.stagingName name) tree

/-- How `remove` ends: as a transaction, or with a rollback that cannot restore what it replaced, or
with its commit done and its cleaning up failed. -/
inductive Solo.RemoveEnds (toml : Toml) (host : Host) (name : String) (before : Solo)
    (faults : List (Solo × External)) (after : Solo) : Outcome → Prop where
  | removed (reply : Reply) (hfaults : Solo.Faultless toml faults)
      (h : Solo.Removed toml host name before after) :
      RemoveEnds toml host name before faults after (.ok reply)
  | same (error : SupervisorError) (hfaults : Solo.Faultless toml faults)
      (h : Solo.Same before after) : RemoveEnds toml host name before faults after (.error error)
  | rolledBack (error : SupervisorError) (hdelete : ∀ entry ∈ faults, ¬Solo.DeleteFails entry)
      (hwrite : ∃ entry ∈ faults, Solo.WriteFails toml entry) (h : Solo.Uncommitted before after)
      (staged : TargetEntries) (hstaged : Solo.Staged host name before { after with entries := staged })
      (hentries : after.entries = staged.moveBack (host.stagingName name) name) :
      RemoveEnds toml host name before faults after (.error error)
  | uncleaned (error : SupervisorError) (hdelete : ∃ entry ∈ faults, Solo.DeleteFails entry)
      (hname : name ∈ before.inner.targets.keys) (h : name ∉ after.inner.targets.keys) :
      RemoveEnds toml host name before faults after (.error error)

/-- How far `remove` is, after the steps of `faults`. -/
def Solo.RemoveAt (toml : Toml) (host : Host) (name : String) (before : Solo)
    (faults : List (Solo × External)) (s : Solo) : Prop :=
  match s.task.pc with
  | .done result => Solo.RemoveEnds toml host name before faults s result
  | pc => Solo.Faultless toml faults ∧
      match pc with
      | .removeLock other | .removeCheck other =>
          other = name ∧ s.task.callers = [] ∧ Solo.Same before s
      | .removeStage other =>
          other = name ∧ s.task.callers = [] ∧ name ∈ before.inner.targets.keys ∧ Solo.Same before s
      | .removeCandidate other =>
          other = name ∧ s.task.callers = [] ∧ name ∈ before.inner.targets.keys ∧
            Solo.Uncommitted before s ∧ Solo.Staged host name before s
      | .removePersist other candidate =>
          other = name ∧ s.task.callers = [] ∧ name ∈ before.inner.targets.keys ∧
            Solo.Uncommitted before s ∧ Solo.Staged host name before s ∧
            candidate = before.inner.config.without name
      | .removeCommit other candidate =>
          other = name ∧ s.task.callers = [] ∧ name ∈ before.inner.targets.keys ∧
            s.inner.targets.keys = before.inner.targets.keys ∧
            DaemonConfig.parse toml s.file = .ok candidate ∧ Solo.Staged host name before s ∧
            candidate = before.inner.config.without name
      | .removeClean other =>
          other = name ∧ s.task.callers = [] ∧ name ∈ before.inner.targets.keys ∧
            Solo.Committed toml (before.inner.config.without name) s ∧
            (∀ other, other ∈ s.inner.targets.keys ↔
              other ≠ name ∧ other ∈ before.inner.targets.keys) ∧
            Solo.Staged host name before s
      | pc => pc.stops name = true ∧ s.task.callers = [.removeStop name] ∧
          name ∈ before.inner.targets.keys ∧ Solo.Same before s

/-- `stop` returns to `remove` only with an error. -/
theorem Task.turn_stops_done {view : View} {task : Task} {turn : Turn}
    (h : task.turn toml view external = some turn) {name : String} (hpc : task.pc.stops name = true)
    (hcallers : task.callers = [.removeStop name]) {result : Outcome} (hdone : turn.pc = .done result) :
    ∃ error, result = .error error := by
  rcases task with ⟨origin, pc, callers⟩
  cases pc
  all_goals simp only [Pc.stops, decide_eq_true_eq, Bool.false_eq_true] at hpc
  all_goals simp only [Task.turn] at h
  all_goals grind [resume]

theorem Solo.Staged.congr {name : String} (h : Solo.Staged host name before s)
    (hentries : t.entries = s.entries) : Solo.Staged host name before t := by
  rw [Solo.Staged, hentries]
  exact h

theorem Host.stagingName_ne (host : Host) (name : String) : host.stagingName name ≠ name := by
  intro h
  have hlength := congrArg String.length h
  simp only [Host.stagingName, String.length_append] at hlength
  have : ".remove-".length = 8 := rfl
  omega

/-- Deleting what was moved aside leaves neither the directory nor the staging entry. -/
theorem Solo.Staged.erase {name : String} (h : Solo.Staged host name before s) :
    s.entries.erase (host.stagingName name) =
      (before.entries.erase name).erase (host.stagingName name) := by
  refine OrderedMap.ext_get? fun other => ?_
  rcases h with ⟨hnone, hentries⟩ | ⟨tree, _, hentries⟩
  · rw [hentries, OrderedMap.get?_erase, OrderedMap.get?_erase, OrderedMap.get?_erase]
    split_ifs with hstaging hother
    · rfl
    · rw [hother, hnone]
    · rfl
  · rw [hentries, TargetEntries.move]
    simp only [OrderedMap.get?_erase, OrderedMap.get?_insert]
    split_ifs <;> rfl

/-- The await points where `remove` can go wrong half way. -/
def Pc.faults : Pc → Bool
  | removePersist _ _ | removeClean _ => true
  | _ => false

theorem Solo.Faultless.append {faults : List (Solo × External)} (h : Solo.Faultless toml faults)
    (hdelete : ¬Solo.DeleteFails (s, external)) (hwrite : ¬Solo.WriteFails toml (s, external)) :
    Solo.Faultless toml (faults ++ [(s, external)]) := by
  intro entry hentry
  rcases List.mem_append.mp hentry with hentry | hentry
  · exact h entry hentry
  · rw [List.mem_singleton.mp hentry]
    exact ⟨hdelete, hwrite⟩

theorem Solo.Faultless.tail {faults : List (Solo × External)} (h : Solo.Faultless toml faults)
    (hpc : s.task.pc.faults = false) (external : External) :
    Solo.Faultless toml (faults ++ [(s, external)]) := by
  refine h.append ?_ ?_
  · rintro ⟨name, error, hclean, _⟩
    rw [hclean] at hpc
    cases hpc
  · rintro ⟨name, candidate, error, hpersist, _⟩
    rw [hpersist] at hpc
    cases hpc

theorem Solo.RemoveAt.of_stops {name : String} {faults : List (Solo × External)}
    (hfaults : Solo.Faultless toml faults) (hpc : s.task.pc.stops name = true)
    (hcallers : s.task.callers = [.removeStop name]) (hname : name ∈ before.inner.targets.keys)
    (hsame : Solo.Same before s) : Solo.RemoveAt toml host name before faults s := by
  rcases s with ⟨inner, file, entries, ⟨origin, pc, callers⟩, spawned⟩
  cases pc <;> first | exact ⟨hfaults, hpc, hcallers, hname, hsame⟩ | cases hpc

theorem Solo.RemoveAt.step (hparses : toml.ParsesBack) {name : String}
    {faults : List (Solo × External)} (h : Solo.RemoveAt toml host name before faults s)
    (hstep : s.step toml host arguments external = some t) :
    Solo.RemoveAt toml host name before (faults ++ [(s, external)]) t := by
  obtain ⟨turn, hcall, hturn, hinner, hfile, htask, hspawned⟩ := Solo.step_cases hstep
  have hkeeps := fun hun : Solo.Uncommitted before s => hun.step hstep
  have hwrites := Solo.step_write hstep
  have htail := fun hfaults : Solo.Faultless toml faults =>
    fun hpc : s.task.pc.faults = false => hfaults.tail hpc external
  have hstops : ∀ hfaults : Solo.Faultless toml faults, s.task.pc.stops name = true →
      s.task.callers = [.removeStop name] → name ∈ before.inner.targets.keys → Solo.Same before s →
      Solo.RemoveAt toml host name before (faults ++ [(s, external)]) t := by
    intro hfaults hpc hcallers hname hsame
    have hquiet := Pc.not_configures_of_stops hpc external
    have hplain : s.task.pc.candidate? = none ∧ s.task.pc.faults = false ∧
        host.call toml arguments s.task.pc external s.entries = some s.entries := by
      generalize s.task.pc = pc at hpc
      cases pc <;> first | exact ⟨rfl, rfl, rfl⟩ | cases hpc
    have hkept := hkeeps hsame.toUncommitted hquiet hplain.1
    have hentries : t.entries = before.entries := by
      rw [hplain.2.2] at hcall
      exact (Option.some.inj hcall).symm.trans hsame.entries
    have hfaults' := htail hfaults hplain.2.1
    have hlater : Solo.Same before t := ⟨hkept, hentries⟩
    rcases Task.turn_stops hturn hpc hcallers with ⟨hpc', hcallers'⟩ | ⟨hpc', hcallers'⟩ |
      ⟨result, hpc', hcallers'⟩
    · refine Solo.RemoveAt.of_stops hfaults' ?_ ?_ hname hlater
      · rw [htask]; exact hpc'
      · rw [htask]; exact hcallers'
    · rw [Solo.RemoveAt, htask, hpc']
      exact ⟨hfaults', rfl, hcallers', hname, hlater⟩
    · obtain ⟨error, rfl⟩ := Task.turn_stops_done hturn hpc hcallers hpc'
      rw [Solo.RemoveAt, htask, hpc']
      exact .same error hfaults' hlater
  rcases s with ⟨inner, file, entries, ⟨origin, pc, callers⟩, spawned⟩
  rcases t with ⟨inner', file', entries', task', spawned'⟩
  dsimp only at hcall hinner hfile htask hkeeps hwrites hturn
  subst htask
  cases pc
  case done result => simp [Task.turn] at hturn
  all_goals obtain ⟨hfaults, h⟩ := h
  case removeLock other =>
    obtain ⟨rfl, hcallers, hsame⟩ := h
    obtain ⟨_, rfl⟩ := Task.acquire_eq_some hturn
    cases hcall
    exact ⟨htail hfaults rfl, rfl, hcallers, hkeeps hsame.toUncommitted rfl rfl, hsame.entries⟩
  case removeCheck other =>
    obtain ⟨rfl, hcallers, hsame⟩ := h
    obtain rfl : callers = [] := hcallers
    cases hcall
    have hkept := hkeeps hsame.toUncommitted rfl rfl
    simp only [Task.turn, Task.read] at hturn
    split at hturn
    · cases hturn
      exact .same _ (htail hfaults rfl) ⟨hkept, hsame.entries⟩
    · rename_i target htarget
      have hname : other ∈ before.inner.targets.keys := by
        rw [← show inner.targets.keys = _ from hsame.keys]
        exact (OrderedMap.mem_keys_iff _).mpr ⟨target, htarget⟩
      split at hturn
      · cases hturn
        exact ⟨htail hfaults rfl, rfl, rfl, hname, hkept, hsame.entries⟩
      · cases hturn
        exact ⟨htail hfaults rfl, by simp [Task.call, Pc.stops], rfl, hname, hkept, hsame.entries⟩
  case removeStage other =>
    obtain ⟨rfl, hcallers, hname, hsame⟩ := h
    obtain rfl : callers = [] := hcallers
    have hentries : entries = before.entries := hsame.entries
    have hkept := hkeeps hsame.toUncommitted rfl rfl
    subst hentries
    rcases Host.call_removeStage hcall with
      ⟨rfl, hnone, rfl⟩ | ⟨rfl, tree, htree, rfl⟩ | ⟨⟨error, rfl⟩, rfl⟩
    · cases hturn
      exact ⟨htail hfaults rfl, rfl, rfl, hname, hkept, Or.inl ⟨hnone, rfl⟩⟩
    · cases hturn
      exact ⟨htail hfaults rfl, rfl, rfl, hname, hkept, Or.inr ⟨tree, htree, rfl⟩⟩
    · cases hturn
      exact .same _ (htail hfaults rfl) ⟨hkept, rfl⟩
  case removeCandidate other =>
    obtain ⟨rfl, hcallers, hname, hsame, hstaged⟩ := h
    cases hcall
    cases hturn
    exact ⟨htail hfaults rfl, rfl, hcallers, hname, hkeeps hsame rfl rfl, hstaged,
      congrArg (fun config => DaemonConfig.without config other) hsame.config⟩
  case removePersist other candidate =>
    obtain ⟨rfl, hcallers, hname, hsame, hstaged, hcandidate⟩ := h
    obtain rfl : callers = [] := hcallers
    obtain ⟨hstays, ⟨source, hsource, hwritten⟩ | ⟨error, herror, hkept⟩⟩ := hwrites _ rfl
    · simp only [Host.call, hsource] at hcall
      simp only [Task.turn, hsource] at hturn
      cases hcall
      cases hturn
      subst hstays
      refine ⟨hfaults.append ?_ ?_, rfl, rfl, hname, hsame.keys, ?_, hstaged, hcandidate⟩
      · rintro ⟨_, _, hpc, _⟩
        cases hpc
      · rintro ⟨_, _, _, hpc, hfails⟩
        cases hpc
        rw [hsource] at hfails
        cases hfails
      · rw [hwritten]
        exact parse_of_validateAndPersist hparses hsource
    · simp only [Host.call, herror] at hcall
      simp only [Task.turn, herror] at hturn
      cases hcall
      cases hturn
      subst hstays
      refine .rolledBack error ?_ ⟨_, List.mem_append_right _ (List.mem_singleton_self _), other,
        candidate, error, rfl, herror⟩ ⟨hsame.config, hsame.keys, hkept.trans hsame.file⟩ entries
        hstaged rfl
      intro entry hentry
      rcases List.mem_append.mp hentry with hentry | hentry
      · exact (hfaults entry hentry).1
      · rw [List.mem_singleton.mp hentry]
        rintro ⟨_, _, hpc, _⟩
        cases hpc
  case removeCommit other candidate =>
    obtain ⟨rfl, hcallers, hname, hkeys, hparse, hstaged, rfl⟩ := h
    cases hcall
    cases hturn
    subst hinner
    refine ⟨htail hfaults rfl, rfl, hcallers, hname, ⟨rfl, ?_⟩, fun removed => ?_, hstaged⟩
    · rw [hfile]
      exact hparse
    · show removed ∈ (inner.targets.erase other).keys ↔ _
      rw [OrderedMap.mem_keys_erase, ← hkeys]
  case removeClean other =>
    obtain ⟨rfl, hcallers, hname, hcommitted, hkeys, hstaged⟩ := h
    obtain rfl : callers = [] := hcallers
    have hstays : inner' = inner := hinner
    subst hstays
    rcases Host.call_removeClean hcall with ⟨rfl, rfl⟩ | ⟨⟨error, rfl⟩, _⟩
    · cases hturn
      refine .removed _ (hfaults.append ?_ ?_) ⟨⟨hcommitted.config, ?_⟩, hkeys, hstaged.erase⟩
      · rintro ⟨_, _, _, hfails⟩
        cases hfails
      · rintro ⟨_, _, _, hpc, _⟩
        cases hpc
      · rw [hfile]
        exact hcommitted.file
    · cases hturn
      refine .uncleaned error ⟨_, List.mem_append_right _ (List.mem_singleton_self _), other, error,
        rfl, rfl⟩ hname ?_
      exact fun hmem => ((hkeys other).mp hmem).1 rfl
  all_goals exact hstops hfaults h.1 h.2.1 h.2.2.1 h.2.2.2

theorem Solo.RemoveAt.run (hparses : toml.ParsesBack) {name : String}
    {faults steps : List (Solo × External)} (h : Solo.RemoveAt toml host name before faults s)
    (hrun : Solo.Run toml host arguments s steps t) :
    Solo.RemoveAt toml host name before (faults ++ steps) t := by
  induction hrun with
  | refl => rwa [List.append_nil]
  | tail _ hstep ih =>
      rw [← List.append_assoc]
      exact ih.step hparses hstep

theorem Solo.RemoveAt.begun (toml : Toml) (host : Host) (inner : Inner) (file : String)
    (entries : TargetEntries) (name : String) :
    Solo.RemoveAt toml host name (.begun inner file entries (Request.remove name).task) []
      (.begun inner file entries (Request.remove name).task) :=
  ⟨fun _ hentry => absurd hentry List.not_mem_nil, rfl, rfl, ⟨rfl, rfl, rfl⟩, rfl⟩

/-- The entry has its new name in the configuration, the targets, the file and the directories. -/
structure Solo.Renamed (toml : Toml) (name replacement : String) (before after : Solo) : Prop where
  committed : ∃ candidate, before.inner.config.renamed name replacement = some candidate ∧
    Solo.Committed toml candidate after
  keys : ∀ other, other ∈ after.inner.targets.keys ↔
    other = replacement ∨ other ≠ name ∧ other ∈ before.inner.targets.keys
  entries : ∃ tree, before.entries.get? name = some tree ∧
    after.entries = before.entries.move name replacement tree

/-- The directory has been moved to a name that was free. -/
def Solo.Moved (name replacement : String) (before after : Solo) : Prop :=
  before.entries.get? replacement = none ∧ ∃ tree, before.entries.get? name = some tree ∧
    after.entries = before.entries.move name replacement tree

/-- How far `rename` is. -/
def Solo.RenameAt (toml : Toml) (name replacement : String) (before s : Solo) : Prop :=
  s.task.callers = [] ∧
  match s.task.pc with
  | .renameLock old new | .renameCheck old new | .renameMove old new =>
      old = name ∧ new = replacement ∧ Solo.Same before s
  | .renameCandidate old new =>
      old = name ∧ new = replacement ∧ Solo.Uncommitted before s ∧
        Solo.Moved name replacement before s
  | .renamePersist old new candidate =>
      old = name ∧ new = replacement ∧ Solo.Uncommitted before s ∧
        Solo.Moved name replacement before s ∧
        before.inner.config.renamed name replacement = some candidate
  | .renameCommit old new candidate =>
      old = name ∧ new = replacement ∧ s.inner.targets.keys = before.inner.targets.keys ∧
        DaemonConfig.parse toml s.file = .ok candidate ∧ Solo.Moved name replacement before s ∧
        before.inner.config.renamed name replacement = some candidate
  | .renameRecord new => new = replacement ∧ Solo.Renamed toml name replacement before s
  | .done (.ok _) => Solo.Renamed toml name replacement before s
  | .done (.error _) => Solo.Same before s
  | _ => False

/-- Moving the directory back restores the entries. -/
theorem Solo.Moved.moveBack {name replacement : String} (h : Solo.Moved name replacement before s) :
    s.entries.moveBack replacement name = before.entries := by
  obtain ⟨hnone, tree, htree, hentries⟩ := h
  have hmoved : s.entries.get? replacement = some tree := by
    rw [hentries, TargetEntries.move, OrderedMap.get?_insert_self]
  have hback : s.entries.moveBack replacement name = s.entries.move replacement name tree := by
    rw [TargetEntries.moveBack, hmoved]
  rw [hback, hentries]
  refine OrderedMap.ext_get? fun other => ?_
  simp only [TargetEntries.move, OrderedMap.get?_erase, OrderedMap.get?_insert]
  split_ifs with hname hreplacement
  · rw [hname, htree]
  · rw [hreplacement, hnone]
  · rfl

theorem Solo.RenameAt.step (hparses : toml.ParsesBack) {name replacement : String}
    (h : Solo.RenameAt toml name replacement before s)
    (hagrees : s.Agrees) (hstep : s.step toml host arguments external = some t) :
    Solo.RenameAt toml name replacement before t := by
  obtain ⟨turn, hcall, hturn, hinner, hfile, htask, hspawned⟩ := Solo.step_cases hstep
  have hkeeps := fun hun : Solo.Uncommitted before s => hun.step hstep
  have hwrites := Solo.step_write hstep
  have hprepared := hagrees.prepared
  have hentry := hagrees.inner.entries name
  rcases s with ⟨inner, file, entries, ⟨origin, pc, callers⟩, spawned⟩
  rcases t with ⟨inner', file', entries', task', spawned'⟩
  obtain ⟨rfl, hat⟩ := h
  dsimp only at hcall hinner hfile htask hkeeps hwrites hat hturn hprepared hentry
  subst htask
  cases pc <;> try exact absurd hat not_false
  case renameLock old new =>
    obtain ⟨_, rfl⟩ := Task.acquire_eq_some hturn
    obtain ⟨hname, hreplacement, hsame⟩ := hat
    cases hcall
    exact ⟨rfl, hname, hreplacement, hkeeps hsame.toUncommitted rfl rfl, hsame.entries⟩
  case renameCheck old new =>
    obtain ⟨rfl, rfl, hsame⟩ := hat
    cases hcall
    have hkept := hkeeps hsame.toUncommitted rfl rfl
    simp only [Task.turn] at hturn
    split at hturn
    · cases hturn
      exact ⟨rfl, hkept, hsame.entries⟩
    · cases hturn
      exact ⟨rfl, rfl, rfl, hkept, hsame.entries⟩
  case renameMove old new =>
    obtain ⟨rfl, rfl, hsame⟩ := hat
    have hentries : entries = before.entries := hsame.entries
    have hkept := hkeeps hsame.toUncommitted rfl rfl
    subst hentries
    rcases Host.call_renameMove hcall with ⟨rfl, hnone, tree, htree, rfl⟩ | ⟨⟨error, rfl⟩, rfl⟩
    · cases hturn
      exact ⟨rfl, rfl, rfl, hkept, hnone, tree, htree, rfl⟩
    · cases hturn
      exact ⟨rfl, hkept, rfl⟩
  case renameCandidate old new =>
    obtain ⟨rfl, rfl, hsame, hmoved⟩ := hat
    cases hcall
    have hkept := hkeeps hsame rfl rfl
    simp only [Task.turn] at hturn
    split at hturn
    · rename_i hnone
      exfalso
      obtain ⟨target, htarget⟩ := (OrderedMap.mem_keys_iff _).mp hprepared.1
      rw [htarget, Option.map_some] at hentry
      have : inner.config.renamed old new = none := hnone
      rw [DaemonConfig.renamed, hentry] at this
      cases this
    · rename_i candidate hcandidate
      cases hturn
      refine ⟨rfl, rfl, rfl, hkept, hmoved, ?_⟩
      rw [← show inner.config = _ from hsame.config]
      exact hcandidate
  case renamePersist old new candidate =>
    obtain ⟨rfl, rfl, hsame, hmoved, hcandidate⟩ := hat
    obtain ⟨hstays, ⟨source, hsource, hwritten⟩ | ⟨error, herror, hkept⟩⟩ := hwrites _ rfl
    · simp only [Host.call, hsource] at hcall
      simp only [Task.turn, hsource] at hturn
      cases hcall
      cases hturn
      subst hstays
      refine ⟨rfl, rfl, rfl, hsame.keys, ?_, hmoved, hcandidate⟩
      rw [hwritten]
      exact parse_of_validateAndPersist hparses hsource
    · simp only [Host.call, herror] at hcall
      simp only [Task.turn, herror] at hturn
      cases hcall
      cases hturn
      subst hstays
      exact ⟨rfl, ⟨hsame.config, hsame.keys, hkept.trans hsame.file⟩, hmoved.moveBack⟩
  case renameCommit old new candidate =>
    obtain ⟨rfl, rfl, hkeys, hparse, ⟨_, hmoved⟩, hcandidate⟩ := hat
    obtain ⟨target, htarget⟩ := (OrderedMap.mem_keys_iff _).mp hprepared.1
    cases hcall
    simp only [Task.turn] at hturn
    split at hturn
    · rename_i hnone
      have : inner.targets.get? old = none := hnone
      rw [htarget] at this
      cases this
    · cases hturn
      simp only [Inner.after, Pc.critical, CriticalSection.run, renameCommit, htarget] at hinner
      subst hinner
      refine ⟨rfl, rfl, ⟨candidate, hcandidate, rfl, ?_⟩, fun other => ?_, hmoved⟩
      · rw [hfile]
        show DaemonConfig.parse toml ((renameCommit candidate old new inner).file.getD file) = _
        rw [renameCommit, htarget]
        exact hparse
      · show other ∈ ((inner.targets.erase old).insert new _).keys ↔ _
        rw [OrderedMap.mem_keys_insert, OrderedMap.mem_keys_erase, ← hkeys]
  case renameRecord new =>
    obtain ⟨rfl, ⟨candidate, hcandidate, hconfig, hparse⟩, hkeys, hmoved⟩ := hat
    cases hcall
    have hstays : inner' = inner := hinner
    have hread : inner.targets.get? new ≠ none := by
      rw [Ne, OrderedMap.get?_eq_none_iff, not_not]
      exact (hkeys new).mpr (Or.inl rfl)
    simp only [Task.turn, Task.record, Task.read] at hturn
    split at hturn
    · contradiction
    · cases hturn
      subst hstays
      refine ⟨rfl, ⟨candidate, hcandidate, hconfig, ?_⟩, hkeys, hmoved⟩
      rw [hfile]
      exact hparse
  case done result => simp [Task.turn] at hturn

theorem Solo.RenameAt.run (hparses : toml.ParsesBack) {name replacement : String}
    {steps : List (Solo × External)} (h : Solo.RenameAt toml name replacement before s)
    (hagrees : s.Agrees) (hrun : Solo.Run toml host arguments s steps t) :
    Solo.RenameAt toml name replacement before t := by
  induction hrun with
  | refl => exact h
  | tail hbefore hstep ih => exact ih.step hparses (Solo.Run.agrees hbefore hagrees) hstep

theorem Solo.RenameAt.begun (toml : Toml) (inner : Inner) (file : String) (entries : TargetEntries)
    (name replacement : String) :
    Solo.RenameAt toml name replacement
      (.begun inner file entries (Request.rename name replacement).task)
      (.begun inner file entries (Request.rename name replacement).task) :=
  ⟨rfl, rfl, rfl, ⟨rfl, rfl, rfl⟩, rfl⟩

/-! ### The three operations -/

/-- The operations that change which targets there are. -/
def Request.restructures : Request → Bool
  | .add _ _ _ | .remove _ | .rename _ _ => true
  | _ => false

/-- The change the operation makes is in the configuration, the targets, the file and the entries. -/
def Solo.Changed (toml : Toml) (host : Host) (arguments : AddArguments) (request : Request)
    (before after : Solo) : Prop :=
  match request with
  | .add name _ enable => Solo.Added toml arguments name enable before after
  | .remove name => Solo.Removed toml host name before after
  | .rename name replacement => Solo.Renamed toml name replacement before after
  | _ => True

/-- An error leaves everything as it was, and a success changes all of it. -/
def Solo.AllOrNothing (toml : Toml) (host : Host) (arguments : AddArguments) (request : Request)
    (before after : Solo) : Outcome → Prop
  | .ok _ => Solo.Changed toml host arguments request before after
  | .error _ => Solo.Same before after

/-- What `remove` cannot undo does not happen: its last delete does not fail, and its write does not fail
while the staging entry of an earlier removal is there. -/
def Solo.Undoable (toml : Toml) (host : Host) (request : Request) (before : Solo)
    (steps : List (Solo × External)) : Prop :=
  match request with
  | .remove name => (∀ entry ∈ steps, ¬Solo.DeleteFails entry) ∧
      ((∃ entry ∈ steps, Solo.WriteFails toml entry) →
        before.entries.get? (host.stagingName name) = none)
  | _ => True

/-- What a rollback restores tells whether there was a staging entry to begin with. -/
theorem Solo.Staged.moveBack_eq_iff {name : String} {staged : TargetEntries}
    (h : Solo.Staged host name before { t with entries := staged }) :
    staged.moveBack (host.stagingName name) name = before.entries ↔
      before.entries.get? (host.stagingName name) = none := by
  have hne := host.stagingName_ne name
  rcases h with ⟨hnone, hentries⟩ | ⟨tree, htree, hentries⟩
  · dsimp only at hentries
    subst hentries
    rw [TargetEntries.moveBack]
    constructor
    · intro hback
      split at hback
      · assumption
      · rename_i tree htree
        have := congrArg (fun entries => OrderedMap.get? entries name) hback
        simp only [TargetEntries.move, OrderedMap.get?_insert_self, hnone] at this
        cases this
    · intro hnone
      rw [hnone]
  · dsimp only at hentries
    have hmoved : staged.get? (host.stagingName name) = some tree := by
      rw [hentries, TargetEntries.move, OrderedMap.get?_insert_self]
    rw [TargetEntries.moveBack, hmoved, hentries]
    constructor
    · intro hback
      have := congrArg (fun entries => OrderedMap.get? entries (host.stagingName name)) hback
      simp only [TargetEntries.move, OrderedMap.get?_insert, OrderedMap.get?_erase] at this
      simpa [hne] using this.symm
    · intro hnone
      refine OrderedMap.ext_get? fun other => ?_
      simp only [TargetEntries.move, OrderedMap.get?_erase, OrderedMap.get?_insert]
      split_ifs with hname hstaging
      · rw [hname, htree]
      · rw [hstaging, hnone]
      · rfl

/-- Which ends of `remove` are all or nothing. -/
theorem Solo.RemoveEnds.allOrNothing_iff {name : String} {faults : List (Solo × External)}
    {result : Outcome} (h : Solo.RemoveEnds toml host name before faults t result) :
    Solo.AllOrNothing toml host arguments (.remove name) before t result ↔
      Solo.Undoable toml host (.remove name) before faults := by
  cases h with
  | removed reply hfaults hremoved =>
      exact ⟨fun _ => ⟨fun entry hentry => (hfaults entry hentry).1, fun ⟨entry, hentry, hfails⟩ =>
        absurd hfails (hfaults entry hentry).2⟩, fun _ => hremoved⟩
  | same error hfaults hsame =>
      exact ⟨fun _ => ⟨fun entry hentry => (hfaults entry hentry).1, fun ⟨entry, hentry, hfails⟩ =>
        absurd hfails (hfaults entry hentry).2⟩, fun _ => hsame⟩
  | rolledBack error hdelete hwrite huncommitted staged hstaged hentries =>
      have hiff := hstaged.moveBack_eq_iff
      rw [← hentries] at hiff
      exact ⟨fun hsame => ⟨hdelete, fun _ => hiff.mp hsame.entries⟩,
        fun hundoable => ⟨huncommitted, hiff.mpr (hundoable.2 hwrite)⟩⟩
  | uncleaned error hdelete hname hgone =>
      obtain ⟨entry, hentry, hfails⟩ := hdelete
      refine ⟨fun hsame => ?_, fun hundoable => absurd hfails (hundoable.1 entry hentry)⟩
      rw [hsame.keys] at hgone
      exact absurd hname hgone

end

section

variable {toml : Toml} {config : DaemonConfig} {file : String} {history : List (System × Label)}
  {s : System} {host : Host} {request : Request} {startPaused startMuted : Bool}
  {entries : TargetEntries} {steps : List (Solo × External)} {t : Solo} {result : Outcome}

/-- From every state of every run of the daemon, over all entries under `targets/` and all failures of
the calls: `add` and `rename` are all or nothing, and `remove` is exactly when it need not undo what it
cannot. -/
theorem all_or_nothing_iff (hparses : toml.ParsesBack) (hconfig : DaemonConfig.parse toml file = .ok config)
    (hrun : System.Run toml config file history s) (hrequest : request.restructures = true)
    (hsteps : Solo.Run toml host (request.arguments startPaused startMuted)
      (.begun s.inner s.file entries request.task) steps t) (hdone : t.task.pc = .done result) :
    Solo.AllOrNothing toml host (request.arguments startPaused startMuted) request
        (.begun s.inner s.file entries request.task) t result ↔
      Solo.Undoable toml host request (.begun s.inner s.file entries request.task) steps := by
  have hagrees := (hrun.configured hparses (validate_of_parse hconfig) hconfig).1.agrees
  have hbegun : (Solo.begun s.inner s.file entries request.task).Agrees :=
    ⟨hagrees, by cases request <;> trivial⟩
  cases request with
  | add name source enable =>
      have hat := (Solo.AddAt.begun toml s.inner s.file entries name source enable _).run hparses hsteps
      rw [Solo.AddAt, hdone] at hat
      cases result <;> exact ⟨fun _ => trivial, fun _ => hat.2⟩
  | rename name replacement =>
      have hat := (Solo.RenameAt.begun toml s.inner s.file entries name replacement).run hparses
        hbegun hsteps
      rw [Solo.RenameAt, hdone] at hat
      cases result <;> exact ⟨fun _ => trivial, fun _ => hat.2⟩
  | remove name =>
      have hat := (Solo.RemoveAt.begun toml host s.inner s.file entries name).run hparses hsteps
      rw [Solo.RemoveAt, hdone, List.nil_append] at hat
      exact hat.allOrNothing_iff
  | _ => cases hrequest

end

/-- The node with the disabled targets `den` and `tv`. -/
def pairNode : DaemonConfig := nodeWith [⟨"den", true, none⟩, ⟨"tv", true, none⟩]

def pairToml : Toml := .ofTable [pairNode, nodeWith [⟨"den", true, none⟩]]

theorem pairToml_parsesBack : pairToml.ParsesBack := Toml.ofTable_parsesBack (by decide +kernel)

theorem pairNode_parse : DaemonConfig.parse pairToml pairNode.toText = .ok pairNode := by decide +kernel

/-- The daemon has started, with no mpv running. -/
def pairStarted : List Label := List.replicate 10 (.task 0 unavailable)

/-- The directories of the two targets. -/
def pairEntries : TargetEntries :=
  .ofList [("den", .directory [("mpv.conf", .file "")]), ("tv", .directory [("mpv.conf", .file "")])]

def pairHost : Host := ⟨7, fun tree => tree⟩

/-- The removal of `tv`, up to its last delete. -/
def removeTv (deleted : External) : List External := List.replicate 6 .ok ++ [deleted]

/-- The states the daemon and the removal come to, if the removal ends so. -/
theorem exists_removeTv (deleted : External) (result : System → Solo → Bool)
    (h : (runChecked (System.step pairToml) (fun _ _ => true)
      (System.initial pairNode pairNode.toText) pairStarted).any (fun s =>
        (runChecked (Solo.step pairToml pairHost ((Request.remove "tv").arguments true true))
          (fun _ _ => true) (.begun s.inner s.file pairEntries (Request.remove "tv").task)
          (removeTv deleted)).any (result s)) = true) :
    ∃ history s steps t, System.Run pairToml pairNode pairNode.toText history s ∧
      Solo.Run pairToml pairHost ((Request.remove "tv").arguments true true)
        (.begun s.inner s.file pairEntries (Request.remove "tv").task) steps t ∧
      steps.map Prod.snd = removeTv deleted ∧ result s t = true :=
  Solo.exists_run h

/-- A removal of `tv` that returns. -/
theorem all_or_nothing_iff_removeTv : ∃ history s steps t result,
    System.Run pairToml pairNode pairNode.toText history s ∧ t.task.pc = .done result ∧
    (Solo.AllOrNothing pairToml pairHost ((Request.remove "tv").arguments true true) (.remove "tv")
        (.begun s.inner s.file pairEntries (Request.remove "tv").task) t result ↔
      Solo.Undoable pairToml pairHost (.remove "tv")
        (.begun s.inner s.file pairEntries (Request.remove "tv").task) steps) := by
  obtain ⟨history, s, steps, t, hrun, hsteps, _, hresult⟩ := exists_removeTv .ok
    (fun _ t => t.task.pc.returned? == some true) (by decide +kernel)
  obtain ⟨result, hdone, _⟩ := Pc.done_of_returned? (beq_iff_eq.mp hresult)
  exact ⟨history, s, steps, t, result, hrun, hdone,
    all_or_nothing_iff pairToml_parsesBack pairNode_parse hrun rfl hsteps hdone⟩

/-- The last delete of the removal of `tv` fails: it returns an error, and `tv` is gone. -/
theorem remove_not_all_or_nothing : ∃ history s steps t result,
    System.Run pairToml pairNode pairNode.toText history s ∧
    Solo.Run pairToml pairHost ((Request.remove "tv").arguments true true)
      (.begun s.inner s.file pairEntries (Request.remove "tv").task) steps t ∧
    t.task.pc = .done result ∧
    ¬Solo.AllOrNothing pairToml pairHost ((Request.remove "tv").arguments true true) (.remove "tv")
      (.begun s.inner s.file pairEntries (Request.remove "tv").task) t result := by
  obtain ⟨history, s, steps, t, hrun, hsteps, _, hresult⟩ := exists_removeTv
    (.failed (.config "Permission denied (os error 13)"))
    (fun s t => t.task.pc.returned? == some false && decide ("tv" ∈ s.inner.targets.keys) &&
      decide ("tv" ∉ t.inner.targets.keys)) (by decide +kernel)
  simp only [Bool.and_eq_true, beq_iff_eq, decide_eq_true_eq] at hresult
  obtain ⟨⟨hreturned, hbefore⟩, hafter⟩ := hresult
  obtain ⟨result, hdone, herror⟩ := Pc.done_of_returned? hreturned
  refine ⟨history, s, steps, t, result, hrun, hsteps, hdone, fun hsame => ?_⟩
  cases result with
  | ok => cases herror
  | error =>
      refine hafter ?_
      rw [hsame.keys]
      exact hbefore

end MpvTargets

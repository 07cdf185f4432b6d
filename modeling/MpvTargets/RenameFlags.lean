import MpvTargets.ConfigPersistence
import MpvTargets.TaskShapes

/-! What `rename` hands over to the new name. The runtime moves with its flags, and the tasks that would
clear them know the old name only; so the flags stay as they were at the commit until somebody works
on the new name. -/

namespace MpvTargets

/-- No connection, no launch and no recovery loop. -/
def RuntimeTarget.idle (target : RuntimeTarget) : Bool :=
  !target.online && !target.launching && !target.recovering

/-- The await points of a rename of another target to this name. -/
def Pc.renamesTo (name : String) : Pc → Bool
  | renameLock old replacement | renameCheck old replacement => old ≠ name && replacement = name
  | renameMove old replacement | renameCandidate old replacement => old ≠ name && replacement = name
  | renamePersist old replacement _ | renameCommit old replacement _ =>
      old ≠ name && replacement = name
  | renameRecord replacement => replacement = name
  | _ => false

/-- Those that a rename to a name already taken comes to. -/
def Pc.renamesInVain (name : String) : Pc → Bool
  | renameLock old replacement | renameCheck old replacement => old ≠ name && replacement = name
  | renameRecord replacement => replacement = name
  | _ => false

/-- The task does not work on the name; at most it renames another target to it. -/
def Task.spares (name : String) (task : Task) : Bool :=
  !task.names.contains name || (task.pc.renamesTo name && task.callers.isEmpty)

/-- No operation on the name is issued. -/
def Label.spares (name : String) : Label → Bool
  | request issued => issued.task.spares name
  | _ => true

/-- The task neither works on the name nor can rename a target to it any more. -/
def Task.Apart (name : String) (task : Task) : Prop :=
  task.pc ≠ .startupList ∧
    (name ∉ task.names ∨ (task.pc.renamesInVain name = true ∧ task.callers = []))

section

variable {toml : Toml} {view : View} {task : Task} {external : External} {turn : Turn} {name : String}

theorem Task.spares_iff : task.spares name = true ↔
    name ∉ task.names ∨ (task.pc.renamesTo name = true ∧ task.callers = []) := by
  simp [Task.spares]

/-- Where a rename to a name already taken goes: on, or to its end. -/
theorem Task.turn_renamesInVain (h : task.turn toml view external = some turn)
    (hpc : task.pc.renamesInVain name = true) (hcallers : task.callers = [])
    (htaken : name ∈ view.inner.targets.keys) :
    (turn.pc.renamesInVain name = true ∨ ∃ result, turn.pc = .done result) ∧ turn.callers = [] ∧
      turn.spawned = [] := by
  rcases task with ⟨origin, pc, callers⟩
  obtain rfl : callers = [] := hcallers
  cases pc <;> first | cases hpc | skip
  case renameLock old replacement =>
    obtain ⟨_, rfl⟩ := Task.acquire_eq_some h
    exact ⟨Or.inl hpc, rfl, rfl⟩
  case renameCheck old replacement =>
    obtain ⟨_, rfl⟩ : old ≠ name ∧ replacement = name := by simpa [Pc.renamesInVain] using hpc
    simp only [Task.turn] at h
    split at h <;> cases h
    · exact ⟨Or.inr ⟨_, rfl⟩, rfl, rfl⟩
    · rename_i hchecked
      exact absurd htaken (renameChecked_names hchecked).2
  case renameRecord replacement =>
    simp only [Task.turn, Task.record, Task.read] at h
    split at h <;> cases h <;> exact ⟨Or.inr ⟨_, rfl⟩, rfl, rfl⟩

theorem Pc.not_actsOn_of_renamesInVain {pc : Pc} (h : pc.renamesInVain name = true)
    (external : External) : (pc.critical external).any (CriticalSection.actsOn name) = false := by
  cases pc <;> first | rfl | cases h

/-- A task apart from a name does nothing to its target. -/
theorem Task.Apart.not_actsOn (h : task.Apart name) (external : External) :
    (task.pc.critical external).any (CriticalSection.actsOn name) = false := by
  rcases h.2 with hnames | ⟨hpc, _⟩
  · rw [Bool.eq_false_iff]
    exact fun hacts => hnames (List.mem_append_left _ (Pc.mem_names_of_actsOn hacts))
  · exact Pc.not_actsOn_of_renamesInVain hpc external

/-- It stays apart, and so are the tasks it spawns. -/
theorem Task.Apart.after_turn (hapart : task.Apart name) (h : task.turn toml view external = some turn)
    (htaken : name ∈ view.inner.targets.keys) :
    Task.Apart name ⟨task.origin, turn.pc, turn.callers⟩ ∧ ∀ other ∈ turn.spawned, other.Apart name := by
  have hlist : turn.pc ≠ .startupList := (Task.turn_leads h).pc.ne_startupList
  rcases hapart.2 with hnames | ⟨hpc, hcallers⟩
  · refine ⟨⟨hlist, Or.inl fun hmem => ?_⟩, fun other hother => ⟨?_, Or.inl fun hmem => ?_⟩⟩
    · exact (Task.turn_names h hmem).elim hnames hapart.1
    · rcases Task.turn_spawned h hother with ⟨_, rfl⟩ | ⟨_, _, _, _, _, rfl⟩ <;>
        exact fun heq => (by cases heq)
    · exact hnames (Task.turn_spawned_names h hother hmem)
  · obtain ⟨hgoes, hcalled, hspawned⟩ := Task.turn_renamesInVain h hpc hcallers htaken
    refine ⟨⟨hlist, ?_⟩, fun other hother => ?_⟩
    · rcases hgoes with hvain | ⟨result, hdone⟩
      · exact Or.inr ⟨hvain, hcalled⟩
      · left
        simp [Task.names, hdone, hcalled, Pc.names]
    · rw [hspawned] at hother
      exact absurd hother List.not_mem_nil

end

/-- A target of this name nobody works on, with these flags. -/
structure System.Orphaned (name : String) (idle : Bool) (s : System) : Prop where
  target : ∃ target, s.inner.targets.get? name = some target ∧ target.idle = idle
  apart : ∀ task ∈ s.tasks, task.Apart name

namespace System.Orphaned

variable {toml : Toml} {name : String} {idle : Bool} {s s' : System} {label : Label}

theorem taken (h : s.Orphaned name idle) : name ∈ s.inner.targets.keys := by
  obtain ⟨target, htarget, _⟩ := h.target
  exact (OrderedMap.mem_keys_iff _).mpr ⟨target, htarget⟩

theorem step (h : s.Orphaned name idle) (hlabel : label.spares name = true)
    (hstep : System.step toml s label = some s') : s'.Orphaned name idle := by
  rcases System.step_cases hstep with
    ⟨index, external, task, turn, rfl, _, htask, hturn, rfl⟩ | ⟨request, rfl, _, rfl⟩ | ⟨_, _, rfl⟩
  · have hapart := h.apart task (List.mem_of_getElem? htask)
    obtain ⟨hself, hspawned⟩ := hapart.after_turn hturn h.taken
    refine ⟨?_, TaskPool.forall_advance hself ?_ hspawned⟩
    · rw [apply_inner hturn, Inner.get?_after_of_not_actsOn _ _ (hapart.not_actsOn external)]
      exact h.target
    · exact fun _ other _ hother => h.apart other (List.mem_of_getElem? hother)
  · refine ⟨h.target, fun task htask => ?_⟩
    rcases List.mem_append.mp htask with hold | hnew
    · exact h.apart task hold
    · rw [List.mem_singleton.mp hnew]
      refine ⟨by cases request <;> exact fun heq => (by cases heq), ?_⟩
      refine (Task.spares_iff.mp hlabel).imp_right fun hrenames => ⟨?_, hrenames.2⟩
      cases request <;> exact hrenames.1
  · exact { h with }

end System.Orphaned

/-- The list of the configured targets is taken before anything else runs. -/
theorem System.Started.startupList_alone {s : System} (h : s.Started) {task other : Task}
    (htask : task ∈ s.tasks) (hlist : task.pc = .startupList) (hother : other ∈ s.tasks) :
    other = task := by
  obtain ⟨first, others, pending, h⟩ := h
  rw [h.tasks] at htask hother
  have hfirst : task = first := by
    rcases List.mem_cons.mp htask with rfl | hmem
    · rfl
    · have hpast := (h.apart task hmem).2.1
      rw [Task.startsUp, hlist] at hpast
      cases hpast
  subst hfirst
  rw [h.alone hlist] at hother
  exact List.mem_singleton.mp hother

/-- A rename that does not hold the mutex finds the name taken. -/
theorem Pc.renamesInVain_of_free {pc : Pc} {name : String} (h : pc.renamesTo name = true)
    (hfree : pc.holdsMutations = false) : pc.renamesInVain name = true := by
  cases pc <;> first | exact h | cases hfree

/-- The commit of a rename, with the new name free of other work, leaves the flags under the new name. -/
theorem System.orphaned_of_renameCommit {toml : Toml} {s s' : System} {index : Nat} {task : Task}
    {external : External} {old name : String} {candidate : DaemonConfig}
    (hconfigured : s.Configured toml) (hstarted : s.Started) (htask : s.tasks[index]? = some task)
    (hpc : task.pc = .renameCommit old name candidate)
    (hspares : ∀ other ∈ s.tasks, other.spares name = true)
    (hstep : System.step toml s (.task index external) = some s') :
    ∃ target, s.inner.targets.get? old = some target ∧ s'.Orphaned name target.idle := by
  have hmem := List.mem_of_getElem? htask
  have hprepared := hconfigured.prepared task hmem
  rw [hpc] at hprepared
  obtain ⟨target, htarget⟩ := (OrderedMap.mem_keys_iff _).mp hprepared.1
  refine ⟨target, htarget, ?_⟩
  rcases System.step_cases hstep with
    ⟨_, _, _, turn, hlabel, _, hfound, hturn, rfl⟩ | ⟨_, hlabel, _, _⟩ | ⟨hlabel, _, _⟩
  · cases hlabel
    rw [htask] at hfound
    cases hfound
    have hself : task.callers = [] := by
      refine ((Task.spares_iff.mp (hspares task hmem)).resolve_left fun hnot => hnot ?_).2
      simp [Task.names, hpc, Pc.names]
    have hnext : turn.pc = .renameRecord name ∧ turn.callers = [] ∧ turn.spawned = [] := by
      have hview : s.view.inner.targets.get? old = some target := htarget
      simp only [Task.turn, hpc, hview] at hturn
      cases hturn
      exact ⟨rfl, hself, rfl⟩
    constructor
    · rw [apply_inner hturn, hpc]
      simp only [Pc.critical, Inner.after, CriticalSection.run, renameCommit, htarget]
      exact ⟨_, OrderedMap.get?_insert_self .., rfl⟩
    · refine TaskPool.forall_advance ?_ ?_ ?_
      · refine ⟨?_, Or.inr ⟨?_, hnext.2.1⟩⟩
        · rw [hnext.1]
          exact fun heq => (by cases heq)
        · rw [hnext.1]
          simp [Pc.renamesInVain]
      · intro position other hne hother
        have hholds : task.pc.holdsMutations = true := by
          rw [hpc]
          rfl
        have hfree := hconfigured.others_free htask hholds hne hother
        have hmember := List.mem_of_getElem? hother
        refine ⟨fun hlist => ?_, ?_⟩
        · have hsame := hstarted.startupList_alone hmember hlist hmem
          rw [← hsame, hpc] at hlist
          cases hlist
        · exact (Task.spares_iff.mp (hspares other hmember)).imp_right fun hrenames =>
            ⟨Pc.renamesInVain_of_free hrenames.1 hfree, hrenames.2⟩
      · rw [hnext.2.2]
        exact fun other hother => absurd hother List.not_mem_nil
  · cases hlabel
  · cases hlabel

/-- An idle target that is enabled launches at its next start, and a recovery loop is admitted after the
launch has failed. -/
theorem RuntimeTarget.idle_starts {target : RuntimeTarget} (hidle : target.idle = true)
    (henabled : target.config.disabled = false) :
    (startSection target).value = .ok true ∧
      (admitRecoverySection (clearLaunchingSection (startSection target).target).target).value =
        true := by
  simp only [RuntimeTarget.idle, Bool.and_eq_true, Bool.not_eq_true'] at hidle
  obtain ⟨⟨hoffline, hlaunching⟩, hrecovering⟩ := hidle
  cases hstopped : target.stopped <;>
    simp [startSection, clearLaunchingSection, admitRecoverySection, henabled, hoffline, hlaunching,
      hrecovering, hstopped]

/-- **A renamed target is idle exactly when it was idle at the commit of the rename**, in every state
after the commit as long as no operation on the new name has been issued. When it is, its next start
launches. -/
theorem renamed_target_idle_iff {toml : Toml} {config : DaemonConfig} {file old name : String}
    {history later : List (System × Label)} {s committed last : System} {index : Nat} {task : Task}
    {external : External} {candidate : DaemonConfig} (hparses : toml.ParsesBack)
    (hfile : DaemonConfig.parse toml file = .ok config)
    (hrun : System.Run toml config file history s) (htask : s.tasks[index]? = some task)
    (hpc : task.pc = .renameCommit old name candidate)
    (hspares : ∀ other ∈ s.tasks, other.spares name = true)
    (hcommit : System.step toml s (.task index external) = some committed)
    (hlater : Trace (System.step toml) committed later last)
    (hissued : ∀ entry ∈ later, entry.2.spares name = true) :
    ∃ before after, s.inner.targets.get? old = some before ∧
      last.inner.targets.get? name = some after ∧ (after.idle = true ↔ before.idle = true) ∧
      (before.idle = true → after.config.disabled = false → (startSection after).value = .ok true ∧
        (admitRecoverySection (clearLaunchingSection (startSection after).target).target).value = true) := by
  have hconfigured := (hrun.configured hparses (validate_of_parse hfile) hfile).1
  obtain ⟨before, hbefore, horphaned⟩ := System.orphaned_of_renameCommit hconfigured
    hrun.started.1 htask hpc hspares hcommit
  have hstep : ∀ t label u, System.Orphaned name before.idle t → label.spares name = true →
      System.step toml t label = some u → System.Orphaned name before.idle u :=
    fun t label u ht hlabel hu => ht.step hlabel hu
  obtain ⟨after, hafter, hidle⟩ := (Trace.invariant horphaned hstep hlater hissued).target
  have hiff : after.idle = true ↔ before.idle = true := by rw [hidle]
  exact ⟨before, after, hbefore, hafter, hiff, fun hbefore => RuntimeTarget.idle_starts (hiff.mpr hbefore)⟩

/-- The node with the one target `den`, which `tv` is renamed to. -/
def denNode : DaemonConfig := nodeWith [⟨"den", false, none⟩]

def denToml : Toml := .ofTable [tvNode, denNode]

theorem denToml_parsesBack : denToml.ParsesBack := Toml.ofTable_parsesBack (by decide +kernel)

theorem tvNode_parse_denToml : DaemonConfig.parse denToml tvNode.toText = .ok tvNode := by
  decide +kernel

/-- The running `tv` is stopped, and its rename, task 3, is about to commit. -/
def renameAfterStop : List Label :=
  startAttached ++ stopRunning ++ .request (.rename "tv" "den") :: List.replicate 5 (.task 3 .ok)

/-- After an undisturbed stop the renamed target is idle. -/
theorem renamed_target_idle_after_stop :
    ∃ history s committed after, System.Run denToml tvNode tvNode.toText history s ∧
      history.map Prod.snd = renameAfterStop ∧
      System.step denToml s (.task 3 .ok) = some committed ∧
      committed.inner.targets.get? "den" = some after ∧ after.idle = true := by
  have hlabels : (runChecked (System.step denToml) (fun _ _ => true)
      (System.initial tvNode tvNode.toText) renameAfterStop).any (fun s =>
        ((s.tasks[3]?).any fun task => match task.pc with
          | .renameCommit old name _ => old = "tv" && name = "den"
          | _ => false) &&
        (s.tasks.all fun task => task.spares "den") &&
        ((s.inner.targets.get? "tv").any RuntimeTarget.idle) &&
        (System.step denToml s (.task 3 .ok)).isSome) = true := by
    decide +kernel
  obtain ⟨history, s, hrun, hlabels, _, hresult⟩ := System.exists_run hlabels
  simp only [Bool.and_eq_true, Option.any_eq_true] at hresult
  obtain ⟨⟨⟨⟨task, htask, hat⟩, hspares⟩, before, hbefore, hidle⟩, hstep⟩ := hresult
  obtain ⟨committed, hcommit⟩ := Option.isSome_iff_exists.mp hstep
  split at hat
  · rename_i old name candidate hpc
    simp only [Bool.and_eq_true, decide_eq_true_eq] at hat
    obtain ⟨rfl, rfl⟩ := hat
    obtain ⟨found, after, hfound, hafter, hiff, _⟩ := renamed_target_idle_iff denToml_parsesBack
      tvNode_parse_denToml hrun htask hpc (List.all_eq_true.mp hspares) hcommit Trace.refl
      (by simp)
    rw [hbefore] at hfound
    cases hfound
    exact ⟨history, s, committed, after, hrun, hlabels, hcommit, hafter, hiff.mpr hidle⟩
  · cases hat

/-- The first launch of `tv` fails and its recovery loop waits; `tv` is stopped and renamed before the
loop comes back. -/
def renameWhileRecovering : List Label :=
  [.task 0 .ok, .task 0 .ok, .task 0 unavailable, .task 0 .ok, .task 0 .ok, .task 0 unavailable,
    .task 0 unavailable, .task 0 .ok, .task 0 .ok, .task 1 .ok] ++
  .request (.stop "tv") :: List.replicate 4 (.task 3 .ok) ++
  .request (.rename "tv" "den") :: List.replicate 7 (.task 4 .ok) ++ [.task 1 .ok, .task 2 .ok]

/-- All tasks of `tv` have ended and nobody ever worked on `den`, which counts as recovering for good. -/
theorem renamed_target_recovering :
    ∃ history s, System.Run denToml tvNode tvNode.toText history s ∧
      history.map Prod.snd = renameWhileRecovering ∧
      (∀ task ∈ s.tasks, task.names = []) ∧
      ∃ target, s.inner.targets.get? "den" = some target ∧ target.recovering = true := by
  have hlabels : (runChecked (System.step denToml) (fun _ _ => true)
      (System.initial tvNode tvNode.toText) renameWhileRecovering).any (fun s =>
        (s.tasks.all fun task => task.names = []) &&
        ((s.inner.targets.get? "den").any RuntimeTarget.recovering)) = true := by
    decide +kernel
  obtain ⟨history, s, hrun, hlabels, _, hresult⟩ := System.exists_run hlabels
  simp only [Bool.and_eq_true, List.all_eq_true, decide_eq_true_eq, Option.any_eq_true] at hresult
  obtain ⟨hended, target, htarget, hrecovering⟩ := hresult
  exact ⟨history, s, hrun, hlabels, hended, target, htarget, hrecovering⟩

end MpvTargets

import MpvTargets.ConfigAgreement
import MpvTargets.Scenario
import MpvTargets.SupervisorStartup

/-! The configuration mutators over whole runs. One task at a time holds the `mutations` mutex; only
that task changes the configuration, the names of the targets or the file, so what it found out before
releasing the inner mutex still holds when it commits. Outside such an operation the file holds the
configuration the daemon runs with. -/

namespace MpvTargets

section

variable {toml : Toml} {view : View} {task : Task} {external : External} {turn : Turn}

theorem resume_holdsMutations (result : Outcome) (callers : List Caller)
    (h : (resume result callers).pc.holdsMutations = true ∨
      ∃ caller ∈ (resume result callers).callers, caller.holdsMutations = true) :
    ∃ caller ∈ callers, caller.holdsMutations = true := by
  fun_induction resume result callers <;> simp_all [Pc.holdsMutations, Caller.holdsMutations]

theorem Pc.Next.holdsMutations {pc pc' : Pc} (h : pc.Next toml view external pc')
    (hpc : pc'.holdsMutations = true) : pc.holdsMutations = true ∨ view.mutationsFree = true := by
  cases h with
  | persistLock _ _ hfree | addLock _ _ _ hfree | removeLock _ hfree | renameLock _ _ hfree =>
      exact Or.inr hfree
  | _ => first | exact Or.inl rfl | cases hpc

/-- A task comes to hold the mutex only when it is free. -/
theorem Task.turn_holdsMutations (h : task.turn toml view external = some turn)
    (hholds : Task.holdsMutations ⟨task.origin, turn.pc, turn.callers⟩ = true) :
    task.holdsMutations = true ∨ view.mutationsFree = true := by
  simp only [Task.holdsMutations, Bool.or_eq_true, List.any_eq_true] at hholds ⊢
  refine (Task.turn_leads h).before (fun pc => pc.holdsMutations = true)
    (fun caller => caller.holdsMutations = true) _ (fun pc' hnext => hnext.holdsMutations)
    ?_ ?_ ?_ hholds
  · intro pc pc' caller hcalls hafter
    cases hcalls <;> simp_all [Pc.holdsMutations, Caller.holdsMutations]
  · exact fun result => resume_holdsMutations result task.callers
  · rintro _ (rfl | rfl) hpc <;> cases hpc

theorem spawned_holdsMutations (h : task.turn toml view external = some turn) {other : Task}
    (hother : other ∈ turn.spawned) : other.holdsMutations = false := by
  rcases Task.turn_spawned h hother with ⟨_, rfl⟩ | ⟨_, _, _, _, _, rfl⟩ <;> rfl

end

/-- At most one task holds the `mutations` mutex. -/
def System.Exclusive (s : System) : Prop :=
  TaskPool.AtMostOne (fun task => task.holdsMutations = true) s.tasks

theorem System.Exclusive.step {toml : Toml} {s s' : System} {label : Label} (h : s.Exclusive)
    (hstep : System.step toml s label = some s') : s'.Exclusive := by
  rcases System.step_cases hstep with
    ⟨index, external, task, turn, _, _, htask, hturn, rfl⟩ | ⟨request, _, _, rfl⟩ | ⟨_, _, rfl⟩
  · refine TaskPool.AtMostOne.advance h htask ?_ ?_
    · intro other hother
      simp [spawned_holdsMutations hturn hother]
    · intro hholds
      rcases Task.turn_holdsMutations hturn hholds with hold | hfree
      · exact Or.inl hold
      · right
        intro position other _ hother
        simpa using List.all_eq_true.mp hfree other (List.mem_of_getElem? hother)
  · refine TaskPool.AtMostOne.append h ?_
    intro other hother
    rw [List.mem_singleton.mp hother]
    cases request <;> exact nofun
  · exact h

/-- What a task relies on when it comes back to the inner mutex. -/
def Pc.Prepared (inner : Inner) : Pc → Prop
  | addPrepare target | addCandidate target => target.name ∉ inner.targets.keys
  | addPersist target candidate =>
      target.name ∉ inner.targets.keys ∧ candidate = inner.config.push target
  | addCommit target candidate =>
      target.name ∉ inner.targets.keys ∧ candidate = inner.config.push target ∧
        candidate.validate = .ok ()
  | removePersist name candidate => candidate = inner.config.without name
  | removeCommit name candidate =>
      candidate = inner.config.without name ∧ candidate.validate = .ok ()
  | renameMove name replacement | renameCandidate name replacement =>
      name ∈ inner.targets.keys ∧ replacement ∉ inner.targets.keys
  | renamePersist name replacement candidate =>
      name ∈ inner.targets.keys ∧ replacement ∉ inner.targets.keys ∧
        inner.config.renamed name replacement = some candidate
  | renameCommit name replacement candidate =>
      name ∈ inner.targets.keys ∧ replacement ∉ inner.targets.keys ∧
        inner.config.renamed name replacement = some candidate ∧ candidate.validate = .ok ()
  | _ => True

theorem Pc.prepared_of_not_holds {pc : Pc} (h : pc.holdsMutations = false) (inner : Inner) :
    pc.Prepared inner := by
  cases pc <;> trivial

theorem Pc.Prepared.congr {pc : Pc} {inner inner' : Inner} (h : pc.Prepared inner)
    (hconfig : inner'.config = inner.config) (hkeys : inner'.targets.keys = inner.targets.keys) :
    pc.Prepared inner' := by
  cases pc <;> simp only [Pc.Prepared, hconfig, hkeys] at h ⊢ <;> exact h

theorem addChecked_fresh {inner : Inner} {name : String} {source : Option String} {enable : Bool}
    {target : TargetConfig} (h : addChecked inner name source enable = .ok target) :
    target.name ∉ inner.targets.keys := by
  rw [addChecked_name h, ← OrderedMap.get?_eq_none_iff]
  unfold addChecked at h
  split at h
  · cases h
  · assumption

theorem renameChecked_names {inner : Inner} {name replacement : String}
    (h : renameChecked inner name replacement = .ok ()) :
    name ∈ inner.targets.keys ∧ replacement ∉ inner.targets.keys := by
  rw [renameChecked] at h
  split at h
  · cases h
  · rename_i target htarget
    split at h
    · cases h
    · rename_i hnone
      exact ⟨(OrderedMap.mem_keys_iff _).mpr ⟨target, htarget⟩,
        (OrderedMap.get?_eq_none_iff _).mp hnone⟩

theorem renameChecked_stopped {inner : Inner} {name replacement : String}
    (h : renameChecked inner name replacement = .ok ()) :
    ∃ target, inner.targets.get? name = some target ∧ target.stopped = true := by
  rw [renameChecked] at h
  split at h
  · cases h
  · rename_i target htarget
    split at h
    · cases h
    · split_ifs at h with hstopped
      exact ⟨target, htarget, hstopped⟩

section

variable {toml : Toml} {view : View} {task : Task} {external : External} {turn : Turn}

theorem Pc.prepared_of_resumes {pc : Pc} (h : pc.resumes = true) (inner : Inner) :
    pc.Prepared inner := by
  cases pc <;> trivial

theorem Pc.Next.prepared {pc pc' : Pc} (h : pc.Next toml view external pc')
    (hprepared : pc.Prepared view.inner) :
    pc'.Prepared (view.inner.after toml (pc.critical external)) := by
  cases h with
  | addCheck _ _ _ _ hchecked => exact addChecked_fresh hchecked
  | addPrepare | renameMove => exact hprepared
  | addCandidate target => exact ⟨hprepared, rfl⟩
  | addPersist _ _ _ hsource =>
      exact ⟨hprepared.1, hprepared.2, (validateAndPersist_eq_ok hsource).1⟩
  | removeCandidate => exact rfl
  | removePersist _ _ _ hsource => exact ⟨hprepared, (validateAndPersist_eq_ok hsource).1⟩
  | renameCheck _ _ hchecked => exact renameChecked_names hchecked
  | renameCandidate _ _ _ hrenamed => exact ⟨hprepared.1, hprepared.2, hrenamed⟩
  | renamePersist _ _ _ _ hsource =>
      exact ⟨hprepared.1, hprepared.2.1, hprepared.2.2, (validateAndPersist_eq_ok hsource).1⟩
  | _ => trivial

/-- The section of an await point keeps the agreement, given what its operation has found out. -/
theorem Inner.Agrees.after {inner : Inner} (h : inner.Agrees) {pc : Pc} (hprepared : pc.Prepared inner)
    (external : External) : (inner.after toml (pc.critical external)).Agrees := by
  cases pc
  case persist name change => exact (h.persistTargetChange external change).1
  case addCommit target candidate =>
      obtain ⟨hfresh, rfl, hvalid⟩ := hprepared
      exact h.addCommit hfresh hvalid
  case removeCommit name candidate =>
      obtain ⟨rfl, hvalid⟩ := hprepared
      exact h.removeCommit hvalid
  case renameCommit name replacement candidate =>
      obtain ⟨hname, hfresh, hcandidate, hvalid⟩ := hprepared
      exact h.renameCommit hname hfresh hcandidate hvalid
  all_goals first
    | exact h
    | exact h.onTarget _

/-- What a task has found out it still relies on after its step. -/
theorem Task.turn_prepared (h : task.turn toml view external = some turn)
    (hprepared : task.pc.Prepared view.inner) :
    turn.pc.Prepared (view.inner.after toml (task.pc.critical external)) := by
  have hleads := (Task.turn_leads h).pc
  generalize task.pc = pc, turn.pc = pc' at hleads hprepared ⊢
  cases hleads with
  | next hnext => exact hnext.prepared hprepared
  | call hcalls => cases hcalls <;> trivial
  | resume hresumes => exact Pc.prepared_of_resumes hresumes _
  | panic => trivial

end

/-- The candidate in the file of a task that has yet to commit it. -/
def Pc.persisted? : Pc → Option DaemonConfig
  | addCommit _ candidate | removeCommit _ candidate | renameCommit _ _ candidate => some candidate
  | _ => none

theorem Pc.holds_of_persisted? {pc : Pc} {candidate : DaemonConfig}
    (h : pc.persisted? = some candidate) : pc.holdsMutations = true := by
  cases pc <;> first | rfl | cases h

theorem Pc.holds_of_candidate? {pc : Pc} {candidate : DaemonConfig}
    (h : pc.candidate? = some candidate) : pc.holdsMutations = true := by
  cases pc <;> first | rfl | cases h

theorem Task.holds_of_pc {task : Task} (h : task.pc.holdsMutations = true) :
    task.holdsMutations = true := by
  rw [Task.holdsMutations, h, Bool.true_or]

section

variable {toml : Toml} {view : View} {task : Task} {external : External} {turn : Turn}

/-- Only a persisted candidate leads to a commit. -/
theorem Pc.Leads.persisted? {pc pc' : Pc} (h : pc.Leads toml view external pc')
    (hcandidate : pc.candidate? = none) : pc'.persisted? = none := by
  cases h with
  | next hnext => cases hnext <;> first | rfl | cases hcandidate
  | call hcalls => cases hcalls <;> rfl
  | resume hresumes => cases pc' <;> first | rfl | cases hresumes
  | panic => rfl

theorem Task.turn_effect_of_candidate? (h : task.turn toml view external = some turn)
    (hcandidate : task.pc.candidate? = none) (source : String) : turn.effect ≠ .writeFile source := by
  cases hcritical : task.pc.critical external with
  | some critical =>
      rw [Task.turn_effect_of_critical h hcritical]
      split_ifs <;> exact nofun
  | none =>
      rcases Task.turn_effect_of_none h hcritical with ⟨_, he⟩ | ⟨_, he | ⟨_, _, hsome, _⟩⟩
      · rw [he]
        exact nofun
      · rw [he]
        exact nofun
      · cases hcandidate.symm.trans hsome

/-- The steps that write the file outside the inner mutex are those that lead to a commit. -/
theorem Task.turn_persisted? (h : task.turn toml view external = some turn) :
    (∃ candidate source, task.pc.candidate? = some candidate ∧
      validateAndPersist toml external candidate = .ok source ∧
      turn.effect = .writeFile source ∧ turn.pc.persisted? = some candidate) ∨
    ((∀ source, turn.effect ≠ .writeFile source) ∧ turn.pc.persisted? = none) := by
  cases hcandidate : task.pc.candidate? with
  | none =>
      exact Or.inr ⟨Task.turn_effect_of_candidate? h hcandidate,
        (Task.turn_leads h).pc.persisted? hcandidate⟩
  | some candidate =>
      have hresume : ∀ result, (resume result task.callers).pc.persisted? = none := by
        intro result
        have hresumes := resume_resumes result task.callers
        generalize (resume result task.callers).pc = pc at hresumes ⊢
        cases pc <;> first | rfl | cases hresumes
      rcases task with ⟨origin, pc, callers⟩
      cases pc <;> cases hcandidate
      all_goals
        simp only [Task.turn] at h
        split at h <;> cases h
        · exact Or.inr ⟨fun _ h => (by cases h), hresume _⟩
        · rename_i source hsource
          exact Or.inl ⟨candidate, source, rfl, hsource, rfl, rfl⟩

end

/-- What a section leaves of the file. -/
def CriticalSection.fileAfter (toml : Toml) (inner : Inner) (file : String) :
    Option CriticalSection → String
  | none => file
  | some critical => ((critical.run toml inner).file).getD file

theorem System.apply_file {toml : Toml} {s : System} {index : Nat} {task : Task}
    {external : External} {turn : Turn} (h : task.turn toml s.view external = some turn)
    (hwrite : ∀ source, turn.effect ≠ .writeFile source) :
    (s.apply toml index task turn).file =
      CriticalSection.fileAfter toml s.inner s.file (task.pc.critical external) := by
  cases hcritical : task.pc.critical external with
  | some critical =>
      rw [System.apply, Task.turn_effect_of_critical h hcritical]
      split_ifs <;> rfl
  | none =>
      rw [System.apply]
      rcases Task.turn_effect_of_none h hcritical with ⟨_, he⟩ | ⟨_, he | ⟨_, source, _, _, he⟩⟩
      · rw [he]
        rfl
      · rw [he]
        rfl
      · exact absurd he (hwrite source)

/-- A printed and validated candidate is read back. -/
theorem parse_of_validateAndPersist {toml : Toml} (hparses : toml.ParsesBack) {external : External}
    {candidate : DaemonConfig} {source : String}
    (h : validateAndPersist toml external candidate = .ok source) :
    DaemonConfig.parse toml source = .ok candidate := by
  obtain ⟨hvalid, hprinted⟩ := validateAndPersist_eq_ok h
  simp only [DaemonConfig.parse, hparses _ _ hprinted, hvalid, bind, Except.bind, pure, Except.pure]

/-- The configuration, the targets and the file agree, each as far as the mutexes promise it. -/
structure System.Configured (toml : Toml) (s : System) : Prop where
  agrees : s.inner.Agrees
  exclusive : s.Exclusive
  prepared : ∀ task ∈ s.tasks, task.pc.Prepared s.inner
  persisted : ∀ task ∈ s.tasks, ∀ candidate, task.pc.persisted? = some candidate →
    DaemonConfig.parse toml s.file = .ok candidate
  file : (∀ task ∈ s.tasks, task.pc.persisted? = none) →
    DaemonConfig.parse toml s.file = .ok s.inner.config

/-! ### Steps -/

/-- The sections that change the configuration. -/
def CriticalSection.configures : CriticalSection → Bool
  | onTarget _ _ => false
  | _ => true

theorem Pc.holds_of_configures {pc : Pc} {external : External}
    (h : (pc.critical external).any CriticalSection.configures = true) :
    pc.holdsMutations = true := by
  cases pc <;> first | rfl | cases h

theorem Pc.persisted?_of_not_configures {pc : Pc} {external : External}
    (h : (pc.critical external).any CriticalSection.configures = false) : pc.persisted? = none := by
  cases pc <;> first | rfl | cases h

/-- The other sections leave the configuration, the names of the targets and the file alone. -/
theorem Inner.after_of_not_configures (toml : Toml) (inner : Inner)
    {critical : Option CriticalSection}
    (h : critical.any CriticalSection.configures = false) :
    (inner.after toml critical).config = inner.config ∧
    (inner.after toml critical).targets.keys = inner.targets.keys ∧
    ∀ file, CriticalSection.fileAfter toml inner file critical = file := by
  rcases critical with _ | critical
  · exact ⟨rfl, rfl, fun _ => rfl⟩
  cases critical with
  | onTarget name op =>
      simp only [Inner.after, CriticalSection.fileAfter, CriticalSection.run, Inner.onTarget]
      cases htarget : inner.targets.get? name with
      | none => exact ⟨rfl, rfl, fun _ => rfl⟩
      | some target => exact ⟨rfl, OrderedMap.keys_insert_of_get? _ _ htarget, fun _ => rfl⟩
  | persistTargetChange _ _ _ => cases h
  | addCommit _ _ => cases h
  | removeCommit _ _ => cases h
  | renameCommit _ _ _ => cases h

namespace System.Configured

variable {toml : Toml} {s s' : System} {label : Label} {index : Nat} {task : Task}
  {external : External} {turn : Turn}

/-- While a task holds the mutex the others do not. -/
theorem others_free (h : s.Configured toml) (htask : s.tasks[index]? = some task)
    (hholds : task.pc.holdsMutations = true) {position : Nat} {other : Task}
    (hne : position ≠ index) (hother : s.tasks[position]? = some other) :
    other.pc.holdsMutations = false := by
  rw [Bool.eq_false_iff]
  intro hpc
  exact hne (h.exclusive position index other task hother htask (Task.holds_of_pc hpc)
    (Task.holds_of_pc hholds))

theorem others_persisted? (h : s.Configured toml) (htask : s.tasks[index]? = some task)
    (hholds : task.pc.holdsMutations = true) {position : Nat} {other : Task}
    (hne : position ≠ index) (hother : s.tasks[position]? = some other) :
    other.pc.persisted? = none := by
  cases hpersisted : other.pc.persisted? with
  | none => rfl
  | some candidate =>
      have hfree := h.others_free htask hholds hne hother
      rw [Pc.holds_of_persisted? hpersisted] at hfree
      cases hfree

theorem agrees_after (h : s.Configured toml) (htask : task ∈ s.tasks) (external : External) :
    (s.inner.after toml (task.pc.critical external)).Agrees :=
  h.agrees.after (h.prepared task htask) external

/-- After a section that changes the configuration the file holds the new one. -/
theorem file_after (h : s.Configured toml) (hparses : toml.ParsesBack)
    (htask : s.tasks[index]? = some task)
    (hconfigures : (task.pc.critical external).any CriticalSection.configures = true) :
    DaemonConfig.parse toml
        (CriticalSection.fileAfter toml s.inner s.file (task.pc.critical external)) =
      .ok (s.inner.after toml (task.pc.critical external)).config := by
  have hmem := List.mem_of_getElem? htask
  have hholds := Pc.holds_of_configures hconfigures
  have hothers : ∀ (position : Nat) (other : Task), position ≠ index →
      s.tasks[position]? = some other → other.pc.persisted? = none :=
    fun _ _ hne hother => h.others_persisted? htask hholds hne hother
  have hpersisted := h.persisted task hmem
  have hprepared := h.prepared task hmem
  rcases task with ⟨origin, pc, callers⟩
  cases pc
  case persist name change =>
      have hall : ∀ other ∈ s.tasks, other.pc.persisted? = none := by
        intro other hother
        obtain ⟨position, hposition⟩ := List.mem_iff_getElem?.mp hother
        by_cases hne : position = index
        · rw [hne, htask] at hposition
          cases hposition
          rfl
        · exact hothers position other hne hposition
      simp only [Pc.critical, Inner.after, CriticalSection.fileAfter, CriticalSection.run]
      rcases persistTargetChange_cases toml external name change s.inner with
        ⟨_, he⟩ | ⟨_, _, _, source, _, _, hsource, ⟨_, he⟩ | ⟨_, _, he⟩⟩
      · rw [he]
        exact h.file hall
      all_goals
        rw [he]
        exact parse_of_validateAndPersist hparses hsource
  case addCommit target candidate => exact hpersisted candidate rfl
  case removeCommit name candidate => exact hpersisted candidate rfl
  case renameCommit name replacement candidate =>
      obtain ⟨target, htarget⟩ := (OrderedMap.mem_keys_iff _).mp hprepared.1
      simp only [Pc.critical, Inner.after, CriticalSection.fileAfter, CriticalSection.run,
        renameCommit, htarget]
      exact hpersisted candidate rfl
  all_goals cases hconfigures

theorem prepared_after (h : s.Configured toml) (htask : s.tasks[index]? = some task)
    (hturn : task.turn toml s.view external = some turn) :
    ∀ other ∈ (s.apply toml index task turn).tasks,
      other.pc.Prepared (s.apply toml index task turn).inner := by
  rw [apply_inner hturn]
  refine TaskPool.forall_advance ?_ ?_ ?_
  · exact Task.turn_prepared hturn (h.prepared task (List.mem_of_getElem? htask))
  · intro position other hne hother
    cases hconfigures : (task.pc.critical external).any CriticalSection.configures with
    | true =>
        exact Pc.prepared_of_not_holds
          (h.others_free htask (Pc.holds_of_configures hconfigures) hne hother) _
    | false =>
        obtain ⟨hconfig, hkeys, _⟩ := s.inner.after_of_not_configures toml hconfigures
        exact (h.prepared other (List.mem_of_getElem? hother)).congr hconfig hkeys
  · intro other hother
    have hfree := spawned_holdsMutations hturn hother
    rw [Task.holdsMutations, Bool.or_eq_false_iff] at hfree
    exact Pc.prepared_of_not_holds hfree.1 _

theorem spawned_persisted? (hturn : task.turn toml s.view external = some turn) {other : Task}
    (hother : other ∈ turn.spawned) : other.pc.persisted? = none := by
  rcases Task.turn_spawned hturn hother with ⟨_, rfl⟩ | ⟨_, _, _, _, _, rfl⟩ <;> rfl

/-- A step that writes a candidate to the file leads its task to the commit. -/
theorem task_step_writes (h : s.Configured toml) (hparses : toml.ParsesBack)
    (htask : s.tasks[index]? = some task) (hturn : task.turn toml s.view external = some turn)
    {candidate : DaemonConfig} {source : String} (hcandidate : task.pc.candidate? = some candidate)
    (hsource : validateAndPersist toml external candidate = .ok source)
    (heffect : turn.effect = .writeFile source) (hpersisted : turn.pc.persisted? = some candidate)
    (hexclusive : (s.apply toml index task turn).Exclusive) :
    (s.apply toml index task turn).Configured toml := by
  have hmem := List.mem_of_getElem? htask
  have hfile : (s.apply toml index task turn).file = source := by
    rw [System.apply, heffect]
    rfl
  exact {
    agrees := by
      rw [apply_inner hturn]
      exact h.agrees_after hmem external
    exclusive := hexclusive
    prepared := h.prepared_after htask hturn
    persisted := by
      rw [hfile]
      refine TaskPool.forall_advance ?_ ?_ ?_
      · intro other hother
        rw [hpersisted] at hother
        cases hother
        exact parse_of_validateAndPersist hparses hsource
      · intro position other hne hother candidate' hcandidate'
        rw [h.others_persisted? htask (Pc.holds_of_candidate? hcandidate) hne hother] at hcandidate'
        cases hcandidate'
      · intro other hother candidate' hcandidate'
        rw [spawned_persisted? hturn hother] at hcandidate'
        cases hcandidate'
    file := by
      intro hnone
      have hself := hnone _ (TaskPool.mem_advance_self htask)
      rw [hpersisted] at hself
      cases hself }

/-- Any other step leaves no candidate of its task in the file. -/
theorem task_step_settles (h : s.Configured toml) (hparses : toml.ParsesBack)
    (htask : s.tasks[index]? = some task) (hturn : task.turn toml s.view external = some turn)
    (hwrite : ∀ source, turn.effect ≠ .writeFile source) (hpersisted : turn.pc.persisted? = none)
    (hexclusive : (s.apply toml index task turn).Exclusive) :
    (s.apply toml index task turn).Configured toml := by
  have hmem := List.mem_of_getElem? htask
  have hfile : (s.apply toml index task turn).file = _ := System.apply_file hturn hwrite
  have hinner : (s.apply toml index task turn).inner = _ := apply_inner hturn
  refine ⟨hinner ▸ h.agrees_after hmem external, hexclusive, h.prepared_after htask hturn, ?_, ?_⟩
  · rw [hfile]
    refine TaskPool.forall_advance ?_ ?_ ?_
    · intro candidate hcandidate
      rw [hpersisted] at hcandidate
      cases hcandidate
    · intro position other hne hother candidate hcandidate
      cases hconfigures : (task.pc.critical external).any CriticalSection.configures with
      | true =>
          rw [h.others_persisted? htask (Pc.holds_of_configures hconfigures) hne hother] at hcandidate
          cases hcandidate
      | false =>
          rw [(s.inner.after_of_not_configures toml hconfigures).2.2]
          exact h.persisted other (List.mem_of_getElem? hother) candidate hcandidate
    · intro other hother candidate hcandidate
      rw [spawned_persisted? hturn hother] at hcandidate
      cases hcandidate
  · intro hnone
    rw [hfile, hinner]
    cases hconfigures : (task.pc.critical external).any CriticalSection.configures with
    | true => exact h.file_after hparses htask hconfigures
    | false =>
        obtain ⟨hconfig, _, hfile'⟩ := s.inner.after_of_not_configures toml hconfigures
        rw [hconfig, hfile']
        refine h.file fun other hother => ?_
        obtain ⟨position, hposition⟩ := List.mem_iff_getElem?.mp hother
        by_cases hne : position = index
        · rw [hne, htask] at hposition
          cases hposition
          exact Pc.persisted?_of_not_configures hconfigures
        · exact hnone other (List.mem_of_getElem? (TaskPool.getElem?_advance_of_ne hne hposition))

theorem step (h : s.Configured toml) (hparses : toml.ParsesBack)
    (hstep : System.step toml s label = some s') : s'.Configured toml := by
  have hexclusive := h.exclusive.step hstep
  rcases System.step_cases hstep with
    ⟨index, external, task, turn, _, _, htask, hturn, rfl⟩ | ⟨request, _, _, rfl⟩ | ⟨_, _, rfl⟩
  · rcases Task.turn_persisted? hturn with
      ⟨candidate, source, hcandidate, hsource, heffect, hpersisted⟩ | ⟨hwrite, hpersisted⟩
    · exact h.task_step_writes hparses htask hturn hcandidate hsource heffect hpersisted hexclusive
    · exact h.task_step_settles hparses htask hturn hwrite hpersisted hexclusive
  · have hnew : request.task.pc.persisted? = none ∧ request.task.pc.holdsMutations = false := by
      cases request <;> exact ⟨rfl, rfl⟩
    refine ⟨h.agrees, hexclusive, ?_, ?_, ?_⟩
    · intro other hother
      rcases List.mem_append.mp hother with hother | hother
      · exact h.prepared other hother
      · rw [List.mem_singleton.mp hother]
        exact Pc.prepared_of_not_holds hnew.2 _
    · intro other hother candidate hcandidate
      rcases List.mem_append.mp hother with hother | hother
      · exact h.persisted other hother candidate hcandidate
      · rw [List.mem_singleton.mp hother, hnew.1] at hcandidate
        cases hcandidate
    · exact fun hnone => h.file fun other hother => hnone other (List.mem_append_left _ hother)
  · exact { h with }

end System.Configured

theorem System.configured_initial {toml : Toml} {config : DaemonConfig} {file : String}
    (hvalid : config.validate = .ok ()) (hfile : DaemonConfig.parse toml file = .ok config) :
    (System.initial config file).Configured toml where
  agrees := Inner.Agrees.initial hvalid
  exclusive := TaskPool.AtMostOne.singleton _ _
  prepared := by
    intro task htask
    rw [List.mem_singleton.mp htask]
    trivial
  persisted := by
    intro task htask candidate hcandidate
    rw [List.mem_singleton.mp htask] at hcandidate
    cases hcandidate
  file := fun _ => hfile

theorem System.Run.configured {toml : Toml} {config : DaemonConfig} {file : String}
    {history : List (System × Label)} {s : System} (hparses : toml.ParsesBack)
    (hvalid : config.validate = .ok ()) (hfile : DaemonConfig.parse toml file = .ok config)
    (hrun : System.Run toml config file history s) :
    s.Configured toml ∧ ∀ entry ∈ history, entry.1.Configured toml := by
  have hstart := System.configured_initial hvalid hfile
  have hstep : ∀ t label u, System.Configured toml t → True → System.step toml t label = some u →
      System.Configured toml u := fun _ _ _ ht _ hu => ht.step hparses hu
  exact ⟨Trace.invariant hstart hstep hrun fun _ _ => trivial,
    Trace.invariant_visited hstart hstep hrun fun _ _ => trivial⟩

/-- A task panics only where an expectation of the source fails. -/
theorem Pc.Leads.panics {toml : Toml} {view : View} {external : External} {pc : Pc}
    (h : pc.Leads toml view external .panicked) : pc.Panics toml view external := by
  cases h with
  | next hnext => cases hnext
  | call hcalls => cases hcalls
  | resume hresumes => cases hresumes
  | panic hpanics => exact hpanics

/-- No task has panicked. -/
def System.Sound (s : System) : Prop := ∀ task ∈ s.tasks, task.pc ≠ .panicked

theorem System.StartsUp.startupNext {s : System} {first : Task} {others : List Task}
    {pending : List String} (h : s.StartsUp first others pending) {task : Task}
    (htask : task ∈ s.tasks) {name : String} {rest : List String}
    (hpc : task.pc = .startupNext (name :: rest)) :
    ∃ target, s.inner.targets.get? name = some target := by
  rw [h.tasks] at htask
  rcases List.mem_cons.mp htask with rfl | hother
  · have hat := h.at_
    rw [hpc] at hat
    generalize task.callers = callers at hat
    cases hat with
    | next =>
        obtain ⟨entry, hentry⟩ := h.untouched name List.mem_cons_self
        exact ⟨_, hentry⟩
    | started hstarts => cases hstarts
    | ensured hensures => cases hensures
  · have hpast := (h.apart task hother).2.1
    rw [Task.startsUp, hpc] at hpast
    cases hpast

theorem System.Sound.step {toml : Toml} {s s' : System} {label : Label} (h : s.Sound)
    (hconfigured : s.Configured toml) (hstarted : s.Started)
    (hstep : System.step toml s label = some s') : s'.Sound := by
  rcases System.step_cases hstep with
    ⟨index, external, task, turn, _, _, htask, hturn, rfl⟩ | ⟨request, _, _, rfl⟩ | ⟨_, _, rfl⟩
  · have hmem := List.mem_of_getElem? htask
    refine TaskPool.forall_advance ?_ ?_ ?_
    · intro hpanic
      have hleads := (Task.turn_leads hturn).pc
      rw [show turn.pc = .panicked from hpanic] at hleads
      have hpanics := hleads.panics
      generalize hpc : task.pc = pc at hpanics
      cases hpanics with
      | persist name change hpersist =>
          obtain ⟨result, hresult⟩ : ∃ result,
              (persistTargetChange toml external name change s.inner).2 = .returned result :=
            (hconfigured.agrees.persistTargetChange external change).2
          cases hresult.symm.trans hpersist
      | renameCommit name replacement candidate hnone =>
          have hprepared := hconfigured.prepared task hmem
          rw [hpc] at hprepared
          exact (OrderedMap.get?_eq_none_iff _).mp hnone hprepared.1
      | startupNext name rest hnone =>
          obtain ⟨first, others, pending, hstarts⟩ := hstarted
          obtain ⟨target, htarget⟩ := hstarts.startupNext hmem hpc
          cases htarget.symm.trans hnone
    · exact fun _ other _ hother => h other (List.mem_of_getElem? hother)
    · intro other hother
      rcases Task.turn_spawned hturn hother with ⟨_, rfl⟩ | ⟨_, _, _, _, _, rfl⟩ <;> exact nofun
  · intro other hother
    rcases List.mem_append.mp hother with hother | hother
    · exact h other hother
    · rw [List.mem_singleton.mp hother]
      cases request <;> exact nofun
  · exact h

/-- What makes the `expect`s and the indexing of the supervisor safe, with its outcome. -/
structure System.InOrder (toml : Toml) (s : System) : Prop where
  configured : s.Configured toml
  started : s.Started
  sound : s.Sound

theorem System.Run.inOrder {toml : Toml} {config : DaemonConfig} {file : String}
    {history : List (System × Label)} {s : System} (hparses : toml.ParsesBack)
    (hvalid : config.validate = .ok ()) (hfile : DaemonConfig.parse toml file = .ok config)
    (hrun : System.Run toml config file history s) : s.InOrder toml := by
  have hstart : (System.initial config file).InOrder toml := by
    refine ⟨System.configured_initial hvalid hfile, ⟨_, _, _, System.startsUp_initial config file⟩, ?_⟩
    intro task htask
    rw [List.mem_singleton.mp htask]
    exact nofun
  have hstep : ∀ t label u, System.InOrder toml t → True → System.step toml t label = some u →
      System.InOrder toml u :=
    fun _ _ _ ht _ hu =>
      ⟨ht.configured.step hparses hu, ht.started.step hu, ht.sound.step ht.configured ht.started hu⟩
  exact Trace.invariant hstart hstep hrun fun _ _ => trivial

theorem validate_of_parse {toml : Toml} {file : String} {config : DaemonConfig}
    (h : DaemonConfig.parse toml file = .ok config) : config.validate = .ok () := by
  simp only [DaemonConfig.parse, bind, Except.bind, throw, throwThe, MonadExceptOf.throw] at h
  split at h
  · cases h
  · split at h
    · cases h
    · rename_i hvalid
      cases h
      exact hvalid

/-- **The configuration, the runtime and the disk agree** in every reachable state, and no `expect` ever
fails. -/
theorem config_runtime_and_disk_agree {toml : Toml} {config : DaemonConfig} {file : String}
    {history : List (System × Label)} {s : System} (hparses : toml.ParsesBack)
    (hfile : DaemonConfig.parse toml file = .ok config)
    (hrun : System.Run toml config file history s) :
    s.inner.config.validate = .ok () ∧ s.inner.config.names.Nodup ∧
      (∀ name, name ∈ s.inner.targets.keys ↔ name ∈ s.inner.config.names) ∧
      (∀ name target, s.inner.targets.get? name = some target →
        s.inner.config.target? name = some target.config ∧ target.config.name = name) ∧
      (s.mutationsFree = true → DaemonConfig.parse toml s.file = .ok s.inner.config) ∧
      ∀ task ∈ s.tasks, task.pc ≠ .panicked := by
  have hvalid := validate_of_parse hfile
  obtain ⟨hconfigured, _⟩ := hrun.configured hparses hvalid hfile
  have hagrees := hconfigured.agrees
  refine ⟨hagrees.valid, hagrees.nodup, fun _ => hagrees.mem_keys_iff, ?_, ?_,
    (hrun.inOrder hparses hvalid hfile).sound⟩
  · intro name target htarget
    have hentry := hagrees.target?_of_get? htarget
    exact ⟨hentry, DaemonConfig.name_of_target? hentry⟩
  · intro hfree
    refine hconfigured.file fun task htask => ?_
    have hholds := List.all_eq_true.mp hfree task htask
    cases hpersisted : task.pc.persisted? with
    | none => rfl
    | some candidate =>
        rw [Task.holds_of_pc (Pc.holds_of_persisted? hpersisted)] at hholds
        cases hholds

/-- Disabling the running `tv` takes the configuration, the target and the file along. -/
theorem config_runtime_and_disk_agree_after_disable :
    ∃ history s, System.Run tvToml tvNode tvNode.toText history s ∧
      s.inner.config = tvDisabledNode ∧ DaemonConfig.parse tvToml s.file = .ok tvDisabledNode := by
  have hlabels : (runChecked (System.step tvToml) (fun _ _ => true)
      (System.initial tvNode tvNode.toText)
      (startAttached ++ .request (.disable "tv") :: List.replicate 10 (.task 2 .ok))).any
        (fun s => s.inner.config = tvDisabledNode ∧ s.mutationsFree = true) = true := by
    decide +kernel
  obtain ⟨history, s, hrun, _, _, hresult⟩ := System.exists_run hlabels
  obtain ⟨hconfig, hfree⟩ := of_decide_eq_true hresult
  have hdisk := (config_runtime_and_disk_agree tvToml_parsesBack tvNode_parse hrun).2.2.2.2.1 hfree
  exact ⟨history, s, hrun, hconfig, hconfig ▸ hdisk⟩

end MpvTargets

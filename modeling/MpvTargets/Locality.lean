import MpvTargets.CandidateValidation
import MpvTargets.Library.Footprint
import MpvTargets.SoloRuns
import MpvTargets.TaskShapes

/-! What an operation depends on: the targets it names and their directories. All operations share one
configuration and one file, but of the configuration a step uses the entries of its names only, and
whether a candidate is written depends on the entry that is new in it. -/

namespace MpvTargets

/-- Candidates with the same verdict are both written or fail with one error. -/
theorem validateAndPersist_congr {toml : Toml} (hprints : toml.Prints) {candidate candidate' : DaemonConfig}
    (hvalidate : candidate.validate = candidate'.validate) (external : External) :
    (∃ error, validateAndPersist toml external candidate = .error error ∧
      validateAndPersist toml external candidate' = .error error) ∨
    ∃ source source', validateAndPersist toml external candidate = .ok source ∧
      validateAndPersist toml external candidate' = .ok source' := by
  unfold validateAndPersist
  rw [hvalidate]
  cases candidate'.validate with
  | error error => exact Or.inl ⟨_, rfl, rfl⟩
  | ok =>
      obtain ⟨source, hsource⟩ := Option.isSome_iff_exists.mp (hprints candidate)
      obtain ⟨source', hsource'⟩ := Option.isSome_iff_exists.mp (hprints candidate')
      unfold persistConfig
      rw [hsource, hsource']
      cases external with
      | failed error => exact Or.inl ⟨error, rfl, rfl⟩
      | ok => exact Or.inr ⟨source, source', rfl, rfl⟩
      | line => exact Or.inr ⟨source, source', rfl, rfl⟩

/-- The configuration a task is about to write. -/
def Pc.written? (inner : Inner) : Pc → Option DaemonConfig
  | persist name change =>
      (inner.config.target? name).bind fun entry =>
        (change.mutate entry).map fun mutated => inner.config.setEntry name mutated.1
  | pc => pc.candidate?

section

variable {toml : Toml} {external : External} {inner inner' : Inner} {name replacement : String}

/-- What `persist_target_change` returns and leaves of its target depends on that target. -/
theorem persistTargetChange_congr (hprints : toml.Prints) (h : inner.Agrees) (h' : inner'.Agrees)
    {change : ConfigChange} (hlook : inner.targets.get? name = inner'.targets.get? name) :
    (persistTargetChange toml external name change inner).2 =
        (persistTargetChange toml external name change inner').2 ∧
      (persistTargetChange toml external name change inner).1.inner.targets.get? name =
        (persistTargetChange toml external name change inner').1.inner.targets.get? name := by
  have hentry := h.entries name
  have hentry' := h'.entries name
  rw [← hlook] at hentry'
  unfold persistTargetChange
  rw [hentry, hentry', ← hlook]
  cases htarget : inner.targets.get? name with
  | none => exact ⟨rfl, htarget.trans (hlook.symm.trans htarget).symm⟩
  | some target =>
      rw [htarget, Option.map_some] at hentry hentry'
      have hlook' := hlook.symm.trans htarget
      cases hmutate : change.mutate target.config with
      | none => simp only [Option.map_some, hmutate, htarget, hlook', and_self]
      | some mutated =>
          obtain ⟨persisted, changed⟩ := mutated
          have hname : persisted.name = name :=
            (ConfigChange.mutate_name hmutate).trans (DaemonConfig.name_of_target? hentry)
          have hmem := DaemonConfig.mem_names_iff.mpr ⟨_, hentry⟩
          have hmem' := DaemonConfig.mem_names_iff.mpr ⟨_, hentry'⟩
          have hvalidate := (DaemonConfig.validate_setEntry h.valid hmem hname).trans
            (DaemonConfig.validate_setEntry h'.valid hmem' hname).symm
          rcases validateAndPersist_congr hprints hvalidate external with
            ⟨error, herror, herror'⟩ | ⟨source, source', hsource, hsource'⟩
          · simp only [Option.map_some, hmutate, herror, herror', htarget, hlook', and_self]
          · simp only [Option.map_some, hmutate, hsource, hsource', OrderedMap.get?_insert_self, and_self]

end

/-- The same await point, up to the other entries of its candidate. -/
inductive Pc.Alike : Pc → Pc → Prop where
  | same (pc : Pc) : Pc.Alike pc pc
  | addPersist (target : TargetConfig) (candidate candidate' : DaemonConfig) :
      Pc.Alike (.addPersist target candidate) (.addPersist target candidate')
  | addCommit (target : TargetConfig) (candidate candidate' : DaemonConfig) :
      Pc.Alike (.addCommit target candidate) (.addCommit target candidate')
  | removePersist (name : String) (candidate candidate' : DaemonConfig) :
      Pc.Alike (.removePersist name candidate) (.removePersist name candidate')
  | removeCommit (name : String) (candidate candidate' : DaemonConfig) :
      Pc.Alike (.removeCommit name candidate) (.removeCommit name candidate')
  | renamePersist (name replacement : String) (candidate candidate' : DaemonConfig) :
      Pc.Alike (.renamePersist name replacement candidate) (.renamePersist name replacement candidate')
  | renameCommit (name replacement : String) (candidate candidate' : DaemonConfig) :
      Pc.Alike (.renameCommit name replacement candidate) (.renameCommit name replacement candidate')

/-- The target an added one is copied from, until it has been. -/
def Pc.sources : Pc → List String
  | addLock _ source _ | addCheck _ source _ => source.toList
  | _ => []

/-- The targets an await point reads. -/
def Pc.reads (pc : Pc) : List String := pc.names ++ pc.sources

theorem Pc.Alike.holdsMutations {pc pc' : Pc} (h : pc.Alike pc') :
    pc.holdsMutations = pc'.holdsMutations := by
  cases h <;> rfl

/-- A task on its own finds the `mutations` mutex free where its counterpart does. -/
theorem Solo.mutationsFree_congr {left right : Solo} (hpc : left.task.pc.Alike right.task.pc)
    (hcallers : left.task.callers = right.task.callers) :
    left.system.mutationsFree = right.system.mutationsFree := by
  simp [System.mutationsFree, Solo.system, Task.holdsMutations, hpc.holdsMutations, hcallers]

section

variable {toml : Toml} {view view' : View} {external : External} {pc pc' : Pc}

/-- The candidates of two operations that add the same target, remove the same one or rename it alike have the
same verdict. -/
theorem Pc.Alike.validate {inner inner' : Inner} (h : pc.Alike pc') (hagrees : inner.Agrees)
    (hagrees' : inner'.Agrees) (hprepared : pc.Prepared inner) (hprepared' : pc'.Prepared inner')
    (hlook : ∀ name ∈ pc.reads, inner.targets.get? name = inner'.targets.get? name)
    {candidate candidate' : DaemonConfig} (hcandidate : pc.candidate? = some candidate)
    (hcandidate' : pc'.candidate? = some candidate') : candidate.validate = candidate'.validate := by
  have hadd : ∀ {target : TargetConfig} {inner : Inner}, inner.Agrees →
      target.name ∉ inner.targets.keys → (inner.config.push target).validate = target.check :=
    fun hagrees hfresh => DaemonConfig.validate_push hagrees.valid (hagrees.mem_keys_iff.not.mp hfresh)
  have hrename : ∀ {name replacement : String} {inner : Inner} {candidate : DaemonConfig}, inner.Agrees →
      name ∈ inner.targets.keys → replacement ∉ inner.targets.keys →
      inner.config.renamed name replacement = some candidate → ∃ target,
        inner.targets.get? name = some target ∧
          candidate.validate = TargetConfig.check { target.config with name := replacement } := by
    intro name replacement inner candidate hagrees hname hfresh hrenamed
    obtain ⟨target, htarget⟩ := (OrderedMap.mem_keys_iff _).mp hname
    exact ⟨target, htarget, DaemonConfig.validate_renamed hagrees.valid (hagrees.target?_of_get? htarget)
      (hagrees.mem_keys_iff.not.mp hfresh) hrenamed⟩
  have hkind : (∃ target, pc = .addPersist target candidate ∧ pc' = .addPersist target candidate') ∨
      (∃ name, pc = .removePersist name candidate ∧ pc' = .removePersist name candidate') ∨
      ∃ name replacement, pc = .renamePersist name replacement candidate ∧
        pc' = .renamePersist name replacement candidate' := by
    cases h with
    | same pc => cases pc <;> cases hcandidate <;> cases hcandidate' <;> simp
    | addPersist | removePersist | renamePersist =>
        cases hcandidate
        cases hcandidate'
        simp
    | addCommit | removeCommit | renameCommit => cases hcandidate
  rcases hkind with ⟨target, rfl, rfl⟩ | ⟨name, rfl, rfl⟩ | ⟨name, replacement, rfl, rfl⟩
  · obtain ⟨hfresh, rfl⟩ := hprepared
    obtain ⟨hfresh', rfl⟩ := hprepared'
    rw [hadd hagrees hfresh, hadd hagrees' hfresh']
  · obtain rfl : candidate = _ := hprepared
    obtain rfl : candidate' = _ := hprepared'
    rw [DaemonConfig.validate_without hagrees.valid, DaemonConfig.validate_without hagrees'.valid]
  · obtain ⟨hname, hfresh, hrenamed⟩ := hprepared
    obtain ⟨hname', hfresh', hrenamed'⟩ := hprepared'
    obtain ⟨target, htarget, hvalidate⟩ := hrename hagrees hname hfresh hrenamed
    obtain ⟨target', htarget', hvalidate'⟩ := hrename hagrees' hname' hfresh' hrenamed'
    have heq := htarget.symm.trans ((hlook name (by simp [Pc.reads, Pc.names])).trans htarget')
    rw [hvalidate, hvalidate', Option.some.inj heq]

/-- They are both written, or fail with one error. -/
theorem Pc.Alike.written {inner inner' : Inner} (hprints : toml.Prints) (h : pc.Alike pc')
    (hagrees : inner.Agrees) (hagrees' : inner'.Agrees) (hprepared : pc.Prepared inner)
    (hprepared' : pc'.Prepared inner')
    (hlook : ∀ name ∈ pc.reads, inner.targets.get? name = inner'.targets.get? name)
    {candidate candidate' : DaemonConfig} (hcandidate : pc.candidate? = some candidate)
    (hcandidate' : pc'.candidate? = some candidate') (external : External) :
    (∃ error, validateAndPersist toml external candidate = .error error ∧
      validateAndPersist toml external candidate' = .error error) ∨
    ∃ source source', validateAndPersist toml external candidate = .ok source ∧
      validateAndPersist toml external candidate' = .ok source' :=
  validateAndPersist_congr hprints
    (h.validate hagrees hagrees' hprepared hprepared' hlook hcandidate hcandidate') external

theorem addChecked_congr {inner inner' : Inner} {name : String} {source : Option String} {enable : Bool}
    (hlook : ∀ other ∈ (Pc.addCheck name source enable).reads,
      inner.targets.get? other = inner'.targets.get? other) :
    addChecked inner name source enable = addChecked inner' name source enable := by
  have hname := hlook name (by simp [Pc.reads, Pc.names])
  unfold addChecked
  cases source with
  | none => rw [hname]
  | some source => simp only [hname, hlook source (by simp [Pc.reads, Pc.sources])]

theorem renameChecked_congr {inner inner' : Inner} {name replacement : String}
    (hlook : ∀ other ∈ (Pc.renameCheck name replacement).reads,
      inner.targets.get? other = inner'.targets.get? other) :
    renameChecked inner name replacement = renameChecked inner' name replacement := by
  unfold renameChecked
  rw [hlook name (by simp [Pc.reads, Pc.names]), hlook replacement (by simp [Pc.reads, Pc.names])]

/-- Where the step of a client's operation looks at the configuration. -/
def Pc.readsConfig : Pc → Bool
  | persist _ _ | addCandidate _ | removeCandidate _ | renameCandidate _ _ => true
  | _ => false

/-- Elsewhere the targets it reads and the `mutations` mutex decide where it goes. -/
theorem Task.turn_congr {task : Task} (origin : Origin) (hrequested : task.pc.requested = true)
    (hconfig : task.pc.readsConfig = false)
    (hlook : ∀ name ∈ task.pc.reads, view.inner.targets.get? name = view'.inner.targets.get? name)
    (hfree : view.mutationsFree = view'.mutationsFree) :
    (task.turn toml view external).map (fun turn => (turn.pc, turn.callers)) =
      (Task.turn toml view' ⟨origin, task.pc, task.callers⟩ external).map fun turn =>
        (turn.pc, turn.callers) := by
  rcases task with ⟨origin, pc, callers⟩
  cases pc
  case persist | addCandidate | removeCandidate | renameCandidate => cases hconfig
  case addCheck name source enable =>
      simp only [Task.turn, addChecked_congr hlook]
      cases addChecked view'.inner name source enable <;> rfl
  case renameCheck name replacement =>
      simp only [Task.turn, renameChecked_congr hlook]
      cases renameChecked view'.inner name replacement <;> rfl
  case renameCommit name replacement candidate =>
      simp only [Task.turn, hlook name (by simp [Pc.reads, Pc.names])]
      cases view'.inner.targets.get? name <;> rfl
  case startupList | startupNext => cases hrequested
  all_goals simp only [Pc.reads, Pc.names, Pc.sources, List.append_nil, List.forall_mem_singleton] at hlook
  all_goals
    try simp only [Task.turn, Task.read, Task.record, Task.acquire, hlook, hfree]
    try rfl

/-- Where a task goes when its candidate is written. -/
def Pc.committing : Pc → Pc
  | addPersist target candidate => addCommit target candidate
  | removePersist name candidate => removeCommit name candidate
  | renamePersist name replacement candidate => renameCommit name replacement candidate
  | pc => pc

theorem Pc.Alike.committing (h : pc.Alike pc') : pc.committing.Alike pc'.committing := by
  cases h
  case same => exact .same _
  all_goals constructor

theorem Pc.Alike.candidate? (h : pc.Alike pc') {candidate : DaemonConfig}
    (hcandidate : pc.candidate? = some candidate) : ∃ candidate', pc'.candidate? = some candidate' := by
  cases h
  case same => exact ⟨candidate, hcandidate⟩
  case addPersist | removePersist | renamePersist => exact ⟨_, rfl⟩
  all_goals cases hcandidate

theorem Task.turn_write {task : Task} {turn : Turn} (h : task.turn toml view external = some turn)
    {candidate : DaemonConfig} (hcandidate : task.pc.candidate? = some candidate) :
    (∀ error, validateAndPersist toml external candidate = .error error →
      turn = task.ret .none [] (.error error)) ∧
    ∀ source, validateAndPersist toml external candidate = .ok source →
      turn = task.goto (.writeFile source) task.pc.committing := by
  rcases task with ⟨origin, pc, callers⟩
  cases pc <;> cases hcandidate
  all_goals
    constructor
    · intro error herror
      simp only [Task.turn, herror] at h
      exact (Option.some.inj h).symm
    · intro source hsource
      simp only [Task.turn, hsource] at h
      exact (Option.some.inj h).symm

/-- A step of an operation goes where it goes over any other state with the same targets. -/
theorem Task.turn_alike {task task' : Task} {turn turn' : Turn} (hprints : toml.Prints)
    (hpc : task.pc.Alike task'.pc) (hcallers : task.callers = task'.callers)
    (hrequested : task.pc.requested = true)
    (hagrees : view.inner.Agrees) (hagrees' : view'.inner.Agrees)
    (hprepared : task.pc.Prepared view.inner) (hprepared' : task'.pc.Prepared view'.inner)
    (hlook : ∀ name ∈ task.pc.reads, view.inner.targets.get? name = view'.inner.targets.get? name)
    (hfree : view.mutationsFree = view'.mutationsFree)
    (h : task.turn toml view external = some turn) (h' : task'.turn toml view' external = some turn') :
    turn.pc.Alike turn'.pc ∧ turn.callers = turn'.callers := by
  cases hcandidate : task.pc.candidate? with
  | some candidate =>
      obtain ⟨candidate', hcandidate'⟩ := hpc.candidate? hcandidate
      obtain ⟨hfails, hwrites⟩ := Task.turn_write h hcandidate
      obtain ⟨hfails', hwrites'⟩ := Task.turn_write h' hcandidate'
      rcases hpc.written hprints hagrees hagrees' hprepared hprepared' hlook hcandidate hcandidate' external with
        ⟨error, herror, herror'⟩ | ⟨source, source', hsource, hsource'⟩
      · rw [hfails error herror, hfails' error herror', Task.ret, Task.ret, hcallers]
        exact ⟨.same _, rfl⟩
      · rw [hwrites source hsource, hwrites' source' hsource']
        exact ⟨hpc.committing, hcallers⟩
  | none =>
      have hcongr : task.pc.readsConfig = false →
          (task.turn toml view external).map (fun turn => (turn.pc, turn.callers)) =
            (Task.turn toml view' ⟨task'.origin, task.pc, task.callers⟩ external).map fun turn =>
              (turn.pc, turn.callers) :=
        fun hconfig => Task.turn_congr task'.origin hrequested hconfig hlook hfree
      rcases task with ⟨origin, pc, callers⟩
      rcases task' with ⟨origin', pc', callers'⟩
      dsimp only at hpc hcallers hrequested hprepared hprepared' hlook hcongr hcandidate
      subst hcallers
      cases hpc with
      | addPersist | removePersist | renamePersist => cases hcandidate
      | addCommit target candidate candidate' =>
          cases h
          cases h'
          exact ⟨.same _, rfl⟩
      | removeCommit name candidate candidate' =>
          cases h
          cases h'
          exact ⟨.same _, rfl⟩
      | renameCommit name replacement candidate candidate' =>
          simp only [Task.turn, hlook name (by simp [Pc.reads, Pc.names])] at h h'
          cases htarget : view'.inner.targets.get? name with
          | none =>
              simp only [htarget, Option.some.injEq] at h h'
              subst h h'
              exact ⟨.same _, rfl⟩
          | some target =>
              simp only [htarget, Option.some.injEq] at h h'
              subst h h'
              exact ⟨.same _, rfl⟩
      | same =>
          cases hconfig : pc.readsConfig with
          | false =>
              have heq := hcongr hconfig
              rw [h, h', Option.map_some, Option.map_some, Option.some.injEq, Prod.mk.injEq] at heq
              rw [heq.1, heq.2]
              exact ⟨.same _, rfl⟩
          | true =>
              cases pc
              case persist name change =>
                  have hlook := hlook name (by simp [Pc.reads, Pc.names])
                  have hreturned : (persistTargetChange toml external name change view.inner).2 =
                      (persistTargetChange toml external name change view'.inner).2 :=
                    (persistTargetChange_congr hprints hagrees hagrees' hlook).1
                  simp only [Task.turn, ← hreturned] at h h'
                  generalize (persistTargetChange toml external name change view.inner).2 = persisted at h h'
                  rcases persisted with (error | _) | _ <;> cases h <;> cases h' <;> exact ⟨.same _, rfl⟩
              case addCandidate target =>
                  cases h
                  cases h'
                  exact ⟨.addPersist _ _ _, rfl⟩
              case removeCandidate name =>
                  cases h
                  cases h'
                  exact ⟨.removePersist _ _ _, rfl⟩
              case renameCandidate name replacement =>
                  have hentry : view.inner.config.target? name = view'.inner.config.target? name := by
                    rw [hagrees.entries, hagrees'.entries, hlook name (by simp [Pc.reads, Pc.names])]
                  simp only [Task.turn, DaemonConfig.renamed, hentry] at h h'
                  cases hfound : view'.inner.config.target? name with
                  | none =>
                      simp only [hfound, Option.map_none, Option.some.injEq] at h h'
                      subst h h'
                      exact ⟨.same _, rfl⟩
                  | some entry =>
                      simp only [hfound, Option.map_some, Option.some.injEq] at h h'
                      subst h h'
                      exact ⟨.renamePersist _ _ _ _, rfl⟩
              all_goals cases hconfig

theorem Task.exists_turn_write (task : Task) (view : View) (external : External) {candidate : DaemonConfig}
    (hcandidate : task.pc.candidate? = some candidate) :
    ∃ turn, task.turn toml view external = some turn := by
  rcases task with ⟨origin, pc, callers⟩
  cases pc <;> cases hcandidate
  all_goals
    simp only [Task.turn]
    split <;> exact ⟨_, rfl⟩

/-- Where an operation can take a step, it can over any other state with the same targets. -/
theorem Pc.Alike.exists_turn {task task' : Task} {turn : Turn} (hpc : task.pc.Alike task'.pc)
    (hcallers : task.callers = task'.callers) (hrequested : task.pc.requested = true)
    (hlook : ∀ name ∈ task.pc.reads, view.inner.targets.get? name = view'.inner.targets.get? name)
    (hfree : view.mutationsFree = view'.mutationsFree) (h : task.turn toml view external = some turn) :
    ∃ turn', task'.turn toml view' external = some turn' := by
  cases hcandidate : task.pc.candidate? with
  | some candidate =>
      obtain ⟨candidate', hcandidate'⟩ := hpc.candidate? hcandidate
      exact task'.exists_turn_write view' external hcandidate'
  | none =>
      have hcongr : task.pc.readsConfig = false →
          (task.turn toml view external).map (fun turn => (turn.pc, turn.callers)) =
            (Task.turn toml view' ⟨task'.origin, task.pc, task.callers⟩ external).map fun turn =>
              (turn.pc, turn.callers) :=
        fun hconfig => Task.turn_congr task'.origin hrequested hconfig hlook hfree
      rcases task with ⟨origin, pc, callers⟩
      rcases task' with ⟨origin', pc', callers'⟩
      dsimp only at hpc hcallers hcongr hcandidate
      subst hcallers
      cases hpc with
      | addPersist | removePersist | renamePersist => cases hcandidate
      | addCommit | removeCommit => exact ⟨_, rfl⟩
      | renameCommit =>
          simp only [Task.turn]
          split <;> exact ⟨_, rfl⟩
      | same =>
          cases hconfig : pc.readsConfig with
          | false =>
              rw [h, Option.map_some] at hcongr
              obtain ⟨turn', hturn', _⟩ := Option.map_eq_some_iff.mp (hcongr hconfig).symm
              exact ⟨turn', hturn'⟩
          | true =>
              cases pc
              case persist | renameCandidate =>
                  simp only [Task.turn]
                  split <;> exact ⟨_, rfl⟩
              case addCandidate | removeCandidate => exact ⟨_, rfl⟩
              all_goals cases hconfig

/-- The section of an operation leaves the same of a target wherever it finds the same targets. -/
theorem Pc.Alike.get?_after {inner inner' : Inner} (hprints : toml.Prints) (h : pc.Alike pc')
    (hagrees : inner.Agrees) (hagrees' : inner'.Agrees)
    (hlook : ∀ name ∈ pc.reads, inner.targets.get? name = inner'.targets.get? name) {other : String}
    (hother : inner.targets.get? other = inner'.targets.get? other) :
    (inner.after toml (pc.critical external)).targets.get? other =
      (inner'.after toml (pc'.critical external)).targets.get? other := by
  have hon : ∀ (name : String) (op : TargetOp), inner.targets.get? name = inner'.targets.get? name →
      (inner.onTarget name op).inner.targets.get? other =
        (inner'.onTarget name op).inner.targets.get? other := by
    intro name op hname
    rw [Inner.get?_onTarget, Inner.get?_onTarget, hname, hother]
  have hrename : ∀ (name replacement : String) (candidate candidate' : DaemonConfig),
      inner.targets.get? name = inner'.targets.get? name →
      (MpvTargets.renameCommit candidate name replacement inner).inner.targets.get? other =
        (MpvTargets.renameCommit candidate' name replacement inner').inner.targets.get? other := by
    intro name replacement candidate candidate' hname
    unfold MpvTargets.renameCommit
    rw [hname]
    cases inner'.targets.get? name with
    | none => exact hother
    | some runtime => exact OrderedMap.get?_insert_congr (OrderedMap.get?_erase_congr hother _) _ _
  have hself : ∀ {name : String}, name ∈ pc.names → inner.targets.get? name = inner'.targets.get? name :=
    fun hname => hlook _ (List.mem_append_left _ hname)
  cases h with
  | addCommit => exact OrderedMap.get?_insert_congr hother _ _
  | removeCommit => exact OrderedMap.get?_erase_congr hother _
  | renameCommit name replacement candidate candidate' =>
      exact hrename name replacement candidate candidate' (hself (by simp [Pc.names]))
  | addPersist | removePersist | renamePersist => exact hother
  | same =>
      cases pc
      case persist name change =>
          by_cases hname : other = name
          · subst hname
            exact (persistTargetChange_congr hprints hagrees hagrees' hother).2
          · have hacts :
                ((Pc.persist name change).critical external).any (CriticalSection.actsOn other) = false := by
              simpa [Pc.critical, CriticalSection.actsOn] using Ne.symm hname
            rw [Inner.get?_after_of_not_actsOn _ _ hacts, Inner.get?_after_of_not_actsOn _ _ hacts, hother]
      case addCommit => exact OrderedMap.get?_insert_congr hother _ _
      case removeCommit => exact OrderedMap.get?_erase_congr hother _
      case renameCommit name replacement candidate =>
          exact hrename name replacement candidate candidate (hself (by simp [Pc.names]))
      all_goals first
        | exact hother
        | exact hon _ _ (hself (by simp [Pc.names]))

end

/-- What a rollback gives back depends on the entry it moves. -/
theorem TargetEntries.get?_moveBack_congr {entries entries' : TargetEntries} {source path : String}
    (hsource : entries.get? source = entries'.get? source) (hpath : entries.get? path = entries'.get? path)
    (destination : String) :
    (entries.moveBack source destination).get? path = (entries'.moveBack source destination).get? path := by
  unfold TargetEntries.moveBack TargetEntries.move
  rw [hsource]
  cases entries'.get? source with
  | none => exact hpath
  | some tree => exact OrderedMap.get?_insert_congr (OrderedMap.get?_erase_congr hpath _) _ _

theorem TargetEntries.get?_move_congr {entries entries' : TargetEntries} {path : String}
    (hpath : entries.get? path = entries'.get? path) (source destination : String) (tree : FileTree) :
    (entries.move source destination tree).get? path = (entries'.move source destination tree).get? path :=
  OrderedMap.get?_insert_congr (OrderedMap.get?_erase_congr hpath _) _ _

theorem preparedDirectory_congr {arguments : AddArguments} {entries entries' : TargetEntries}
    (h : ∀ source ∈ arguments.source, entries.get? source = entries'.get? source) :
    preparedDirectory arguments entries = preparedDirectory arguments entries' := by
  unfold preparedDirectory
  cases hsource : arguments.source with
  | none => rfl
  | some source => simp only [h source hsource]

/-- The entries an operation on these names looks at: those of the names, and where they are moved to be
deleted. -/
def Host.paths (host : Host) (names : List String) : List String := names ++ names.map host.stagingName

/-- What the rollback of a failed write leaves. -/
def Host.rolledBack (host : Host) (entries : TargetEntries) : Pc → TargetEntries
  | .addPersist target _ => entries.erase target.name
  | .removePersist name _ => entries.moveBack (host.stagingName name) name
  | .renamePersist name replacement _ => entries.moveBack replacement name
  | _ => entries

section

variable {host : Host} {toml : Toml} {arguments : AddArguments} {external : External} {pc pc' : Pc}
  {entries entries' after after' : TargetEntries} {path : String}

theorem Host.call_write {candidate : DaemonConfig} (hcandidate : pc.candidate? = some candidate)
    (h : host.call toml arguments pc external entries = some after) :
    (∀ error, validateAndPersist toml external candidate = .error error →
      after = host.rolledBack entries pc) ∧
    ∀ source, validateAndPersist toml external candidate = .ok source → after = entries := by
  cases pc <;> cases hcandidate
  all_goals
    constructor
    · intro error herror
      simp only [Host.call, herror] at h
      exact (Option.some.inj h).symm
    · intro source hsource
      simp only [Host.call, hsource] at h
      exact (Option.some.inj h).symm

theorem Host.get?_rolledBack_congr (hpc : pc.Alike pc')
    (hlook : ∀ other ∈ host.paths pc.names, entries.get? other = entries'.get? other)
    (hpath : entries.get? path = entries'.get? path) :
    (host.rolledBack entries pc).get? path = (host.rolledBack entries' pc').get? path := by
  have hremove : ∀ {name : String}, name ∈ pc.names →
      (entries.moveBack (host.stagingName name) name).get? path =
        (entries'.moveBack (host.stagingName name) name).get? path := fun hmem =>
    TargetEntries.get?_moveBack_congr
      (hlook _ (List.mem_append_right _ (List.mem_map_of_mem hmem))) hpath _
  have hrename : ∀ {name replacement : String}, replacement ∈ pc.names →
      (entries.moveBack replacement name).get? path = (entries'.moveBack replacement name).get? path :=
    fun hmem => TargetEntries.get?_moveBack_congr (hlook _ (List.mem_append_left _ hmem)) hpath _
  cases hpc with
  | addPersist => exact OrderedMap.get?_erase_congr hpath _
  | removePersist => exact hremove (by simp [Pc.names])
  | renamePersist => exact hrename (by simp [Pc.names])
  | addCommit | removeCommit | renameCommit => exact hpath
  | same =>
      cases pc
      case addPersist => exact OrderedMap.get?_erase_congr hpath _
      case removePersist => exact hremove (by simp [Pc.names])
      case renamePersist => exact hrename (by simp [Pc.names])
      all_goals exact hpath

/-- The calls of an operation leave the same of an entry wherever they find the same entries. -/
theorem Host.call_alike (hpc : pc.Alike pc')
    (hwritten : ∀ candidate candidate', pc.candidate? = some candidate → pc'.candidate? = some candidate' →
      (∃ error, validateAndPersist toml external candidate = .error error ∧
        validateAndPersist toml external candidate' = .error error) ∨
      ∃ source source', validateAndPersist toml external candidate = .ok source ∧
        validateAndPersist toml external candidate' = .ok source')
    (hlook : ∀ other ∈ host.paths pc.names, entries.get? other = entries'.get? other)
    (hsource : ∀ source ∈ arguments.source, entries.get? source = entries'.get? source)
    (hpath : entries.get? path = entries'.get? path)
    (h : host.call toml arguments pc external entries = some after)
    (h' : host.call toml arguments pc' external entries' = some after') :
    after.get? path = after'.get? path := by
  have hname : ∀ {name : String}, name ∈ pc.names → entries.get? name = entries'.get? name :=
    fun hmem => hlook _ (List.mem_append_left _ hmem)
  have hstaging : ∀ {name : String}, name ∈ pc.names →
      entries.get? (host.stagingName name) = entries'.get? (host.stagingName name) :=
    fun hmem => hlook _ (List.mem_append_right _ (List.mem_map_of_mem hmem))
  cases hcandidate : pc.candidate? with
  | some candidate =>
      obtain ⟨candidate', hcandidate'⟩ := hpc.candidate? hcandidate
      obtain ⟨hfails, hwrites⟩ := Host.call_write hcandidate h
      obtain ⟨hfails', hwrites'⟩ := Host.call_write hcandidate' h'
      rcases hwritten candidate candidate' hcandidate hcandidate' with
        ⟨error, herror, herror'⟩ | ⟨written, written', hsource, hsource'⟩
      · rw [hfails error herror, hfails' error herror']
        exact Host.get?_rolledBack_congr hpc hlook hpath
      · rw [hwrites written hsource, hwrites' written' hsource', hpath]
  | none =>
      cases hpc with
      | addPersist | removePersist | renamePersist => cases hcandidate
      | addCommit | removeCommit | renameCommit =>
          cases h
          cases h'
          exact hpath
      | same =>
          cases pc
          case addPrepare target =>
              rcases Host.call_addPrepare h with ⟨rfl, _, directory, hdirectory, rfl⟩ | ⟨⟨error, rfl⟩, rfl⟩
              · rcases Host.call_addPrepare h' with ⟨_, _, directory', hdirectory', rfl⟩ | ⟨⟨_, hfailed⟩, _⟩
                · rw [preparedDirectory_congr hsource, hdirectory'] at hdirectory
                  rw [Option.some.inj hdirectory]
                  exact OrderedMap.get?_insert_congr hpath _ _
                · cases hfailed
              · rcases Host.call_addPrepare h' with ⟨hok, _⟩ | ⟨_, rfl⟩
                · cases hok
                · exact hpath
          case removeStage name =>
              have hsame : entries.get? name = entries'.get? name := hname (by simp [Pc.names])
              rcases Host.call_removeStage h with
                ⟨rfl, hnone, rfl⟩ | ⟨rfl, tree, htree, rfl⟩ | ⟨⟨error, rfl⟩, rfl⟩
              · rcases Host.call_removeStage h' with
                  ⟨_, _, rfl⟩ | ⟨_, tree', htree', rfl⟩ | ⟨⟨_, hfailed⟩, _⟩
                · exact hpath
                · rw [hsame, htree'] at hnone
                  cases hnone
                · cases hfailed
              · rcases Host.call_removeStage h' with
                  ⟨_, hnone', _⟩ | ⟨_, tree', htree', rfl⟩ | ⟨⟨_, hfailed⟩, _⟩
                · rw [hsame, hnone'] at htree
                  cases htree
                · rw [hsame, htree'] at htree
                  rw [Option.some.inj htree]
                  exact TargetEntries.get?_move_congr hpath _ _ _
                · cases hfailed
              · rcases Host.call_removeStage h' with ⟨hok, _⟩ | ⟨hok, _⟩ | ⟨_, rfl⟩
                · cases hok
                · cases hok
                · exact hpath
          case removeClean name =>
              have hsame : entries.get? (host.stagingName name) = entries'.get? (host.stagingName name) :=
                hstaging (by simp [Pc.names])
              rcases Host.call_removeClean h with ⟨rfl, rfl⟩ | ⟨⟨error, rfl⟩, tree, htree, rfl⟩
              · rcases Host.call_removeClean h' with ⟨_, rfl⟩ | ⟨⟨_, hfailed⟩, _⟩
                · exact OrderedMap.get?_erase_congr hpath _
                · cases hfailed
              · rcases Host.call_removeClean h' with ⟨hok, _⟩ | ⟨_, tree', htree', rfl⟩
                · cases hok
                · rw [hsame, htree'] at htree
                  rw [Option.some.inj htree]
                  exact OrderedMap.get?_insert_congr hpath _ _
          case renameMove name replacement =>
              have hsame : entries.get? name = entries'.get? name := hname (by simp [Pc.names])
              rcases Host.call_renameMove h with ⟨rfl, _, tree, htree, rfl⟩ | ⟨⟨error, rfl⟩, rfl⟩
              · rcases Host.call_renameMove h' with ⟨_, _, tree', htree', rfl⟩ | ⟨⟨_, hfailed⟩, _⟩
                · rw [hsame, htree'] at htree
                  rw [Option.some.inj htree]
                  exact TargetEntries.get?_move_congr hpath _ _ _
                · cases hfailed
              · rcases Host.call_renameMove h' with ⟨hok, _⟩ | ⟨_, rfl⟩
                · cases hok
                · exact hpath
          case addPersist | removePersist | renamePersist => cases hcandidate
          all_goals
            cases h
            cases h'
            exact hpath

/-- Calls that can have this result can have it wherever they find the same entries. -/
theorem Host.exists_call (hpc : pc.Alike pc')
    (hlook : ∀ other ∈ host.paths pc.names, entries.get? other = entries'.get? other)
    (hsource : ∀ source ∈ arguments.source, entries.get? source = entries'.get? source)
    (h : host.call toml arguments pc external entries = some after) :
    ∃ after', host.call toml arguments pc' external entries' = some after' := by
  have hname : ∀ {name : String}, name ∈ pc.names → entries.get? name = entries'.get? name :=
    fun hmem => hlook _ (List.mem_append_left _ hmem)
  have hstaging : ∀ {name : String}, name ∈ pc.names →
      entries.get? (host.stagingName name) = entries'.get? (host.stagingName name) :=
    fun hmem => hlook _ (List.mem_append_right _ (List.mem_map_of_mem hmem))
  cases hpc with
  | addPersist | removePersist | renamePersist =>
      simp only [Host.call]
      split <;> exact ⟨_, rfl⟩
  | addCommit | removeCommit | renameCommit => exact ⟨_, rfl⟩
  | same =>
      cases pc
      case addPrepare target =>
          have hsame : entries.get? target.name = entries'.get? target.name := hname (by simp [Pc.names])
          simp only [Host.call, hsame, preparedDirectory_congr hsource] at h ⊢
          generalize preparedDirectory arguments entries' = prepared at h ⊢
          cases prepared <;> grind
      case addPersist | removePersist | renamePersist =>
          simp only [Host.call]
          split <;> exact ⟨_, rfl⟩
      case removeStage name =>
          have hsame : entries.get? name = entries'.get? name := hname (by simp [Pc.names])
          have hstaged : entries.get? (host.stagingName name) = entries'.get? (host.stagingName name) :=
            hstaging (by simp [Pc.names])
          simp only [Host.call, hsame, hstaged] at h ⊢
          grind
      case removeClean name =>
          have hstaged : entries.get? (host.stagingName name) = entries'.get? (host.stagingName name) :=
            hstaging (by simp [Pc.names])
          simp only [Host.call, hstaged] at h ⊢
          grind
      case renameMove name replacement =>
          have hsame : entries.get? name = entries'.get? name := hname (by simp [Pc.names])
          have hfree : entries.get? replacement = entries'.get? replacement := hname (by simp [Pc.names])
          simp only [Host.call, hsame, hfree] at h ⊢
          grind
      all_goals exact ⟨_, rfl⟩

end

/-! ### The places of an operation -/

/-- What operations on their own share. -/
structure Shared where
  inner : Inner
  file : String
  entries : TargetEntries

inductive Place where
  | target (name : String)
  | entry (path : String)

def Shared.look (shared : Shared) : Place → Option RuntimeTarget ⊕ Option FileTree
  | .target name => .inl (shared.inner.targets.get? name)
  | .entry path => .inr (shared.entries.get? path)

/-- The targets of these names and their entries. -/
def Host.footprint (host : Host) (names : List String) : Set Place := fun place =>
  match place with
  | .target name => name ∈ names
  | .entry path => path ∈ host.paths names

def Solo.shared (s : Solo) : Shared := ⟨s.inner, s.file, s.entries⟩

/-- A client's operation on its own that keeps to these names. -/
structure Solo.Keeps (names : List String) (s : Solo) : Prop where
  agrees : s.Agrees
  requested : s.task.pc.requested = true
  callers : s.task.callers.all Caller.requested = true
  within : ∀ name ∈ s.task.names, name ∈ names
  sources : ∀ name ∈ s.task.pc.sources, name ∈ names

theorem Pc.Next.sources {toml : Toml} {view : View} {external : External} {pc pc' : Pc}
    (h : pc.Next toml view external pc') {name : String} (hname : name ∈ pc'.sources) : name ∈ pc.sources := by
  cases h
  case addLock => exact hname
  all_goals exact absurd hname List.not_mem_nil

/-- Only the first section of `add` comes with a source. -/
theorem Task.turn_sources {toml : Toml} {view : View} {task : Task} {external : External} {turn : Turn}
    (h : task.turn toml view external = some turn) {name : String} (hname : name ∈ turn.pc.sources) :
    name ∈ task.pc.sources := by
  have hleads := (Task.turn_leads h).pc
  generalize task.pc = pc, turn.pc = pc' at hleads hname ⊢
  cases hleads with
  | next hnext => exact hnext.sources hname
  | call hcalls => cases hcalls <;> exact absurd hname List.not_mem_nil
  | resume hresumes => cases pc' <;> first | exact absurd hname List.not_mem_nil | cases hresumes
  | panic => exact absurd hname List.not_mem_nil

section

variable {toml : Toml} {host : Host} {arguments : AddArguments} {external : External} {names : List String}
  {s t : Solo}

theorem Solo.Keeps.step (h : s.Keeps names) (hstep : s.step toml host arguments external = some t) :
    t.Keeps names := by
  obtain ⟨turn, _, hturn, _, _, htask, _⟩ := Solo.step_cases hstep
  have hrequested := Task.turn_requested hturn h.requested h.callers
  refine ⟨h.agrees.step hstep, ?_, ?_, fun name hname => ?_, fun name hname => ?_⟩
  · rw [htask]
    exact hrequested.1
  · rw [htask]
    exact hrequested.2
  · rw [htask] at hname
    refine (Task.turn_names hturn hname).elim (h.within name) fun hpc => ?_
    have hnot := h.requested
    rw [hpc] at hnot
    cases hnot
  · rw [htask] at hname
    exact h.sources name (Task.turn_sources hturn hname)

theorem Solo.Keeps.reads (h : s.Keeps names) {name : String} (hname : name ∈ s.task.pc.reads) :
    name ∈ names :=
  (List.mem_append.mp hname).elim (fun hmem => h.within name (List.mem_append_left _ hmem)) (h.sources name)

theorem Solo.Keeps.paths (h : s.Keeps names) {path : String} (hpath : path ∈ host.paths s.task.pc.names) :
    path ∈ host.paths names := by
  rcases List.mem_append.mp hpath with hname | hstaging
  · exact List.mem_append_left _ (h.reads (List.mem_append_left _ hname))
  · obtain ⟨name, hname, rfl⟩ := List.mem_map.mp hstaging
    exact List.mem_append_right _ (List.mem_map_of_mem (h.reads (List.mem_append_left _ hname)))

/-- One operation over two states that look the same at its places, at the same point. -/
structure Solo.Alike (host : Host) (names : List String) (left right : Solo) : Prop where
  pc : left.task.pc.Alike right.task.pc
  callers : left.task.callers = right.task.callers
  agree : AgreeOn Shared.look (host.footprint names) left.shared right.shared
  keeps : left.Keeps names
  keeps' : right.Keeps names

variable {left right left' right' : Solo}

theorem Solo.Alike.target (h : Solo.Alike host names left right) {name : String} (hname : name ∈ names) :
    left.inner.targets.get? name = right.inner.targets.get? name :=
  Sum.inl.inj (h.agree (.target name) hname)

theorem Solo.Alike.entry (h : Solo.Alike host names left right) {path : String}
    (hpath : path ∈ host.paths names) : left.entries.get? path = right.entries.get? path :=
  Sum.inr.inj (h.agree (.entry path) hpath)

theorem Solo.Alike.reads (h : Solo.Alike host names left right) :
    ∀ name ∈ left.task.pc.reads, left.inner.targets.get? name = right.inner.targets.get? name :=
  fun _ hname => h.target (h.keeps.reads hname)

/-- Where one can take a step, so can the other. -/
theorem Solo.Alike.exists_step (h : Solo.Alike host names left right)
    (hsource : ∀ source ∈ arguments.source, source ∈ names)
    (hleft : left.step toml host arguments external = some left') :
    ∃ right', right.step toml host arguments external = some right' := by
  obtain ⟨turn, hcall, hturn, _⟩ := Solo.step_cases hleft
  obtain ⟨after, hcall'⟩ := Host.exists_call h.pc (fun other hother => h.entry (h.keeps.paths hother))
    (fun source hsome => h.entry (List.mem_append_left _ (hsource source hsome))) hcall
  have hfree : left.system.view.mutationsFree = right.system.view.mutationsFree :=
    Solo.mutationsFree_congr h.pc h.callers
  obtain ⟨turn', hturn'⟩ := h.pc.exists_turn h.callers h.keeps.requested h.reads hfree hturn
  exact ⟨_, by rw [Solo.step, hcall', Option.bind_eq_bind, Option.bind_some, hturn']; rfl⟩

/-- They stay at the same point, over states that look the same, when the world answers them the same. -/
theorem Solo.Alike.step (h : Solo.Alike host names left right)
    (hsource : ∀ source ∈ arguments.source, source ∈ names) (hprints : toml.Prints)
    (hleft : left.step toml host arguments external = some left')
    (hright : right.step toml host arguments external = some right') :
    Solo.Alike host names left' right' := by
  obtain ⟨turn, hcall, hturn, hinner, _, htask, _⟩ := Solo.step_cases hleft
  obtain ⟨turn', hcall', hturn', hinner', _, htask', _⟩ := Solo.step_cases hright
  have hagrees := h.keeps.agrees
  have hagrees' := h.keeps'.agrees
  have hlook := h.reads
  have hmoves := Task.turn_alike hprints h.pc h.callers h.keeps.requested hagrees.inner hagrees'.inner
    hagrees.prepared hagrees'.prepared hlook (Solo.mutationsFree_congr h.pc h.callers) hturn hturn'
  refine ⟨?_, ?_, ?_, h.keeps.step hleft, h.keeps'.step hright⟩
  · rw [htask, htask']
    exact hmoves.1
  · rw [htask, htask']
    exact hmoves.2
  · intro place hplace
    cases place with
    | target name =>
        change Sum.inl (left'.inner.targets.get? name) = Sum.inl (right'.inner.targets.get? name)
        rw [hinner, hinner']
        exact congrArg Sum.inl
          (h.pc.get?_after hprints hagrees.inner hagrees'.inner hlook (h.target hplace))
    | entry path =>
        refine congrArg Sum.inr (Host.call_alike h.pc ?_ (fun other hother => h.entry (h.keeps.paths hother))
          (fun source hsome => h.entry (List.mem_append_left _ (hsource source hsome))) (h.entry hplace)
          hcall hcall')
        intro candidate candidate' hcandidate hcandidate'
        exact h.pc.written hprints hagrees.inner hagrees'.inner hagrees.prepared hagrees'.prepared hlook
          hcandidate hcandidate' external

/-- A run goes through from the other state too, when the world answers it the same. -/
theorem Solo.Alike.run {steps : List (Solo × External)} (h : Solo.Alike host names left right)
    (hsource : ∀ source ∈ arguments.source, source ∈ names) (hprints : toml.Prints)
    (hleft : Solo.Run toml host arguments left steps left') :
    ∃ steps' right', Solo.Run toml host arguments right steps' right' ∧
      steps'.map Prod.snd = steps.map Prod.snd ∧ Solo.Alike host names left' right' := by
  refine hleft.follow (fun t t' external u halike hstep => ?_) h
  obtain ⟨u', hstep'⟩ := halike.exists_step hsource hstep
  exact ⟨u', hstep', halike.step hsource hprints hstep hstep'⟩

end

end MpvTargets

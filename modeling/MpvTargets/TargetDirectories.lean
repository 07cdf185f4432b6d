import MpvTargets.AcceptedRequests
import MpvTargets.ConfigUpdates
import MpvTargets.Independence

/-! The directories of the targets beside the configuration. `add`, `remove` and `rename` move a directory
before they commit their change and move it back when they fail; whatever the interleaving and the
failures, the directories follow the configuration. -/

namespace MpvTargets

/-- The daemon with the entries under `targets/`. `arguments` has what each operation was issued with, by the
position of its task. -/
structure Installation where
  daemon : System
  entries : TargetEntries
  arguments : Nat → AddArguments

inductive Installation.Label where
  | task (index : Nat) (external : External)
  | request (issued : Issued)
  | subscribe

namespace Installation

def Label.daemon : Installation.Label → MpvTargets.Label
  | task index external => .task index external
  | request issued => .request issued.request
  | subscribe => .subscribe

/-- The daemon's steps; the calls at an await point act on the entries. -/
def step (toml : Toml) (host : Host) (s : Installation) (label : Installation.Label) :
    Option Installation :=
  (System.step toml s.daemon label.daemon).bind fun daemon =>
    match label with
    | .task index external =>
        (s.daemon.tasks[index]?).bind fun task =>
          (host.call toml (s.arguments index) task.pc external s.entries).map fun entries =>
            { s with daemon, entries }
    | .request issued =>
        some { s with
          daemon
          arguments := Function.update s.arguments s.daemon.tasks.length issued.arguments }
    | .subscribe => some { s with daemon }

def initial (config : DaemonConfig) (file : String) (entries : TargetEntries) : Installation where
  daemon := .initial config file
  entries := entries
  arguments := fun _ => ⟨none, false, false⟩

abbrev Run (toml : Toml) (host : Host) (config : DaemonConfig) (file : String) (entries : TargetEntries) :=
  Trace (step toml host) (initial config file entries)

/-- The run as the daemon sees it. -/
def systemHistory (history : List (Installation × Installation.Label)) : List (System × MpvTargets.Label) :=
  history.map fun entry => (entry.1.daemon, entry.2.daemon)

/-- The operations a run was asked for, each with the position of its task. -/
def issuesIn (history : List (Installation × Installation.Label)) : List (Nat × Issued) :=
  history.filterMap fun entry =>
    match entry.2 with
    | .request issued => some (entry.1.daemon.tasks.length, issued)
    | _ => none

end Installation

/-- What an operation makes of the directories when it is carried out alone; nothing where it must fail. -/
def Request.rearranged (arguments : AddArguments) (entries : TargetEntries) :
    Request → Option TargetEntries
  | add name _ _ =>
      if (entries.get? name).isSome then none
      else (preparedDirectory arguments entries).map (entries.insert name)
  | remove name => if (entries.get? name).isSome then some (entries.erase name) else none
  | rename name replacement =>
      if (entries.get? replacement).isSome then none
      else (entries.get? name).map (entries.move name replacement)
  | _ => some entries

/-- The configuration and the directories an operation leaves when it is carried out alone. -/
def Issued.applied (state : DaemonConfig × TargetEntries) (issued : Issued) :
    Option (DaemonConfig × TargetEntries) :=
  (issued.request.updated state.1).bind fun config =>
    (issued.request.rearranged issued.arguments state.2).map fun entries => (config, entries)

/-- The names whose directories an operation has moved, its change uncommitted. -/
def Pc.moving : Pc → List String
  | addCandidate target | addPersist target _ | addCommit target _ => [target.name]
  | removeCandidate name | removePersist name _ | removeCommit name _ => [name]
  | renameCandidate name replacement | renamePersist name replacement _
  | renameCommit name replacement _ => [name, replacement]
  | _ => []

/-- Where they are then. -/
def Pc.Moved (host : Host) (arguments : AddArguments) (placed entries : TargetEntries) : Pc → Prop
  | addCandidate target | addPersist target _ | addCommit target _ =>
      placed.get? target.name = none ∧ ∃ directory,
        preparedDirectory arguments placed = some directory ∧ entries.get? target.name = some directory
  | removeCandidate name | removePersist name _ | removeCommit name _ =>
      entries.get? name = none ∧ ∃ tree, placed.get? name = some tree ∧
        entries.get? (host.stagingName name) = some tree
  | renameCandidate name replacement | renamePersist name replacement _
  | renameCommit name replacement _ =>
      placed.get? replacement = none ∧ entries.get? name = none ∧ ∃ tree,
        placed.get? name = some tree ∧ entries.get? replacement = some tree
  | _ => True

/-- The await points between the first call that moves a directory and the last one. -/
def Pc.stores : Pc → Bool
  | addPrepare _ | addCandidate _ | addPersist _ _ | addCommit _ _ => true
  | removeStage _ | removeCandidate _ | removePersist _ _ | removeCommit _ _ | removeClean _ => true
  | renameMove _ _ | renameCandidate _ _ | renamePersist _ _ _ | renameCommit _ _ _ => true
  | _ => false

/-- The entries of targets agree with the placed ones, apart from these. -/
def AgreeBeside (moving : List String) (placed entries : TargetEntries) : Prop :=
  ∀ name, validateTargetName name = .ok () → name ∉ moving → entries.get? name = placed.get? name

/-- The directories as an operation at this await point has left them. -/
structure Pc.Stored (host : Host) (arguments : AddArguments) (placed entries : TargetEntries) (pc : Pc) :
    Prop where
  moved : pc.Moved host arguments placed entries
  agree : AgreeBeside pc.moving placed entries

section

variable {toml : Toml} {host : Host} {arguments : AddArguments} {view : View} {task : Task}
  {external : External} {turn : Turn} {placed entries after : TargetEntries} {pc : Pc}

theorem Pc.moved_of_not_moving (h : pc.moving = []) : pc.Moved host arguments placed entries := by
  cases pc <;> trivial

theorem Pc.Stored.settled (h : AgreeBeside [] placed entries) (hpc : pc.moving = []) :
    pc.Stored host arguments placed entries :=
  ⟨Pc.moved_of_not_moving hpc, hpc ▸ h⟩

theorem Pc.moving_of_not_stores (h : pc.stores = false) : pc.moving = [] := by
  cases pc <;> first | rfl | cases h

theorem Pc.holds_of_stores (h : pc.stores = true) : pc.holdsMutations = true := by
  cases pc <;> first | rfl | cases h

theorem Host.call_of_not_stores (h : host.call toml arguments pc external entries = some after)
    (hpc : pc.stores = false) : after = entries := by
  cases pc <;> first | exact (Option.some.inj h).symm | cases hpc

theorem Pc.moving_of_resumes (h : pc.resumes = true) : pc.moving = [] := by
  cases pc <;> first | rfl | cases h

/-- Directories are moved within `add`, `remove` and `rename` alone. -/
theorem Task.turn_not_moving (h : task.turn toml view external = some turn)
    (hpc : task.pc.stores = false) : turn.pc.moving = [] := by
  have hleads := (Task.turn_leads h).pc
  generalize task.pc = before at hleads hpc
  generalize turn.pc = later at hleads ⊢
  cases hleads with
  | next hnext => cases hnext <;> first | rfl | cases hpc
  | call hcalls => cases hcalls <;> rfl
  | resume hresumes => exact Pc.moving_of_resumes hresumes
  | panic => rfl

theorem AgreeBeside.of_get? {moving : List String} (h : AgreeBeside moving placed entries)
    (hmoving : ∀ name ∈ moving, entries.get? name = placed.get? name) : AgreeBeside [] placed entries := by
  intro name hname _
  by_cases hmem : name ∈ moving
  · exact hmoving name hmem
  · exact h name hname hmem

theorem validateTargetName_of_check {target : TargetConfig} (h : target.check = .ok ()) :
    validateTargetName target.name = .ok () := by
  unfold TargetConfig.check at h
  split at h
  · cases h
  · assumption

/-- The directory of a new target is made before its change is committed, and deleted when that fails. -/
theorem Pc.Stored.turn_add (h : task.turn toml view external = some turn)
    (hcall : host.call toml arguments task.pc external entries = some after)
    (hstored : task.pc.Stored host arguments placed entries) (hvetted : task.pc.Vetted)
    (hpc : (∃ target, task.pc = .addPrepare target) ∨ (∃ target, task.pc = .addCandidate target) ∨
      ∃ target candidate, task.pc = .addPersist target candidate)
    (hsource : ∀ target, task.pc = .addPrepare target → ∀ source ∈ arguments.source,
      validateTargetName source = .ok ()) : turn.pc.Stored host arguments placed after := by
  rcases task with ⟨origin, pc, callers⟩
  rcases hpc with ⟨target, rfl⟩ | ⟨target, rfl⟩ | ⟨target, candidate, rfl⟩
  · have hname : validateTargetName target.name = .ok () := validateTargetName_of_check hvetted
    have hagree : AgreeBeside [] placed entries := hstored.agree
    rcases Host.call_addPrepare hcall with ⟨rfl, hnone, directory, hdirectory, rfl⟩ | ⟨⟨error, rfl⟩, rfl⟩
    · cases h
      have hplaced : preparedDirectory arguments placed = some directory := by
        rw [← hdirectory]
        exact (preparedDirectory_congr fun source hmem =>
          hagree source (hsource target rfl source hmem) List.not_mem_nil).symm
      refine ⟨⟨?_, directory, hplaced, OrderedMap.get?_insert_self ..⟩, fun name hvalid hother => ?_⟩
      · rw [← hagree target.name hname List.not_mem_nil, hnone]
      · rw [OrderedMap.get?_insert_of_ne _ _ fun heq => hother (List.mem_singleton.mpr heq)]
        exact hagree name hvalid List.not_mem_nil
    · cases h
      exact .settled hagree (Pc.moving_of_resumes (resume_resumes _ _))
  · cases h
    cases hcall
    exact ⟨hstored.moved, hstored.agree⟩
  · simp only [Host.call] at hcall
    simp only [Task.turn] at h
    cases hwritten : validateAndPersist toml external candidate with
    | ok source =>
        rw [hwritten] at h hcall
        cases h
        cases hcall
        exact ⟨hstored.moved, hstored.agree⟩
    | error error =>
        rw [hwritten] at h hcall
        cases h
        cases hcall
        have hothers : AgreeBeside [target.name] placed (entries.erase target.name) := by
          intro name hvalid hother
          rw [OrderedMap.get?_erase_of_ne _ fun heq => hother (List.mem_singleton.mpr heq)]
          exact hstored.agree name hvalid hother
        refine .settled (hothers.of_get? fun name hmem => ?_) (Pc.moving_of_resumes (resume_resumes _ _))
        rw [List.mem_singleton.mp hmem, OrderedMap.get?_erase_self]
        exact hstored.moved.1.symm

theorem TargetEntries.get?_move (entries : TargetEntries) (source destination : String) (tree : FileTree)
    (name : String) : (entries.move source destination tree).get? name =
      if name = destination then some tree else if name = source then none else entries.get? name := by
  rw [move, OrderedMap.get?_insert, OrderedMap.get?_erase]

/-- The directory of a target is moved aside before its removal is committed, and back when that fails. -/
theorem Pc.Stored.turn_remove (h : task.turn toml view external = some turn)
    (hcall : host.call toml arguments task.pc external entries = some after)
    (hstored : task.pc.Stored host arguments placed entries)
    (hpc : (∃ name, task.pc = .removeStage name) ∨ (∃ name, task.pc = .removeCandidate name) ∨
      (∃ name candidate, task.pc = .removePersist name candidate) ∨ ∃ name, task.pc = .removeClean name)
    (hhoused : ∀ name, task.pc.removed? = some name →
      validateTargetName name = .ok () ∧ (placed.get? name).isSome = true) :
    turn.pc.Stored host arguments placed after := by
  have hstaging : ∀ {name : String} (other : String), validateTargetName name = .ok () →
      name ≠ host.stagingName other := by
    rintro name other hvalid rfl
    exact host.stagingName_not_valid other hvalid
  rcases task with ⟨origin, pc, callers⟩
  rcases hpc with ⟨name, rfl⟩ | ⟨name, rfl⟩ | ⟨name, candidate, rfl⟩ | ⟨name, rfl⟩
  · obtain ⟨hname, hplaced⟩ := hhoused name rfl
    obtain ⟨tree, htree⟩ := Option.isSome_iff_exists.mp hplaced
    have hagree : AgreeBeside [] placed entries := hstored.agree
    have hentry : entries.get? name = some tree := (hagree name hname List.not_mem_nil).trans htree
    rcases Host.call_removeStage hcall with ⟨_, hnone, _⟩ | ⟨rfl, other, hother, rfl⟩ | ⟨⟨error, rfl⟩, rfl⟩
    · rw [hentry] at hnone
      cases hnone
    · cases h
      obtain rfl : tree = other := Option.some.inj (hentry.symm.trans hother)
      refine ⟨⟨?_, tree, htree, ?_⟩, fun other hvalid hmoving => ?_⟩
      · rw [TargetEntries.get?_move, if_neg (hstaging name hname), if_pos rfl]
      · rw [TargetEntries.get?_move, if_pos rfl]
      · have hne : other ≠ name := fun heq => hmoving (List.mem_singleton.mpr heq)
        rw [TargetEntries.get?_move, if_neg (hstaging name hvalid), if_neg hne]
        exact hagree other hvalid List.not_mem_nil
    · cases h
      exact .settled hagree (Pc.moving_of_resumes (resume_resumes _ _))
  · cases h
    cases hcall
    exact ⟨hstored.moved, hstored.agree⟩
  · obtain ⟨hname, _⟩ := hhoused name rfl
    simp only [Host.call] at hcall
    simp only [Task.turn] at h
    cases hwritten : validateAndPersist toml external candidate with
    | ok source =>
        rw [hwritten] at h hcall
        cases h
        cases hcall
        exact ⟨hstored.moved, hstored.agree⟩
    | error error =>
        rw [hwritten] at h hcall
        cases h
        cases hcall
        obtain ⟨hgone, tree, htree, hstaged⟩ := hstored.moved
        refine .settled (fun other hvalid _ => ?_) (Pc.moving_of_resumes (resume_resumes _ _))
        rw [TargetEntries.moveBack, hstaged]
        dsimp only
        rw [TargetEntries.get?_move, if_neg (hstaging name hvalid)]
        split_ifs with hother
        · rw [hother, htree]
        · exact hstored.agree other hvalid fun hmem => hother (List.mem_singleton.mp hmem)
  · have hpc : turn.pc.moving = [] := by
      rcases Task.await_eq_some h with ⟨_, rfl⟩ | ⟨error, _, rfl⟩
      · exact Pc.moving_of_resumes (resume_resumes _ _)
      · exact Pc.moving_of_resumes (resume_resumes _ _)
    refine .settled (fun other hvalid hnot => ?_) hpc
    rw [← hstored.agree other hvalid hnot]
    rcases Host.call_removeClean hcall with ⟨_, rfl⟩ | ⟨_, tree, _, rfl⟩
    · exact OrderedMap.get?_erase_of_ne _ (hstaging name hvalid)
    · exact OrderedMap.get?_insert_of_ne _ _ (hstaging name hvalid)

theorem Task.turn_renamed {name replacement : String} {candidate : DaemonConfig} {origin : Origin}
    {callers : List Caller}
    (h : Task.turn toml view ⟨origin, .renameCommit name replacement candidate, callers⟩ external = some turn) :
    turn.pc.moving = [] := by
  simp only [Task.turn] at h
  split at h <;> cases h <;> rfl

/-- The directory of a renamed target is moved before the change is committed, and back when that fails. -/
theorem Pc.Stored.turn_rename (h : task.turn toml view external = some turn)
    (hcall : host.call toml arguments task.pc external entries = some after)
    (hstored : task.pc.Stored host arguments placed entries)
    (hpc : (∃ name replacement, task.pc = .renameMove name replacement) ∨
      (∃ name replacement, task.pc = .renameCandidate name replacement) ∨
      ∃ name replacement candidate, task.pc = .renamePersist name replacement candidate)
    (hprepared : task.pc.Prepared view.inner) (hvetted : task.pc.Vetted) (hagrees : view.inner.Agrees)
    (hvalid : ∀ name ∈ view.inner.targets.keys, validateTargetName name = .ok ()) :
    turn.pc.Stored host arguments placed after := by
  rcases task with ⟨origin, pc, callers⟩
  rcases hpc with ⟨name, replacement, rfl⟩ | ⟨name, replacement, rfl⟩ | ⟨name, replacement, candidate, rfl⟩
  · have hname := hvalid name hprepared.1
    have hagree : AgreeBeside [] placed entries := hstored.agree
    rcases Host.call_renameMove hcall with ⟨rfl, hnone, tree, htree, rfl⟩ | ⟨⟨error, rfl⟩, rfl⟩
    · cases h
      have hne : name ≠ replacement := fun heq => hprepared.2 (heq ▸ hprepared.1)
      refine ⟨⟨?_, ?_, tree, ?_, ?_⟩, fun other hother hmoving => ?_⟩
      · rw [← hagree replacement hvetted List.not_mem_nil, hnone]
      · rw [TargetEntries.get?_move, if_neg hne, if_pos rfl]
      · rw [← hagree name hname List.not_mem_nil, htree]
      · rw [TargetEntries.get?_move, if_pos rfl]
      · have hothers : ¬(other = name ∨ other = replacement) := fun hmem =>
          hmoving (by simpa [Pc.moving, Task.goto] using hmem)
        rw [TargetEntries.get?_move, if_neg fun heq => hothers (Or.inr heq),
          if_neg fun heq => hothers (Or.inl heq)]
        exact hagree other hother List.not_mem_nil
    · cases h
      exact .settled hagree (Pc.moving_of_resumes (resume_resumes _ _))
  · cases hcall
    obtain ⟨entry, hentry⟩ := DaemonConfig.mem_names_iff.mp (hagrees.mem_keys_iff.mp hprepared.1)
    obtain ⟨candidate, hcandidate⟩ :
        ∃ candidate, view.inner.config.renamed name replacement = some candidate := by
      rw [DaemonConfig.renamed, hentry]
      exact ⟨_, rfl⟩
    simp only [Task.turn, hcandidate] at h
    cases h
    exact ⟨hstored.moved, hstored.agree⟩
  · simp only [Host.call] at hcall
    simp only [Task.turn] at h
    cases hwritten : validateAndPersist toml external candidate with
    | ok source =>
        rw [hwritten] at h hcall
        cases h
        cases hcall
        exact ⟨hstored.moved, hstored.agree⟩
    | error error =>
        rw [hwritten] at h hcall
        cases h
        cases hcall
        obtain ⟨hfree, hgone, tree, htree, hmoved⟩ := hstored.moved
        have hne : name ≠ replacement := fun heq => hprepared.2.1 (heq ▸ hprepared.1)
        refine .settled (fun other hother _ => ?_) (Pc.moving_of_resumes (resume_resumes _ _))
        rw [TargetEntries.moveBack, hmoved]
        dsimp only
        rw [TargetEntries.get?_move]
        split_ifs with hback haway
        · rw [hback, htree]
        · rw [haway, hfree]
        · exact hstored.agree other hother (by simp [Pc.moving, hback, haway])

theorem DaemonConfig.entryOf_name {config : DaemonConfig} {name : String} {source : Option String}
    {enable : Bool} {target : TargetConfig} (h : config.entryOf name source enable = some target) :
    target.name = name := by
  cases source with
  | none =>
      cases h
      rfl
  | some source =>
      obtain ⟨entry, _, rfl⟩ := Option.map_eq_some_iff.mp h
      rfl

/-- Only `add` commits a new target, -/
theorem Request.Ahead.of_addCommit {config : DaemonConfig} {target : TargetConfig} {candidate : DaemonConfig}
    {callers : List Caller} {request : Request}
    (h : request.Ahead config (.addCommit target candidate) callers) :
    ∃ source enabled, request = .add target.name source enabled := by
  cases request with
  | add name source enabled =>
      obtain rfl : target.name = name := DaemonConfig.entryOf_name h.2
      exact ⟨source, enabled, rfl⟩
  | remove => exact absurd h.1 Bool.false_ne_true
  | rename => exact h.2.elim
  | enable | setChannel => exact absurd h.2 Bool.false_ne_true
  | disable => simp [Request.Ahead, Pc.persists, Pc.stops] at h
  | _ => exact h.elim

/-- only `remove` commits a removal, -/
theorem Request.Ahead.of_removeCommit {config : DaemonConfig} {name : String} {candidate : DaemonConfig}
    {callers : List Caller} {request : Request}
    (h : request.Ahead config (.removeCommit name candidate) callers) : request = .remove name := by
  cases request with
  | remove other => rw [show name = other from h.1]
  | add | rename => exact h.2.elim
  | enable | setChannel => exact absurd h.2 Bool.false_ne_true
  | disable => simp [Request.Ahead, Pc.persists, Pc.stops] at h
  | _ => exact h.elim

/-- and only `rename` commits a new name. -/
theorem Request.Ahead.of_renameCommit {config : DaemonConfig} {name replacement : String}
    {candidate : DaemonConfig} {callers : List Caller} {request : Request}
    (h : request.Ahead config (.renameCommit name replacement candidate) callers) :
    request = .rename name replacement := by
  cases request with
  | rename other new =>
      obtain ⟨_, rfl, rfl⟩ := h
      rfl
  | add => exact h.2.elim
  | remove => exact absurd h.1 Bool.false_ne_true
  | enable | setChannel => exact absurd h.2 Bool.false_ne_true
  | disable => simp [Request.Ahead, Pc.persists, Pc.stops] at h
  | _ => exact h.elim

/-- The step that commits an operation makes the directories those of the new configuration. -/
theorem Pc.Stored.turn_effect {request : Request} (h : task.turn toml view external = some turn)
    (hcall : host.call toml arguments task.pc external entries = some after)
    (hstored : task.pc.Stored host arguments placed entries)
    (heffect : task.takesEffect toml view.inner external = true)
    (hahead : request.Ahead view.inner.config task.pc task.callers) :
    ∃ placed', request.rearranged arguments placed = some placed' ∧
      turn.pc.Stored host arguments placed' after := by
  rcases task with ⟨origin, pc, callers⟩
  cases pc
  case persist name change =>
      obtain rfl := Host.call_of_not_stores hcall rfl
      have hplaced : request.rearranged arguments placed = some placed := by
        cases request with
        | add | rename => exact hahead.2.elim
        | remove => exact absurd hahead.1 Bool.false_ne_true
        | _ => rfl
      exact ⟨placed, hplaced, .settled hstored.agree (Task.turn_not_moving h rfl)⟩
  case addCommit target candidate =>
      cases hcall
      cases h
      obtain ⟨source, enabled, rfl⟩ := hahead.of_addCommit
      obtain ⟨hnone, directory, hdirectory, hentry⟩ := hstored.moved
      refine ⟨placed.insert target.name directory, ?_, .settled (fun other hvalid _ => ?_) rfl⟩
      · rw [Request.rearranged, hnone, hdirectory]
        rfl
      · rw [OrderedMap.get?_insert]
        split_ifs with hother
        · rw [hother, hentry]
        · exact hstored.agree other hvalid fun hmem => hother (List.mem_singleton.mp hmem)
  case removeCommit name candidate =>
      cases hcall
      cases h
      obtain rfl := hahead.of_removeCommit
      obtain ⟨hgone, tree, htree, _⟩ := hstored.moved
      refine ⟨placed.erase name, ?_, .settled (fun other hvalid _ => ?_) rfl⟩
      · rw [Request.rearranged, htree]
        rfl
      · rw [OrderedMap.get?_erase]
        split_ifs with hother
        · rw [hother, hgone]
        · exact hstored.agree other hvalid fun hmem => hother (List.mem_singleton.mp hmem)
  case renameCommit name replacement candidate =>
      have hpc := Task.turn_renamed h
      cases hcall
      obtain rfl := hahead.of_renameCommit
      obtain ⟨hfree, hgone, tree, htree, hmoved⟩ := hstored.moved
      refine ⟨placed.move name replacement tree, ?_, .settled (fun other hvalid _ => ?_) hpc⟩
      · rw [Request.rearranged, hfree, htree]
        rfl
      · rw [TargetEntries.get?_move]
        split_ifs with hnew hold
        · rw [hnew, hmoved]
        · rw [hold, hgone]
        · exact hstored.agree other hvalid (by simp [Pc.moving, hnew, hold])
  all_goals cases heffect

/-- Any other step of an operation that holds the mutex. -/
theorem Pc.Stored.turn_silent (h : task.turn toml view external = some turn)
    (hcall : host.call toml arguments task.pc external entries = some after)
    (hstored : task.pc.Stored host arguments placed entries)
    (hnot : task.takesEffect toml view.inner external = false)
    (hprepared : task.pc.Prepared view.inner) (hvetted : task.pc.Vetted) (hagrees : view.inner.Agrees)
    (hremoved : ∀ name, task.pc.removed? = some name → name ∈ view.inner.targets.keys)
    (hhoused : ∀ name ∈ view.inner.targets.keys, (placed.get? name).isSome = true)
    (hsource : ∀ target, task.pc = .addPrepare target → ∀ source ∈ arguments.source,
      source ∈ view.inner.targets.keys) : turn.pc.Stored host arguments placed after := by
  have hvalid : ∀ name ∈ view.inner.targets.keys, validateTargetName name = .ok () := by
    intro name hname
    obtain ⟨entry, hentry⟩ := DaemonConfig.mem_names_iff.mp (hagrees.mem_keys_iff.mp hname)
    rw [← DaemonConfig.name_of_target? hentry]
    exact validateTargetName_of_check
      (DaemonConfig.check_of_validate hagrees.valid entry (DaemonConfig.mem_of_target? hentry))
  cases hstores : task.pc.stores with
  | false =>
      obtain rfl := Host.call_of_not_stores hcall hstores
      refine .settled ?_ (Task.turn_not_moving h hstores)
      rw [← Pc.moving_of_not_stores hstores]
      exact hstored.agree
  | true =>
      have hadd := Pc.Stored.turn_add h hcall hstored hvetted
      have hremove := Pc.Stored.turn_remove h hcall hstored
      have hrename := Pc.Stored.turn_rename h hcall hstored
      rcases task with ⟨origin, pc, callers⟩
      have hsources : ∀ target, pc = .addPrepare target → ∀ source ∈ arguments.source,
          validateTargetName source = .ok () :=
        fun target hpc source hmem => hvalid source (hsource target hpc source hmem)
      have hgone : ∀ name, pc.removed? = some name →
          validateTargetName name = .ok () ∧ (placed.get? name).isSome = true :=
        fun name hname => ⟨hvalid name (hremoved name hname), hhoused name (hremoved name hname)⟩
      cases pc
      case addPrepare target => exact hadd (Or.inl ⟨target, rfl⟩) hsources
      case addCandidate target => exact hadd (Or.inr (Or.inl ⟨target, rfl⟩)) hsources
      case addPersist target candidate => exact hadd (Or.inr (Or.inr ⟨target, candidate, rfl⟩)) hsources
      case removeStage name => exact hremove (Or.inl ⟨name, rfl⟩) hgone
      case removeCandidate name => exact hremove (Or.inr (Or.inl ⟨name, rfl⟩)) hgone
      case removePersist name candidate => exact hremove (Or.inr (Or.inr (Or.inl ⟨name, candidate, rfl⟩))) hgone
      case removeClean name => exact hremove (Or.inr (Or.inr (Or.inr ⟨name, rfl⟩))) hgone
      case renameMove name replacement =>
          exact hrename (Or.inl ⟨name, replacement, rfl⟩) hprepared hvetted hagrees hvalid
      case renameCandidate name replacement =>
          exact hrename (Or.inr (Or.inl ⟨name, replacement, rfl⟩)) hprepared hvetted hagrees hvalid
      case renamePersist name replacement candidate =>
          exact hrename (Or.inr (Or.inr ⟨name, replacement, candidate, rfl⟩)) hprepared hvetted hagrees hvalid
      case addCommit | removeCommit | renameCommit => cases hnot
      all_goals cases hstores

end

/-- Since `start`, what is configured has a directory, and any other directory is one that was there at the
start and has been left alone. -/
structure Housed (start state : DaemonConfig × TargetEntries) : Prop where
  nodup : state.1.names.Nodup
  housed : ∀ name ∈ state.1.names, (state.2.get? name).isSome = true
  strangers : ∀ name ∉ state.1.names, state.2.get? name = none ∨
    (name ∉ start.1.names ∧ state.2.get? name = start.2.get? name)

section

variable {start : DaemonConfig × TargetEntries} {config config' : DaemonConfig}
  {placed placed' : TargetEntries} {request : Request} {arguments : AddArguments}

/-- Of the configuration only the names matter. -/
theorem Housed.congr (h : Housed start (config, placed)) (hnames : config'.names = config.names) :
    Housed start (config', placed) := by
  refine ⟨?_, ?_, ?_⟩
  · rw [hnames]
    exact h.nodup
  · rw [hnames]
    exact h.housed
  · rw [hnames]
    exact h.strangers

theorem DaemonConfig.names_changed {name : String} {change : ConfigChange}
    (h : config.changed name change = some config') : config'.names = config.names := by
  obtain ⟨entry, hentry, rfl⟩ := Option.map_eq_some_iff.mp h
  refine names_setEntry ?_
  rw [← name_of_target? hentry]
  cases change <;> rfl

theorem Housed.add {name : String} {source : Option String} {enabled : Bool}
    (h : Housed start (config, placed))
    (hconfig : Request.updated config (.add name source enabled) = some config')
    (hplaced : Request.rearranged arguments placed (.add name source enabled) = some placed') :
    Housed start (config', placed') := by
  simp only [Request.updated, Option.ite_none_left_eq_some] at hconfig
  obtain ⟨hfresh, hpushed⟩ := hconfig
  obtain ⟨entry, hentry, rfl⟩ := Option.map_eq_some_iff.mp hpushed
  obtain rfl : entry.name = name := DaemonConfig.entryOf_name hentry
  have hnew : entry.name ∉ config.names := by
    rw [← DaemonConfig.target?_eq_none_iff]
    simpa using hfresh
  simp only [Request.rearranged, Option.ite_none_left_eq_some] at hplaced
  obtain ⟨directory, _, rfl⟩ := Option.map_eq_some_iff.mp hplaced.2
  have hnames : (config.push entry).names = config.names ++ [entry.name] := by
    simp [DaemonConfig.names, DaemonConfig.push]
  refine ⟨?_, fun name hname => ?_, fun name hname => ?_⟩
  · rw [hnames]
    exact List.nodup_append.mpr ⟨h.nodup, List.nodup_singleton _, fun name hname other hother heq =>
      hnew (by rwa [← List.mem_singleton.mp hother, ← heq])⟩
  · rw [OrderedMap.get?_insert]
    split_ifs with heq
    · rfl
    · refine h.housed name ?_
      rw [hnames] at hname
      exact (List.mem_append.mp hname).resolve_right fun hmem => heq (List.mem_singleton.mp hmem)
  · rw [hnames, List.mem_append, not_or, List.mem_singleton] at hname
    rw [OrderedMap.get?_insert_of_ne _ _ hname.2]
    exact h.strangers name hname.1

theorem Housed.remove {name : String} (h : Housed start (config, placed))
    (hconfig : Request.updated config (.remove name) = some config')
    (hplaced : Request.rearranged arguments placed (.remove name) = some placed') :
    Housed start (config', placed') := by
  simp only [Request.updated, Option.ite_none_right_eq_some] at hconfig
  simp only [Request.rearranged, Option.ite_none_right_eq_some] at hplaced
  obtain ⟨_, hconfig⟩ := hconfig
  obtain ⟨_, hplaced⟩ := hplaced
  cases hconfig
  cases hplaced
  have hnames : ∀ other, other ∈ (config.without name).names ↔ other ≠ name ∧ other ∈ config.names := by
    intro other
    rw [DaemonConfig.mem_names_iff, DaemonConfig.target?_without, DaemonConfig.mem_names_iff]
    split_ifs with heq <;> simp [heq]
  refine ⟨?_, fun other hother => ?_, fun other hother => ?_⟩
  · exact h.nodup.sublist (List.filter_sublist.map _)
  · obtain ⟨hne, hmem⟩ := (hnames other).mp hother
    rw [OrderedMap.get?_erase_of_ne _ hne]
    exact h.housed other hmem
  · rw [OrderedMap.get?_erase]
    split_ifs with heq
    · exact Or.inl rfl
    · exact h.strangers other fun hmem => hother ((hnames other).mpr ⟨heq, hmem⟩)

theorem Housed.rename {name replacement : String} (h : Housed start (config, placed))
    (hconfig : Request.updated config (.rename name replacement) = some config')
    (hplaced : Request.rearranged arguments placed (.rename name replacement) = some placed') :
    Housed start (config', placed') := by
  simp only [Request.updated, Option.ite_none_left_eq_some] at hconfig
  simp only [Request.rearranged, Option.ite_none_left_eq_some] at hplaced
  obtain ⟨hfresh, hconfig⟩ := hconfig
  obtain ⟨_, hplaced⟩ := hplaced
  obtain ⟨tree, htree, rfl⟩ := Option.map_eq_some_iff.mp hplaced
  have hnew : replacement ∉ config.names := by
    rw [← DaemonConfig.target?_eq_none_iff]
    simpa using hfresh
  obtain ⟨entry, hentry, hcandidate⟩ := Option.map_eq_some_iff.mp hconfig
  have hnames : ∀ other, other ∈ config'.names ↔
      other = replacement ∨ (other ≠ name ∧ other ∈ config.names) := by
    intro other
    rw [DaemonConfig.mem_names_iff, DaemonConfig.target?_renamed h.nodup hentry hnew hconfig,
      DaemonConfig.mem_names_iff]
    by_cases hother : other = replacement
    · simp [hother]
    · by_cases hold : other = name
      · subst hold
        simp [hother]
      · simp [hother, hold]
  refine ⟨?_, fun other hother => ?_, fun other hother => ?_⟩
  · rw [← hcandidate]
    exact DaemonConfig.setEntry_nodup h.nodup hnew
  · rw [TargetEntries.get?_move]
    split_ifs with hreplaced hold
    · rfl
    · exact absurd hold (((hnames other).mp hother).resolve_left hreplaced).1
    · exact h.housed other (((hnames other).mp hother).resolve_left hreplaced).2
  · rw [hnames, not_or] at hother
    rw [TargetEntries.get?_move, if_neg hother.1]
    split_ifs with hold
    · exact Or.inl rfl
    · exact h.strangers other fun hmem => hother.2 ⟨hold, hmem⟩

theorem Housed.applied {state state' : DaemonConfig × TargetEntries} {issued : Issued}
    (h : Housed start state) (hstep : issued.applied state = some state') : Housed start state' := by
  obtain ⟨config', hconfig, hstep⟩ := Option.bind_eq_some_iff.mp hstep
  obtain ⟨placed', hplaced, rfl⟩ := Option.map_eq_some_iff.mp hstep
  rcases state with ⟨config, placed⟩
  rcases issued with ⟨request, startPaused, startMuted⟩
  cases request with
  | add => exact h.add hconfig hplaced
  | remove => exact h.remove hconfig hplaced
  | rename => exact h.rename hconfig hplaced
  | enable | disable | setChannel =>
      cases hplaced
      exact h.congr (DaemonConfig.names_changed hconfig)
  | start | stop | restart | saveChannel | mpv => cases hconfig

end

end MpvTargets

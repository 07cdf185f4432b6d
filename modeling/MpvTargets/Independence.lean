import MpvTargets.AllOrNothing
import MpvTargets.Locality
import MpvTargets.RequestValidation

/-! Operations on different targets are independent: each leaves alone what the other depends on, so
their order does not matter. -/

namespace MpvTargets

section

variable {toml : Toml} {host : Host} {arguments : AddArguments} {external : External} {names : List String}
  {s t : Solo}

theorem TargetEntries.get?_move_of_ne (entries : TargetEntries) {source destination path : String}
    (tree : FileTree) (hsource : path ≠ source) (hdestination : path ≠ destination) :
    (entries.move source destination tree).get? path = entries.get? path := by
  rw [move, OrderedMap.get?_insert_of_ne _ _ hdestination, OrderedMap.get?_erase_of_ne _ hsource]

theorem TargetEntries.get?_moveBack_of_ne (entries : TargetEntries) {source destination path : String}
    (hsource : path ≠ source) (hdestination : path ≠ destination) :
    (entries.moveBack source destination).get? path = entries.get? path := by
  rw [moveBack]
  split
  · rfl
  · exact entries.get?_move_of_ne _ hsource hdestination

/-- The calls at an await point leave the entries of other names alone. -/
theorem Host.call_frame {pc : Pc} {entries after : TargetEntries} {path : String}
    (h : host.call toml arguments pc external entries = some after) (hpath : path ∉ host.paths pc.names) :
    after.get? path = entries.get? path := by
  have hname : ∀ name ∈ pc.names, path ≠ name ∧ path ≠ host.stagingName name := fun name hmem =>
    ⟨fun heq => hpath (heq ▸ List.mem_append_left _ hmem),
      fun heq => hpath (heq ▸ List.mem_append_right _ (List.mem_map_of_mem hmem))⟩
  cases hcandidate : pc.candidate? with
  | some candidate =>
      obtain ⟨hfails, hwrites⟩ := Host.call_write hcandidate h
      cases hwritten : validateAndPersist toml external candidate with
      | ok source => rw [hwrites source hwritten]
      | error error =>
          rw [hfails error hwritten]
          cases pc
          case addPersist target => exact OrderedMap.get?_erase_of_ne _ (hname _ (by simp [Pc.names])).1
          case removePersist name _ =>
              obtain ⟨hne, hstaging⟩ := hname name (by simp [Pc.names])
              exact entries.get?_moveBack_of_ne hstaging hne
          case renamePersist name replacement _ =>
              exact entries.get?_moveBack_of_ne (hname replacement (by simp [Pc.names])).1
                (hname name (by simp [Pc.names])).1
          all_goals cases hcandidate
  | none =>
      cases pc
      case addPrepare target =>
          rcases Host.call_addPrepare h with ⟨_, _, directory, _, rfl⟩ | ⟨_, rfl⟩
          · exact OrderedMap.get?_insert_of_ne _ _ (hname _ (by simp [Pc.names])).1
          · rfl
      case removeStage name =>
          obtain ⟨hne, hstaging⟩ := hname name (by simp [Pc.names])
          rcases Host.call_removeStage h with ⟨_, _, rfl⟩ | ⟨_, tree, _, rfl⟩ | ⟨_, rfl⟩
          · rfl
          · exact entries.get?_move_of_ne _ hne hstaging
          · rfl
      case removeClean name =>
          obtain ⟨hne, hstaging⟩ := hname name (by simp [Pc.names])
          rcases Host.call_removeClean h with ⟨_, rfl⟩ | ⟨_, tree, _, rfl⟩
          · exact OrderedMap.get?_erase_of_ne _ hstaging
          · exact OrderedMap.get?_insert_of_ne _ _ hstaging
      case renameMove name replacement =>
          rcases Host.call_renameMove h with ⟨_, _, tree, _, rfl⟩ | ⟨_, rfl⟩
          · exact entries.get?_move_of_ne _ (hname name (by simp [Pc.names])).1
              (hname replacement (by simp [Pc.names])).1
          · rfl
      case addPersist | removePersist | renamePersist => cases hcandidate
      all_goals
        cases h
        rfl

/-- The candidates of an operation are for the node it found. -/
theorem Inner.after_node {inner : Inner} {pc : Pc} (hprepared : pc.Prepared inner) (external : External) :
    (inner.after toml (pc.critical external)).config.node = inner.config.node := by
  cases hconfigures : (pc.critical external).any CriticalSection.configures with
  | false => rw [(inner.after_of_not_configures toml hconfigures).1]
  | true =>
      cases pc
      case persist name change =>
          simp only [Pc.critical, Inner.after, CriticalSection.run]
          rcases persistTargetChange_cases toml external name change inner with
            ⟨_, he⟩ | ⟨_, _, _, _, _, _, _, ⟨_, he⟩ | ⟨_, _, he⟩⟩
          · rw [he]
          · rw [he]
            rfl
          · rw [he]
            rfl
      case addCommit target candidate =>
          obtain ⟨_, rfl, _⟩ := hprepared
          rfl
      case removeCommit name candidate =>
          obtain ⟨rfl, _⟩ := hprepared
          rfl
      case renameCommit name replacement candidate =>
          obtain ⟨_, _, hrenamed, _⟩ := hprepared
          obtain ⟨entry, _, rfl⟩ := Option.map_eq_some_iff.mp hrenamed
          simp only [Pc.critical, Inner.after, CriticalSection.run, renameCommit]
          cases inner.targets.get? name <;> rfl
      all_goals cases hconfigures

/-- What holds of an operation on its own after some steps: it keeps to its names, and has left everything
else as it was. -/
structure Solo.Framed (host : Host) (names : List String) (before s : Solo) : Prop where
  keeps : s.Keeps names
  agree : AgreeOn Shared.look (host.footprint names)ᶜ s.shared before.shared
  node : s.inner.config.node = before.inner.config.node

theorem Solo.Framed.step {before : Solo} (h : Solo.Framed host names before s)
    (hstep : s.step toml host arguments external = some t) : Solo.Framed host names before t := by
  obtain ⟨turn, hcall, _, hinner, _, _, _⟩ := Solo.step_cases hstep
  refine ⟨h.keeps.step hstep, AgreeOn.trans (fun place hplace => ?_) h.agree, ?_⟩
  · cases place with
    | target name =>
        have hacts : (s.task.pc.critical external).any (CriticalSection.actsOn name) = false := by
          rw [Bool.eq_false_iff]
          exact fun hacts => hplace (h.keeps.reads (List.mem_append_left _ (Pc.mem_names_of_actsOn hacts)))
        change Sum.inl (t.inner.targets.get? name) = Sum.inl (s.inner.targets.get? name)
        rw [hinner, Inner.get?_after_of_not_actsOn _ _ hacts]
    | entry path =>
        exact congrArg Sum.inr (Host.call_frame hcall fun hpath => hplace (h.keeps.paths hpath))
  · rw [hinner, Inner.after_node h.keeps.agrees.prepared, h.node]

theorem Solo.Framed.run {before : Solo} {steps : List (Solo × External)}
    (h : Solo.Framed host names before s) (hrun : Solo.Run toml host arguments s steps t) :
    Solo.Framed host names before t := by
  induction hrun with
  | refl => exact h
  | tail _ hstep ih => exact ih.step hstep

end

/-- The targets an operation is about: the one it is addressed to, the one it copies from and the new name. -/
def Request.names : Request → List String
  | add name source _ => name :: source.toList
  | rename name replacement => [name, replacement]
  | start name | stop name | restart name | enable name | disable name => [name]
  | setChannel name _ _ | remove name | saveChannel name | mpv name => [name]

/-- An operation with the options of its base configuration. -/
structure Issued where
  request : Request
  startPaused : Bool
  startMuted : Bool

def Issued.names (issued : Issued) : List String := issued.request.names

def Issued.arguments (issued : Issued) : AddArguments :=
  issued.request.arguments issued.startPaused issued.startMuted

/-- The operation about to take its first step. -/
def Issued.begun (issued : Issued) (shared : Shared) : Solo :=
  .begun shared.inner shared.file shared.entries issued.request.task

/-- From one shared state to another the operation runs to its end, while its calls return these. -/
def Issued.Runs (toml : Toml) (host : Host) (issued : Issued) (before : Shared) (externals : List External)
    (after : Shared) (result : Outcome) : Prop :=
  ∃ steps t, Solo.Run toml host issued.arguments (issued.begun before) steps t ∧
    steps.map Prod.snd = externals ∧ t.shared = after ∧ t.task.pc = .done result

section

variable {toml : Toml} {host : Host} {issued : Issued} {before after : Shared}
  {externals : List External} {result : Outcome}

theorem Issued.begun_keeps (issued : Issued) {shared : Shared} (h : shared.inner.Agrees) :
    (issued.begun shared).Keeps issued.names := by
  rcases issued with ⟨request, startPaused, startMuted⟩
  refine ⟨⟨h, ?_⟩, ?_, ?_, ?_, ?_⟩
  · cases request <;> trivial
  · cases request <;> rfl
  · cases request <;> rfl
  · cases request <;> simp [begun, Solo.begun, Request.task, names, Request.names, Task.names, Pc.names,
      Caller.names]
  · intro source hsource
    cases request
    case add name copied enable => exact List.mem_cons_of_mem _ hsource
    all_goals exact absurd hsource List.not_mem_nil

theorem Issued.source_mem {source : String} (h : source ∈ issued.arguments.source) :
    source ∈ issued.names := by
  rcases issued with ⟨request, startPaused, startMuted⟩
  cases request
  case add name copied enable =>
      obtain rfl : copied = some source := h
      simp [names, Request.names]
  all_goals cases h

theorem Issued.begun_framed (host : Host) (issued : Issued) {shared : Shared} (h : shared.inner.Agrees) :
    Solo.Framed host issued.names (issued.begun shared) (issued.begun shared) :=
  ⟨issued.begun_keeps h, .refl _ _ _, rfl⟩

theorem Issued.Runs.framed (h : issued.Runs toml host before externals after result)
    (hagrees : before.inner.Agrees) : after.inner.Agrees ∧
      AgreeOn Shared.look (host.footprint issued.names)ᶜ after before ∧
      after.inner.config.node = before.inner.config.node := by
  obtain ⟨steps, t, hrun, _, rfl, _⟩ := h
  have hframed := (issued.begun_framed host hagrees).run hrun
  exact ⟨hframed.keeps.agrees.inner, hframed.agree, hframed.node⟩

/-- The targets an operation names and their entries are its footprint. -/
theorem Issued.footprint (hprints : toml.Prints) (host : Host) (issued : Issued) :
    Footprint Shared.look (fun shared => shared.inner.Agrees) (issued.Runs toml host)
      (host.footprint issued.names) where
  frame := fun _ _ _ _ hagrees h => ⟨(h.framed hagrees).1, (h.framed hagrees).2.1⟩
  follow := by
    rintro s s' externals t result hagrees hagrees' hsame ⟨steps, u, hrun, hexternals, rfl, hdone⟩
    have halike : Solo.Alike host issued.names (issued.begun s) (issued.begun s') :=
      ⟨.same _, rfl, hsame, issued.begun_keeps hagrees, issued.begun_keeps hagrees'⟩
    obtain ⟨steps', u', hrun', hexternals', hend⟩ := halike.run (fun _ => Issued.source_mem) hprints hrun
    have hpc := hend.pc
    rw [hdone] at hpc
    refine ⟨u'.shared, ⟨steps', u', hrun', hexternals'.trans hexternals, rfl, ?_⟩, hend.agree⟩
    generalize u'.task.pc = pc at hpc
    cases hpc
    rfl

end

theorem Host.stagingName_inj {host : Host} {name other : String}
    (h : host.stagingName name = host.stagingName other) : name = other := by
  have hlists := congrArg String.toList h
  simp only [stagingName, String.toList_append, List.append_assoc] at hlists
  exact String.toList_inj.mp (List.append_cancel_right (List.append_cancel_left hlists))

/-- A directory that has been moved aside is not that of a target. -/
theorem Host.stagingName_not_valid (host : Host) (name : String) :
    validateTargetName (host.stagingName name) ≠ .ok () := by
  rw [Ne, validateTargetName_ok_iff]
  rintro ⟨_, first, rest, hchars, hstart, _⟩
  have hdot : '.' :: "remove-".toList ++ (name ++ "-" ++ host.pid.repr).toList = first :: rest := by
    rw [← hchars]
    simp [stagingName]
  obtain ⟨rfl, _⟩ := List.cons.inj hdot
  cases hstart

theorem Host.footprint_disjoint (host : Host) {names others : List String}
    (hnames : ∀ name ∈ names, validateTargetName name = .ok ())
    (hothers : ∀ name ∈ others, validateTargetName name = .ok ())
    (hdisjoint : ∀ name ∈ names, name ∉ others) :
    ∀ place ∈ host.footprint names, place ∉ host.footprint others := by
  rintro (name | path) hleft hright
  · exact hdisjoint name hleft hright
  · rcases List.mem_append.mp hleft with hname | hstaging
    · rcases List.mem_append.mp hright with hother | hstaging'
      · exact hdisjoint path hname hother
      · obtain ⟨other, _, rfl⟩ := List.mem_map.mp hstaging'
        exact host.stagingName_not_valid other (hnames _ hname)
    · obtain ⟨name, hname, rfl⟩ := List.mem_map.mp hstaging
      rcases List.mem_append.mp hright with hother | hstaging'
      · exact host.stagingName_not_valid name (hothers _ hother)
      · obtain ⟨other, hother, heq⟩ := List.mem_map.mp hstaging'
        rw [Host.stagingName_inj heq] at hother
        exact hdisjoint name hname hother

theorem Inner.Agrees.mem_targets_iff {inner : Inner} (h : inner.Agrees) {entry : TargetConfig} :
    entry ∈ inner.config.targets ↔
      (inner.targets.get? entry.name).map RuntimeTarget.config = some entry := by
  rw [← h.entries]
  exact ⟨DaemonConfig.target?_of_mem h.nodup, DaemonConfig.mem_of_target?⟩

/-- Snapshots of the same targets at the same node are the same. -/
theorem snapshotFrom_congr {inner inner' : Inner} (hnode : inner.config.node = inner'.config.node)
    (htargets : inner.targets = inner'.targets) : snapshotFrom inner = snapshotFrom inner' := by
  simp only [snapshotFrom, Inner.records, hnode, htargets]

/-- The targets of other names are as before: the record with its revision, the configured entry and the
directory. -/
structure Shared.SameOutside (names : List String) (before after : Shared) : Prop where
  target : ∀ name ∉ names, after.inner.targets.get? name = before.inner.targets.get? name
  entry : ∀ name ∉ names, after.inner.config.target? name = before.inner.config.target? name
  directory : ∀ name ∉ names, validateTargetName name = .ok () →
    after.entries.get? name = before.entries.get? name

theorem Issued.Runs.sameOutside {toml : Toml} {host : Host} {issued : Issued} {before after : Shared}
    {externals : List External} {result : Outcome}
    (h : issued.Runs toml host before externals after result) (hagrees : before.inner.Agrees) :
    Shared.SameOutside issued.names before after := by
  obtain ⟨hagrees', hagree, _⟩ := h.framed hagrees
  have htarget : ∀ name ∉ issued.names,
      after.inner.targets.get? name = before.inner.targets.get? name :=
    fun name hname => Sum.inl.inj (hagree (.target name) hname)
  refine ⟨htarget, fun name hname => ?_, fun name hname hvalid => ?_⟩
  · rw [hagrees'.entries, hagrees.entries, htarget name hname]
  · refine Sum.inr.inj (hagree (.entry name) fun hpath => ?_)
    rcases List.mem_append.mp hpath with hmem | hstaging
    · exact hname hmem
    · obtain ⟨other, _, rfl⟩ := List.mem_map.mp hstaging
      exact host.stagingName_not_valid other hvalid

/-- What two orders of two operations leave the same: the snapshot and the configured entries. -/
structure Shared.Equivalent (left right : Shared) : Prop where
  snapshot : snapshotFrom left.inner = snapshotFrom right.inner
  entries : ∀ entry, entry ∈ left.inner.config.targets ↔ entry ∈ right.inner.config.targets

section

variable {toml : Toml} {config : DaemonConfig} {file : String} {history : List (System × Label)}
  {s : System} {host : Host} {entries : TargetEntries} {first second : Issued}
  {externals externals' : List External} {middle after : Shared} {result result' : Outcome}

/-- From every state of every run of the daemon, over all entries under `targets/`: where two operations with
disjoint valid names run one after the other, they also run in the other order, while the calls of each
return the same; each returns the same and they leave the same, and each leaves the targets of other names
alone. -/
theorem operations_independent (hparses : toml.ParsesBack) (hprints : toml.Prints)
    (hconfig : DaemonConfig.parse toml file = .ok config)
    (hrun : System.Run toml config file history s)
    (hfirst : ∀ name ∈ first.names, validateTargetName name = .ok ())
    (hsecond : ∀ name ∈ second.names, validateTargetName name = .ok ())
    (hdisjoint : ∀ name ∈ first.names, name ∉ second.names)
    (hleft : first.Runs toml host ⟨s.inner, s.file, entries⟩ externals middle result)
    (hright : second.Runs toml host middle externals' after result') :
    ∃ middle' after', second.Runs toml host ⟨s.inner, s.file, entries⟩ externals' middle' result' ∧
      first.Runs toml host middle' externals after' result ∧ Shared.Equivalent after after' ∧
      Shared.SameOutside first.names ⟨s.inner, s.file, entries⟩ middle ∧
      Shared.SameOutside second.names middle after ∧
      Shared.SameOutside second.names ⟨s.inner, s.file, entries⟩ middle' ∧
      Shared.SameOutside first.names middle' after' := by
  have hagrees : s.inner.Agrees := (hrun.configured hparses (validate_of_parse hconfig) hconfig).1.agrees
  obtain ⟨middle', after', hleft', hright', hsame⟩ :=
    (first.footprint hprints host).commute (second.footprint hprints host)
      (host.footprint_disjoint hfirst hsecond hdisjoint) hagrees hleft hright
  obtain ⟨hmiddle, _, hnode⟩ := hleft.framed hagrees
  obtain ⟨hmiddle', _, hnode'⟩ := hleft'.framed hagrees
  obtain ⟨hafter, _, hnodeAfter⟩ := hright.framed hmiddle
  obtain ⟨hafter', _, hnodeAfter'⟩ := hright'.framed hmiddle'
  have htargets : after.inner.targets = after'.inner.targets :=
    OrderedMap.ext_get? fun name => Sum.inl.inj (hsame (.target name))
  have hnodes : after.inner.config.node = after'.inner.config.node := by
    rw [hnodeAfter, hnodeAfter', hnode, hnode']
  refine ⟨middle', after', hleft', hright', ⟨snapshotFrom_congr hnodes htargets, fun entry => ?_⟩,
    hleft.sameOutside hagrees, hright.sameOutside hmiddle, hleft'.sameOutside hagrees,
    hright'.sameOutside hmiddle'⟩
  rw [hafter.mem_targets_iff, hafter'.mem_targets_iff, htargets]

end

/-- A checked run of an operation that succeeds. -/
theorem Issued.exists_runs {toml : Toml} {host : Host} {issued : Issued} {before : Shared}
    {externals : List External} {t : Solo}
    (h : runChecked (Solo.step toml host issued.arguments) (fun _ _ => true) (issued.begun before)
      externals = some t) (hreturned : t.task.pc.returned? = some true) :
    ∃ result, issued.Runs toml host before externals t.shared result ∧ result.isOk = true := by
  obtain ⟨steps, hsteps, hlabels, _⟩ := exists_trace_of_runChecked h
  obtain ⟨result, hdone, hok⟩ := Pc.done_of_returned? hreturned
  exact ⟨result, ⟨steps, t, hsteps, hlabels, rfl, hdone⟩, hok⟩

/-- The toml crate on the configurations the two orders come through. -/
def renameEnableToml : Toml := .withTable [
  pairNode,
  nodeWith [⟨"hall", true, none⟩, ⟨"tv", true, none⟩],
  nodeWith [⟨"den", true, none⟩, ⟨"tv", false, none⟩],
  nodeWith [⟨"hall", true, none⟩, ⟨"tv", false, none⟩]]

theorem renameEnableToml_parsesBack : renameEnableToml.ParsesBack :=
  Toml.withTable_parsesBack (by decide +kernel)

theorem pairNode_parse_renameEnable :
    DaemonConfig.parse renameEnableToml pairNode.toText = .ok pairNode := by decide +kernel

def renameDen : Issued := ⟨.rename "den" "hall", true, true⟩

def enableTv : Issued := ⟨.enable "tv", true, true⟩

/-- Whether the operation succeeds after these calls, and then the other one. -/
def Issued.succeedsThen (first : Issued) (externals : List External) (second : Issued)
    (externals' : List External) (before : Shared) : Bool :=
  let run (issued : Issued) (externals : List External) (shared : Shared) : Option Solo :=
    runChecked (Solo.step renameEnableToml pairHost issued.arguments) (fun _ _ => true)
      (issued.begun shared) externals
  (run first externals before).any fun t => t.task.pc.returned? == some true &&
    (run second externals' t.shared).any fun u => u.task.pc.returned? == some true

theorem Issued.runs_of_succeedsThen {first second : Issued} {externals externals' : List External}
    {before : Shared} (h : first.succeedsThen externals second externals' before = true) :
    ∃ middle after result result', first.Runs renameEnableToml pairHost before externals middle result ∧
      second.Runs renameEnableToml pairHost middle externals' after result' ∧
      result.isOk = true ∧ result'.isOk = true := by
  obtain ⟨t, ht, h⟩ := (Option.any_eq_true ..).mp h
  obtain ⟨hreturned, h⟩ := Bool.and_eq_true_iff.mp h
  obtain ⟨u, hu, hreturned'⟩ := (Option.any_eq_true ..).mp h
  obtain ⟨result, hfirst, hok⟩ := Issued.exists_runs ht (beq_iff_eq.mp hreturned)
  obtain ⟨result', hsecond, hok'⟩ := Issued.exists_runs hu (beq_iff_eq.mp hreturned')
  exact ⟨t.shared, u.shared, result, result', hfirst, hsecond, hok, hok'⟩

/-- `den` becomes `hall` and then `tv` is enabled: in the other order both succeed too. -/
theorem operations_independent_renameEnable : ∃ history s middle after result result',
    System.Run renameEnableToml pairNode pairNode.toText history s ∧
    renameDen.Runs renameEnableToml pairHost ⟨s.inner, s.file, pairEntries⟩ (List.replicate 7 .ok)
      middle result ∧
    enableTv.Runs renameEnableToml pairHost middle (List.replicate 3 .ok) after result' ∧
    result.isOk = true ∧ result'.isOk = true ∧
    ∃ middle' after', enableTv.Runs renameEnableToml pairHost ⟨s.inner, s.file, pairEntries⟩
        (List.replicate 3 .ok) middle' result' ∧
      renameDen.Runs renameEnableToml pairHost middle' (List.replicate 7 .ok) after' result ∧
      Shared.Equivalent after after' ∧
      Shared.SameOutside renameDen.names ⟨s.inner, s.file, pairEntries⟩ middle ∧
      Shared.SameOutside enableTv.names middle after ∧
      Shared.SameOutside enableTv.names ⟨s.inner, s.file, pairEntries⟩ middle' ∧
      Shared.SameOutside renameDen.names middle' after' := by
  have hstarts : (runChecked (System.step renameEnableToml) (fun _ _ => true)
      (System.initial pairNode pairNode.toText) pairStarted).any (fun s =>
        renameDen.succeedsThen (List.replicate 7 .ok) enableTv (List.replicate 3 .ok)
          ⟨s.inner, s.file, pairEntries⟩) = true := by
    decide +kernel
  obtain ⟨history, s, hrun, _, _, hresult⟩ := System.exists_run hstarts
  obtain ⟨middle, after, result, result', hfirst, hsecond, hok, hok'⟩ := Issued.runs_of_succeedsThen hresult
  exact ⟨history, s, middle, after, result, result', hrun, hfirst, hsecond, hok, hok',
    operations_independent renameEnableToml_parsesBack (Toml.withTable_prints _)
      pairNode_parse_renameEnable hrun (by decide +kernel) (by decide +kernel) (by decide) hfirst hsecond⟩

end MpvTargets

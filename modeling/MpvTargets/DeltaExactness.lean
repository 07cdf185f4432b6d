import MpvTargets.ClientMirror
import MpvTargets.ConfigAgreement
import MpvTargets.Scenario

/-! The client's mirror follows the server section by section: what a section reports, applied to the
snapshot from before it, gives the snapshot from after it. -/

namespace MpvTargets

/-- `apply_target_change` on an object at the next revision. -/
theorem applyChange_object (record : TargetRecord) (name : String) (fields : List (String × Value)) :
    applyChange record ⟨name, record.revision + 1, .object fields⟩ =
      (fields.foldlM (fun target entry => applyChangedField target entry.1 entry.2) record).map
        fun target => { target with revision := record.revision + 1 } := by
  simp only [applyChange, ne_eq, not_true_eq_false, if_false, Value.asObject, bind, Except.bind,
    pure, Except.pure]
  cases fields.foldlM (fun target entry => applyChangedField target entry.1 entry.2) record <;> rfl

/-- What a section reports of its target is exact: nothing when the record stays as it is, otherwise
fields that turn the old record into the new one. -/
def Exact (name : String) (before after : RuntimeTarget) (changed : Option Value) : Prop :=
  match changed with
  | none => after.record name = before.record name
  | some changed =>
      applyChange (before.record name) ⟨name, after.revision, changed⟩ = .ok (after.record name)

/-- A report of fields is exact when the fields lead to the new record. -/
theorem exact_of_fields {name : String} {before after : RuntimeTarget}
    {fields : List (String × Value)} (hrevision : after.revision = before.revision + 1)
    (hfields : (fields.foldlM (fun target entry => applyChangedField target entry.1 entry.2)
      (before.record name)).map (fun target => { target with revision := before.revision + 1 }) =
        .ok (after.record name)) : Exact name before after (some (.object fields)) := by
  rw [Exact, hrevision, ← hfields]
  exact applyChange_object (before.record name) name fields

theorem start_exact (name : String) (target : RuntimeTarget) :
    Exact name target (startSection target).target (startSection target).changed := by
  cases hdisabled : target.config.disabled <;> cases hstopped : target.stopped <;>
    cases hlaunch : target.online || target.launching <;>
    simp only [startSection, hdisabled, hstopped, hlaunch, if_true, if_false, Bool.false_eq_true]
  all_goals first
    | rfl
    | exact exact_of_fields rfl rfl
    | simp only [Exact, RuntimeTarget.record, hstopped]

theorem stop_exact (name : String) (target : RuntimeTarget) :
    Exact name target (stopSection target).target (stopSection target).changed := by
  cases hstopped : target.stopped <;>
    simp only [stopSection, hstopped, if_true, if_false, Bool.false_eq_true]
  · exact exact_of_fields rfl rfl
  · rfl

theorem targetLost_exact (name : String) (target : RuntimeTarget) :
    Exact name target (targetLostSection target).target (targetLostSection target).changed := by
  cases honline : target.online <;>
    simp only [targetLostSection, honline, if_true, if_false, Bool.false_eq_true]
  · rfl
  · exact exact_of_fields rfl rfl

theorem admitRecovery_exact (name : String) (target : RuntimeTarget) :
    Exact name target (admitRecoverySection target).target (admitRecoverySection target).changed := by
  rw [admitRecoverySection]
  split_ifs <;> rfl

theorem stillExpected_exact (name : String) (target : RuntimeTarget) :
    Exact name target (stillExpectedSection target).target (stillExpectedSection target).changed := by
  rw [stillExpectedSection]
  split_ifs <;> rfl

theorem ensureDisabledOff_exact (name : String) (target : RuntimeTarget) :
    Exact name target (ensureDisabledOffSection target).target
      (ensureDisabledOffSection target).changed := by
  cases honline : target.online <;> cases hstopped : target.stopped <;>
    simp only [ensureDisabledOffSection, honline, hstopped, if_true, if_false, Bool.false_eq_true,
      List.nil_append, List.append_nil, List.isEmpty_nil, List.isEmpty_cons, List.cons_append]
  · refine exact_of_fields rfl ?_
    rw [RuntimeTarget.record, honline]
    rfl
  · simp only [Exact, RuntimeTarget.record, honline, hstopped]
  · exact exact_of_fields rfl rfl
  · refine exact_of_fields rfl ?_
    rw [RuntimeTarget.record, hstopped]
    rfl

theorem markOnline_exact (name : String) (target : RuntimeTarget) :
    Exact name target (markOnlineSection target).target (markOnlineSection target).changed := by
  cases honline : target.online <;>
    simp only [markOnlineSection, honline, if_true, if_false, Bool.false_eq_true]
  · exact exact_of_fields rfl rfl
  · rfl

theorem markOffline_exact (name : String) (target : RuntimeTarget) :
    Exact name target (markOfflineSection target).target (markOfflineSection target).changed := by
  cases honline : target.online <;>
    simp only [markOfflineSection, honline, if_true, if_false, Bool.false_eq_true]
  · rfl
  · exact exact_of_fields rfl rfl

theorem clearMediaEnd_exact (name : String) (target : RuntimeTarget) :
    Exact name target (clearMediaEndSection target).target (clearMediaEndSection target).changed := by
  rw [clearMediaEndSection]
  split_ifs
  · rfl
  · exact exact_of_fields rfl rfl

theorem updateMediaEnd_exact (name : String) (reason : MediaEndReason) (error : Option String)
    (target : RuntimeTarget) :
    Exact name target (updateMediaEndSection reason error target).target
      (updateMediaEndSection reason error target).changed := by
  rw [updateMediaEndSection]
  split_ifs
  · rfl
  · cases error <;> cases reason <;> exact exact_of_fields rfl rfl

/-- A field whose two readers agree reports exactly what it stores. -/
theorem observedField_exact {α : Type} {same : α → α → Bool} {slot : α} {set : α → TargetState}
    {parsed : Option α} {observed : TargetState}
    (h : setObserved same slot set parsed = some observed) :
    ∃ next, parsed = some next ∧ observed = set next := by
  cases parsed with
  | none => cases h
  | some next =>
      rw [setObserved] at h
      split_ifs at h
      exact ⟨next, rfl, (Option.some.inj h).symm⟩

/-- The daemon and the client read an optional value alike when their readers do. -/
theorem optionalChange_of_optionalValue {α : Type} {parse read : Value → Option α}
    {value : Value} {next : Option α} (h : optionalValue parse value = some next)
    (hread : ∀ a, parse value = some a → read value = some a) (field : String) :
    optionalChange read field value = .ok next := by
  rw [optionalValue] at h
  rw [optionalChange]
  split_ifs at h ⊢
  · rw [Option.some.inj h]
  · obtain ⟨a, ha, rfl⟩ := Option.map_eq_some_iff.mp h
    rw [hread a ha]
    rfl

theorem loopState_values {value : Value} {state : String} (h : loopState value = some state) :
    state = "on" ∨ state = "off" := by
  obtain ⟨enabled, _, rfl⟩ := Option.map_eq_some_iff.mp h
  cases enabled
  · exact Or.inr rfl
  · exact Or.inl rfl

/-- A normalized loop value is read by the client as the daemon stores it. -/
theorem asStr_of_loopState {field : String} (hfield : field = "loop_file" ∨ field = "loop_playlist")
    {value : Value} {state : String}
    (h : loopState (normalizeObservedValue field value) = some state) :
    (normalizeObservedValue field value).asStr = some state := by
  rw [normalizeObservedValue, if_pos hfield] at h ⊢
  cases hloop : loopState value with
  | some normalized =>
      rw [hloop] at h
      rcases loopState_values hloop with rfl | rfl <;> exact h
  | none =>
      have hne : field ≠ "position" ∧ field ≠ "playlist_position" := by
        rcases hfield with rfl | rfl <;> decide
      simp only [hloop, if_neg hne.1, hne.2, false_and, if_false] at h
      cases h

theorem asU32_of_asI64 {value : Value} {next : UInt32}
    (h : value.asI64.bind u32OfI64 = some next) : value.asU64.bind u32OfU64 = some next := by
  cases value with
  | number number =>
      have hagree := u32_reads_agree number
      exact hagree ▸ h
  | _ => cases h

/-- What the daemon stores of a reported value is what the client reads from it. -/
theorem applyChangedField_of_update {record : TargetRecord} {field : String} {value : Value}
    {observed : TargetState}
    (h : applyObservedUpdate record.state field (normalizeObservedValue field value) =
      some observed) :
    applyChangedField record field (normalizeObservedValue field value) =
      .ok { record with state := observed } := by
  unfold applyObservedUpdate at h
  split at h
  case h_5 | h_6 =>
    obtain ⟨next, hnext, rfl⟩ := observedField_exact h
    have hread : ∀ field, optionalU32 field _ = .ok next :=
      optionalChange_of_optionalValue hnext fun _ => asU32_of_asI64
    simp only [applyChangedField, hread, bind, Except.bind, pure, Except.pure]
  case h_10 | h_11 =>
    obtain ⟨next, hnext, rfl⟩ := observedField_exact h
    have hread := optionalChange_of_optionalValue hnext fun _ => asStr_of_loopState (by simp)
    simp only [applyChangedField, optionalString, hread, bind, Except.bind, pure, Except.pure]
  case h_12 | h_13 =>
    obtain ⟨next, hnext, rfl⟩ := observedField_exact h
    have hread : ∀ field, optionalTrack field _ = .ok next :=
      optionalChange_of_optionalValue hnext fun _ ha => ha
    simp only [applyChangedField, hread, bind, Except.bind, pure, Except.pure]
  case h_15 => cases h
  all_goals
    obtain ⟨next, hnext, rfl⟩ := observedField_exact h
    have hread := optionalChange_of_optionalValue hnext fun _ ha => ha
    simp only [applyChangedField, optionalBool, optionalNumber, optionalString, hread, bind,
      Except.bind, pure, Except.pure]

theorem updateObserved_exact (name field : String) (value : Value) (target : RuntimeTarget) :
    Exact name target (updateObservedSection field value target).target
      (updateObservedSection field value target).changed := by
  rw [updateObservedSection]
  cases h : applyObservedUpdate target.observed field (normalizeObservedValue field value) with
  | none => simp only [Exact]
  | some observed =>
      simp only
      refine exact_of_fields rfl ?_
      have happly : applyChangedField (target.record name) field
          (normalizeObservedValue field value) = _ := applyChangedField_of_update h
      rw [List.foldlM_cons, happly]
      rfl

/-- Reporting a field as absent clears it, and passing over one that is absent changes nothing. -/
theorem foldlM_clear_cons {α : Type} {encode : α → Value} {slot : Option α} {field : String}
    {record cleared : TargetRecord} {fields : List (String × Value)}
    (hclear : applyChangedField record field .null = .ok cleared)
    (habsent : slot = none → cleared = record) (hencode : ∀ a, (encode a).isNull = false) :
    ((((field, Value.optional encode slot) :: fields).filter fun entry => !entry.2.isNull).map
        fun entry => (entry.1, Value.null)).foldlM
          (fun target entry => applyChangedField target entry.1 entry.2) record =
      ((fields.filter fun entry => !entry.2.isNull).map
        fun entry => (entry.1, Value.null)).foldlM
          (fun target entry => applyChangedField target entry.1 entry.2) cleared := by
  cases slot with
  | none => rw [habsent rfl]; rfl
  | some a =>
      rw [List.filter_cons_of_pos (by simp [Value.optional, hencode]), List.map_cons,
        List.foldlM_cons, hclear]
      rfl

theorem clearObserved_fields (record : TargetRecord) :
    ((record.state.encodeFields.filter fun entry => !entry.2.isNull).map
        fun entry => (entry.1, Value.null)).foldlM
          (fun target entry => applyChangedField target entry.1 entry.2) record =
      .ok { record with state := .default } := by
  obtain ⟨name, disabled, stopped, online, channel, state, revision⟩ := record
  obtain ⟨paused, muted, volume, title, playlistPosition, playlistCount, idleActive, duration,
    position, loopFile, loopPlaylist, audioTrack, subtitleTrack, subtitlesVisible, lastEndReason,
    lastEndError⟩ := state
  rw [TargetState.encodeFields]
  iterate 16
    rw [foldlM_clear_cons rfl (by rintro rfl; rfl)
      (by intro a; first | rfl | (cases a <;> rfl))]
    dsimp only
  rfl

theorem clearObserved_exact (name : String) (target : RuntimeTarget) :
    Exact name target (clearObservedSection target).target (clearObservedSection target).changed := by
  rw [clearObservedSection]
  split_ifs
  · rfl
  · refine exact_of_fields rfl ?_
    have hfields := clearObserved_fields (target.record name)
    rw [show (target.record name).state = target.observed from rfl] at hfields
    rw [hfields]
    rfl

/-- Every section on a target reports exactly what it changes. -/
theorem TargetOp.run_exact (op : TargetOp) (name : String) (target : RuntimeTarget) :
    Exact name target (op.run target).1 (op.run target).2 := by
  cases op with
  | start => exact start_exact name target
  | stop => exact stop_exact name target
  | targetLost => exact targetLost_exact name target
  | admitRecovery => exact admitRecovery_exact name target
  | stillExpected => exact stillExpected_exact name target
  | ensureDisabledOff => exact ensureDisabledOff_exact name target
  | clearObserved => exact clearObserved_exact name target
  | markOnline => exact markOnline_exact name target
  | markOffline => exact markOffline_exact name target
  | clearLaunching => exact rfl
  | updateObserved field value => exact updateObserved_exact name field value target
  | updateMediaEnd reason error => exact updateMediaEnd_exact name reason error target
  | clearMediaEnd => exact clearMediaEnd_exact name target

/-- So does a change of the entry, where the target carries it. -/
theorem persist_exact {change : ConfigChange} {entry persisted : TargetConfig} {changed : Value}
    (h : change.mutate entry = some (persisted, changed)) (name : String) {target : RuntimeTarget}
    (hconfig : target.config = entry) :
    Exact name target { target with config := persisted, revision := target.revision + 1 }
      (some changed) := by
  subst hconfig
  cases change with
  | enable =>
      rw [ConfigChange.mutate] at h
      split_ifs at h
      cases h
      exact exact_of_fields rfl rfl
  | disable =>
      rw [ConfigChange.mutate] at h
      split_ifs at h
      cases h
      exact exact_of_fields rfl rfl
  | setChannel channel =>
      rw [ConfigChange.mutate] at h
      split_ifs at h
      cases h
      cases channel <;> exact exact_of_fields rfl rfl

/-- The record of a target is found and replaced in place. -/
theorem replaceFirst_records {name : String} {entries : List (String × RuntimeTarget)}
    {target after : RuntimeTarget} (update : TargetRecord → Except ClientError TargetRecord)
    (hnodup : (entries.map Prod.fst).Nodup) (hmem : (name, target) ∈ entries)
    (hupdate : update (target.record name) = .ok (after.record name)) :
    replaceFirst name update (entries.map fun entry => entry.2.record entry.1) =
      some (.ok ((entries.map fun entry => if entry.1 = name then (name, after) else entry).map
        fun entry => entry.2.record entry.1)) := by
  induction entries with
  | nil => exact absurd hmem List.not_mem_nil
  | cons head rest ih =>
      obtain ⟨hhead, hnodup⟩ := List.nodup_cons.mp hnodup
      rw [List.map_cons, List.map_cons, List.map_cons, replaceFirst]
      rcases List.mem_cons.mp hmem with rfl | hmem
      · have hrest : rest.map (fun entry => if entry.1 = name then (name, after) else entry) = rest :=
          (List.map_congr_left fun entry hentry => if_neg fun heq =>
            hhead (List.mem_map.mpr ⟨entry, hentry, heq⟩)).trans (List.map_id' rest)
        dsimp only
        rw [if_pos rfl, if_pos (show (target.record name).name = name from rfl), hrest, hupdate]
        rfl
      · have hne : head.1 ≠ name := fun heq => hhead (List.mem_map.mpr ⟨_, hmem, heq.symm⟩)
        rw [if_neg hne, if_neg (show (head.2.record head.1).name ≠ name from hne), ih hnodup hmem]
        rfl

/-- A report about one target takes the snapshot from before to the snapshot from after. -/
theorem handleEvent_targetChanged {inner after : Inner} {name : String} {target target' : RuntimeTarget}
    {changed : Value} (htarget : inner.targets.get? name = some target)
    (hexact : Exact name target target' (some changed))
    (hnode : after.config.node = inner.config.node)
    (hafter : after.targets = inner.targets.insert name target') :
    handleEvent (some (snapshotFrom inner)) (targetChanged name target' changed) =
      .ok (snapshotFrom after) := by
  have hrecords := replaceFirst_records
    (fun record => applyChange record ⟨name, target'.revision, changed⟩) inner.targets.keys_nodup
    ((OrderedMap.mem_entries_iff _).mpr htarget) hexact
  simp only [targetChanged, handleEvent, applyTargetChange, snapshotFrom, Inner.records, hrecords,
    refreshHealth_eq, bind, Except.bind, pure, Except.pure, hafter, hnode,
    OrderedMap.entries_insert_of_get? inner.targets target' htarget]

theorem handleEvent_snapshot (mirror : Option Snapshot) (inner : Inner) :
    handleEvent mirror (emitSnapshot inner) = .ok (snapshotFrom inner) := by
  simp [emitSnapshot, handleEvent, snapshotFrom]

theorem records_names (inner : Inner) :
    inner.records.map TargetRecord.name = inner.targets.keys := by
  rw [Inner.records, List.map_map]
  rfl

/-- Two states with different names have different snapshots. -/
theorem snapshotFrom_ne_of_keys {before after : Inner} {name : String}
    (h : ¬(name ∈ after.targets.keys ↔ name ∈ before.targets.keys)) :
    snapshotFrom after ≠ snapshotFrom before := by
  intro heq
  have hrecords : after.records = before.records := congrArg Snapshot.targets heq
  apply h
  rw [← records_names, ← records_names, hrecords]

theorem revision_of_exact {name : String} {before after : RuntimeTarget} {changed : Value}
    (h : Exact name before after (some changed)) : after.revision = before.revision + 1 := by
  by_contra hne
  simp only [Exact, applyChange] at h
  rw [if_pos (show after.revision ≠ (before.record name).revision + 1 from hne)] at h
  cases h

/-- A target put back changes the records exactly when its own record changes. -/
theorem records_insert_iff {inner after : Inner} {name : String} {target target' : RuntimeTarget}
    (htarget : inner.targets.get? name = some target)
    (hafter : after.targets = inner.targets.insert name target') :
    after.records = inner.records ↔ target'.record name = target.record name := by
  have hmem := (OrderedMap.mem_entries_iff _).mpr htarget
  rw [Inner.records, Inner.records, hafter, OrderedMap.entries_insert_of_get? _ _ htarget,
    List.map_map, List.map_inj_left]
  constructor
  · intro h
    simpa using h _ hmem
  · intro h entry hentry
    by_cases hname : entry.1 = name
    · have heq : entry = (name, target) := OrderedMap.entry_unique _ hentry hmem hname
      simp [heq, h]
    · simp [hname]

/-- What the operations see to before they enter a committing section. -/
def CriticalSection.Admissible (inner : Inner) : CriticalSection → Prop
  | onTarget _ _ | persistTargetChange _ _ _ => True
  | addCommit candidate target =>
      target.name ∉ inner.targets.keys ∧ candidate = inner.config.push target
  | removeCommit candidate name =>
      name ∈ inner.targets.keys ∧ candidate = inner.config.without name
  | renameCommit candidate name replacement =>
      name ∈ inner.targets.keys ∧ replacement ∉ inner.targets.keys ∧
        inner.config.renamed name replacement = some candidate

/-- No event when the snapshot stays as it is, otherwise one, which takes a client that mirrors the
snapshot from before to the snapshot from after. -/
def Delta (before : Inner) (result : Commit) : Prop :=
  (snapshotFrom result.inner = snapshotFrom before ∧ result.events = []) ∨
    (snapshotFrom result.inner ≠ snapshotFrom before ∧ ∃ event, result.events = [event] ∧
      handleMessage (some (snapshotFrom before)) event.encode =
        some (.ok (snapshotFrom result.inner)))

theorem delta_unchanged (inner : Inner) : Delta inner { inner } := Or.inl ⟨rfl, rfl⟩

/-- An exact report about one target. -/
theorem delta_target {inner after : Inner} {name : String} {target target' : RuntimeTarget}
    {changed : Option Value} {file : Option String} (htarget : inner.targets.get? name = some target)
    (hexact : Exact name target target' changed)
    (hnode : after.config.node = inner.config.node)
    (hafter : after.targets = inner.targets.insert name target') :
    Delta inner
      { inner := after, events := (changed.map (targetChanged name target')).toList, file } := by
  cases changed with
  | none =>
      have hrecords := (records_insert_iff htarget hafter).mpr hexact
      refine Or.inl ⟨?_, rfl⟩
      simp only [snapshotFrom, hrecords, hnode]
  | some changed =>
      refine Or.inr ⟨?_, _, rfl, ?_⟩
      · intro heq
        have hrecord := (records_insert_iff htarget hafter).mp (congrArg Snapshot.targets heq)
        have hrevision : target'.revision = target.revision := congrArg TargetRecord.revision hrecord
        rw [revision_of_exact hexact] at hrevision
        simp at hrevision
      · rw [handleMessage_encode, handleEvent_targetChanged htarget hexact hnode hafter]

/-- A new snapshot, where a name has come or gone. -/
theorem delta_snapshot {inner after : Inner} {name : String}
    (h : ¬(name ∈ after.targets.keys ↔ name ∈ inner.targets.keys)) :
    Delta inner { inner := after, events := [emitSnapshot after] } :=
  Or.inr ⟨snapshotFrom_ne_of_keys h, _, rfl, by rw [handleMessage_encode, handleEvent_snapshot]⟩

theorem delta_section (toml : Toml) {inner : Inner} (hagrees : inner.Agrees)
    {critical : CriticalSection} (hadmissible : critical.Admissible inner) :
    Delta inner (critical.run toml inner) := by
  cases critical with
  | onTarget name op =>
      rw [CriticalSection.run, Inner.onTarget]
      cases htarget : inner.targets.get? name with
      | none => exact delta_unchanged inner
      | some target => exact delta_target htarget (op.run_exact name target) rfl rfl
  | persistTargetChange name change external =>
      rw [CriticalSection.run]
      rcases persistTargetChange_cases toml external name change inner with
        ⟨_, he⟩ | ⟨entry, persisted, changed, source, hentry, hmutate, _, hcommit⟩
      · rw [he]
        exact delta_unchanged inner
      · rcases hcommit with ⟨hnone, _⟩ | ⟨target, htarget, he⟩
        · rw [hagrees.entries, hnone] at hentry
          cases hentry
        · rw [hagrees.target?_of_get? htarget] at hentry
          rw [he]
          exact delta_target htarget (persist_exact hmutate name (Option.some.inj hentry)) rfl rfl
  | addCommit candidate target =>
      have hnew : ¬(target.name ∈ (addCommit candidate target inner).inner.targets.keys ↔
          target.name ∈ inner.targets.keys) := by
        intro hiff
        exact hadmissible.1 (hiff.mp ((OrderedMap.mem_keys_insert _).mpr (Or.inl rfl)))
      exact delta_snapshot hnew
  | removeCommit candidate name =>
      have hgone : ¬(name ∈ (removeCommit candidate name inner).inner.targets.keys ↔
          name ∈ inner.targets.keys) := by
        intro hiff
        exact ((OrderedMap.mem_keys_erase _).mp (hiff.mpr hadmissible.1)).1 rfl
      exact delta_snapshot hgone
  | renameCommit candidate name replacement =>
      obtain ⟨hname, hfresh, _⟩ := hadmissible
      obtain ⟨target, htarget⟩ := (OrderedMap.mem_keys_iff _).mp hname
      simp only [CriticalSection.run, renameCommit, htarget]
      refine delta_snapshot fun hiff => hfresh (hiff.mp ?_)
      exact (OrderedMap.mem_keys_insert _).mpr (Or.inl rfl)

/-- **Delta exactness**: every section of the supervisor moves the mirrored snapshots of its clients
along with its own state. -/
theorem section_delta_exact (toml : Toml) {inner : Inner} (hagrees : inner.Agrees)
    {critical : CriticalSection} (hadmissible : critical.Admissible inner) :
    Delta inner (critical.run toml inner) :=
  delta_section toml hagrees hadmissible

/-- Renaming `tv` to `radio` sends every client the snapshot it needs. -/
theorem section_delta_exact_rename :
    Delta (Inner.new tvNode)
      ((CriticalSection.renameCommit (nodeWith [⟨"radio", false, none⟩]) "tv" "radio").run tvToml
        (Inner.new tvNode)) := by
  have hadmissible : CriticalSection.Admissible (Inner.new tvNode)
      (.renameCommit (nodeWith [⟨"radio", false, none⟩]) "tv" "radio") :=
    ⟨by decide +kernel, by decide +kernel, by decide +kernel⟩
  exact section_delta_exact tvToml (Inner.Agrees.initial (by decide +kernel)) hadmissible

end MpvTargets

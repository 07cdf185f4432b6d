import MpvTargets.SupervisorSteps

/-! The configuration and the runtime targets agree: the configuration validates, its names are those
of the targets, and every target carries its own entry. Every section keeps this, the committing ones
when their candidate is the one their operation prepared. -/

namespace MpvTargets

theorem setEntry_names (name : String) {entry : TargetConfig} (targets : List TargetConfig)
    (hname : entry.name = name) :
    (setEntry name entry targets).map TargetConfig.name = targets.map TargetConfig.name := by
  induction targets with
  | nil => rfl
  | cons target rest ih =>
      rw [setEntry]
      split_ifs with h
      · rw [List.map_cons, List.map_cons, hname, h]
      · rw [List.map_cons, List.map_cons, ih]

/-- An entry replaced under its own name is found in its place. -/
theorem find?_setEntry {name other : String} {entry : TargetConfig} (hname : entry.name = name)
    {targets : List TargetConfig} (hmem : name ∈ targets.map TargetConfig.name) :
    (setEntry name entry targets).find? (fun target => target.name = other) =
      if other = name then some entry else targets.find? fun target => target.name = other := by
  induction targets with
  | nil => exact absurd hmem List.not_mem_nil
  | cons target rest ih =>
      rw [setEntry]
      by_cases h : target.name = name
      · rw [if_pos h, List.find?_cons, List.find?_cons, h, hname]
        by_cases hother : name = other
        · simp [hother]
        · simp [hother, Ne.symm hother]
      · have hrest : name ∈ rest.map TargetConfig.name := by
          rcases List.mem_cons.mp hmem with heq | hrest
          · exact absurd heq.symm h
          · exact hrest
        rw [if_neg h, List.find?_cons, List.find?_cons, ih hrest]
        by_cases htarget : target.name = other
        · have hne : other ≠ name := fun heq => h (htarget.trans heq)
          simp [htarget, hne]
        · simp [htarget]

/-- An entry replaced under a new name takes the place of the old one. -/
theorem find?_setEntry_renamed {name other : String} {entry : TargetConfig}
    {targets : List TargetConfig} (hnodup : (targets.map TargetConfig.name).Nodup)
    (hmem : name ∈ targets.map TargetConfig.name)
    (hfresh : entry.name ∉ targets.map TargetConfig.name) :
    (setEntry name entry targets).find? (fun target => target.name = other) =
      if other = entry.name then some entry
      else if other = name then none
      else targets.find? fun target => target.name = other := by
  induction targets with
  | nil => exact absurd hmem List.not_mem_nil
  | cons target rest ih =>
      obtain ⟨htarget, hnodup⟩ := List.nodup_cons.mp hnodup
      rw [List.map_cons, List.mem_cons, not_or] at hfresh
      rw [setEntry]
      by_cases h : target.name = name
      · rw [if_pos h, List.find?_cons, List.find?_cons]
        have hrest : rest.find? (fun target => target.name = name) = none := by
          rw [List.find?_eq_none]
          intro found hfound hname
          exact htarget (List.mem_map.mpr ⟨found, hfound, by simpa [h] using hname⟩)
        by_cases hother : other = entry.name
        · simp [hother]
        · by_cases hname : other = name
          · simp [hname ▸ Ne.symm hother, hname ▸ hother, hname, hrest]
          · simp [hother, Ne.symm hother, hname, h, Ne.symm hname]
      · have hrest : name ∈ rest.map TargetConfig.name := by
          rcases List.mem_cons.mp hmem with heq | hrest
          · exact absurd heq.symm h
          · exact hrest
        rw [if_neg h, List.find?_cons, List.find?_cons, ih hnodup hrest hfresh.2]
        by_cases hother : target.name = other
        · have hne : other ≠ name := fun heq => h (hother.trans heq)
          have hne' : other ≠ entry.name := fun heq => hfresh.1 (hother.trans heq).symm
          simp [hother, hne, hne']
        · simp [hother]

namespace DaemonConfig

variable {config : DaemonConfig} {name other : String} {entry : TargetConfig}

theorem name_of_target? (h : config.target? name = some entry) : entry.name = name := by
  simpa using List.find?_some h

theorem mem_of_target? (h : config.target? name = some entry) : entry ∈ config.targets :=
  List.mem_of_find?_eq_some h

theorem mem_names_iff : name ∈ config.names ↔ ∃ entry, config.target? name = some entry := by
  rw [names, List.mem_map, target?, ← Option.isSome_iff_exists, List.find?_isSome]
  simp

theorem target?_eq_none_iff : config.target? name = none ↔ name ∉ config.names := by
  rw [mem_names_iff, not_exists]
  cases config.target? name <;> simp

/-- A name occurs once, so its entry is the one `target?` finds. -/
theorem target?_of_mem (hnodup : config.names.Nodup) (h : entry ∈ config.targets) :
    config.target? entry.name = some entry := by
  obtain ⟨found, hfound⟩ := mem_names_iff.mp (List.mem_map.mpr ⟨entry, h, rfl⟩)
  rw [hfound, List.inj_on_of_nodup_map hnodup (mem_of_target? hfound) h (name_of_target? hfound)]

@[simp] theorem names_setEntry (hname : entry.name = name) :
    (config.setEntry name entry).names = config.names :=
  setEntry_names name config.targets hname

theorem target?_setEntry (hmem : name ∈ config.names) (hname : entry.name = name) :
    (config.setEntry name entry).target? other =
      if other = name then some entry else config.target? other :=
  find?_setEntry hname hmem

theorem target?_push (hfresh : entry.name ∉ config.names) :
    (config.push entry).target? other =
      if other = entry.name then some entry else config.target? other := by
  rw [← target?_eq_none_iff] at hfresh
  rw [target?, push, List.find?_append, List.find?_singleton]
  by_cases hother : other = entry.name
  · rw [if_pos hother, hother, show config.targets.find? _ = none from hfresh]
    simp
  · simp [hother, Ne.symm hother, target?]

theorem target?_without :
    (config.without name).target? other = if other = name then none else config.target? other := by
  rw [target?, without, List.find?_filter]
  by_cases hother : other = name
  · rw [if_pos hother, List.find?_eq_none]
    intro entry _
    simp [hother]
  · rw [if_neg hother, target?]
    congr 1
    funext entry
    by_cases hentry : entry.name = other
    · simp [hentry, hother]
    · simp [hentry]

theorem target?_renamed {replacement : String} {candidate : DaemonConfig} (hnodup : config.names.Nodup)
    (hentry : config.target? name = some entry) (hfresh : replacement ∉ config.names)
    (h : config.renamed name replacement = some candidate) :
    candidate.target? other =
      if other = replacement then some { entry with name := replacement }
      else if other = name then none else config.target? other := by
  rw [renamed, hentry, Option.map_some, Option.some.injEq] at h
  rw [← h]
  exact find?_setEntry_renamed hnodup (mem_names_iff.mpr ⟨entry, hentry⟩) hfresh

end DaemonConfig

/-- The configuration and the targets agree. -/
structure Inner.Agrees (inner : Inner) : Prop where
  valid : inner.config.validate = .ok ()
  entries : ∀ name, inner.config.target? name =
    (inner.targets.get? name).map RuntimeTarget.config

/-- A section on a target leaves its entry alone. -/
theorem TargetOp.run_config (op : TargetOp) (target : RuntimeTarget) :
    (op.run target).1.config = target.config := by
  cases op <;> simp only [TargetOp.run, TargetSection.effect]
  all_goals grind [startSection, stopSection, targetLostSection, admitRecoverySection,
    stillExpectedSection, ensureDisabledOffSection, clearObservedSection, markOnlineSection,
    markOfflineSection, clearLaunchingSection, updateObservedSection, updateMediaEndSection,
    clearMediaEndSection]

theorem ConfigChange.mutate_name {change : ConfigChange} {entry persisted : TargetConfig}
    {changed : Value} (h : change.mutate entry = some (persisted, changed)) :
    persisted.name = entry.name := by
  cases change <;> grind [ConfigChange.mutate]

theorem validateAndPersist_eq_ok {toml : Toml} {external : External} {config : DaemonConfig}
    {source : String} (h : validateAndPersist toml external config = .ok source) :
    config.validate = .ok () ∧ toml.toStringPretty config = some source := by
  rw [validateAndPersist] at h
  split at h
  · cases h
  · rename_i hvalid
    refine ⟨hvalid, ?_⟩
    rw [persistConfig] at h
    split at h
    · cases h
    · rename_i printed hprinted
      split at h
      · cases h
      · cases h
        exact hprinted

namespace Inner.Agrees

variable {inner : Inner} {name : String} {toml : Toml}

theorem nodup (h : inner.Agrees) : inner.config.names.Nodup := names_nodup_of_validate h.valid

theorem mem_keys_iff (h : inner.Agrees) : name ∈ inner.targets.keys ↔ name ∈ inner.config.names := by
  rw [OrderedMap.mem_keys_iff, DaemonConfig.mem_names_iff, h.entries]
  cases inner.targets.get? name <;> simp

theorem target?_of_get? (h : inner.Agrees) {target : RuntimeTarget}
    (htarget : inner.targets.get? name = some target) :
    inner.config.target? name = some target.config := by
  rw [h.entries, htarget, Option.map_some]

theorem initial {config : DaemonConfig} (hvalid : config.validate = .ok ()) :
    (Inner.new config).Agrees where
  valid := hvalid
  entries := by
    intro name
    have hnodup := names_nodup_of_validate hvalid
    have hkeys : (config.targets.map fun target =>
        (target.name, RuntimeTarget.initial target)).map Prod.fst = config.names := by
      rw [List.map_map]
      rfl
    cases hentry : config.target? name with
    | none =>
        have hfresh := DaemonConfig.target?_eq_none_iff.mp hentry
        rw [Inner.new, OrderedMap.get?_ofList_of_not_mem (hkeys ▸ hfresh)]
        exact hentry
    | some entry =>
        have hmem : (name, RuntimeTarget.initial entry) ∈ config.targets.map fun target =>
            (target.name, RuntimeTarget.initial target) :=
          List.mem_map.mpr ⟨entry, DaemonConfig.mem_of_target? hentry, by
            rw [DaemonConfig.name_of_target? hentry]⟩
        rw [Inner.new, OrderedMap.get?_ofList_of_mem (hkeys ▸ hnodup) hmem]
        exact hentry

theorem onTarget (h : inner.Agrees) (op : TargetOp) : (inner.onTarget name op).inner.Agrees where
  valid := by
    rw [Inner.onTarget]
    split <;> exact h.valid
  entries := by
    intro other
    have hconfig : (inner.onTarget name op).inner.config = inner.config := by
      rw [Inner.onTarget]
      split <;> rfl
    rw [hconfig, h.entries, Inner.get?_onTarget]
    split_ifs with heq
    · rw [heq, Option.map_map]
      congr 1
      funext target
      exact (TargetOp.run_config op target).symm
    · rfl

/-- Neither `expect` in `persist_target_change` fails, and what it commits agrees again. -/
theorem persistTargetChange (h : inner.Agrees) (external : External) (change : ConfigChange) :
    (persistTargetChange toml external name change inner).1.inner.Agrees ∧
      (∃ result, (MpvTargets.persistTargetChange toml external name change inner).2 =
        .returned result) := by
  rcases persistTargetChange_cases toml external name change inner with
    ⟨result, he⟩ | ⟨entry, persisted, _, source, hentry, hmutate, hsource, hcommit⟩
  · rw [he]
    exact ⟨h, result, rfl⟩
  · have hname : persisted.name = name := by
      rw [ConfigChange.mutate_name hmutate, DaemonConfig.name_of_target? hentry]
    have hmem : name ∈ inner.config.names := DaemonConfig.mem_names_iff.mpr ⟨entry, hentry⟩
    rcases hcommit with ⟨hnone, _⟩ | ⟨target, htarget, he⟩
    · rw [h.entries, hnone] at hentry
      cases hentry
    · rw [he]
      refine ⟨⟨(validateAndPersist_eq_ok hsource).1, fun other => ?_⟩, .ok (), rfl⟩
      rw [DaemonConfig.target?_setEntry hmem hname, OrderedMap.get?_insert, h.entries]
      split_ifs <;> rfl

theorem addCommit (h : inner.Agrees) {target : TargetConfig}
    (hfresh : target.name ∉ inner.targets.keys)
    (hvalid : (inner.config.push target).validate = .ok ()) :
    (addCommit (inner.config.push target) target inner).inner.Agrees where
  valid := hvalid
  entries := by
    intro other
    rw [h.mem_keys_iff] at hfresh
    rw [MpvTargets.addCommit, DaemonConfig.target?_push hfresh, OrderedMap.get?_insert, h.entries]
    split_ifs <;> rfl

theorem removeCommit (h : inner.Agrees) (hvalid : (inner.config.without name).validate = .ok ()) :
    (removeCommit (inner.config.without name) name inner).inner.Agrees where
  valid := hvalid
  entries := by
    intro other
    rw [MpvTargets.removeCommit, DaemonConfig.target?_without, OrderedMap.get?_erase, h.entries]
    split_ifs <;> rfl

theorem renameCommit (h : inner.Agrees) {replacement : String} {candidate : DaemonConfig}
    (hname : name ∈ inner.targets.keys) (hfresh : replacement ∉ inner.targets.keys)
    (hcandidate : inner.config.renamed name replacement = some candidate)
    (hvalid : candidate.validate = .ok ()) :
    (renameCommit candidate name replacement inner).inner.Agrees := by
  obtain ⟨target, htarget⟩ := (OrderedMap.mem_keys_iff _).mp hname
  rw [h.mem_keys_iff] at hfresh
  simp only [MpvTargets.renameCommit, htarget]
  refine ⟨hvalid, fun other => ?_⟩
  rw [DaemonConfig.target?_renamed h.nodup (h.target?_of_get? htarget) hfresh hcandidate,
    OrderedMap.get?_insert, OrderedMap.get?_erase, h.entries]
  split_ifs <;> rfl

end Inner.Agrees

end MpvTargets

import MpvTargets.ConfigAgreement

/-! What `validate` says of a candidate. The configuration it is made from validates, and its names stay
distinct, so the answer is that of the changed entry alone, whatever the other entries are. -/

namespace MpvTargets

/-- The checks of `validate` on one target. -/
def TargetConfig.check (target : TargetConfig) : Except ConfigError Unit :=
  match validateTargetName target.name with
  | .error source => .error (.invalidTargetName target.name source)
  | .ok () => target.channel.elim (.ok ()) validateChannel

/-- A target with a new name is as good as its checks, or as the targets after it. -/
theorem validateTargets_cons {names : List String} {target : TargetConfig} {rest : List TargetConfig}
    (hfresh : target.name ∉ names) :
    validateTargets names (target :: rest) =
      match target.check with
      | .error error => .error error
      | .ok () => validateTargets (target.name :: names) rest := by
  have hcontains : names.contains target.name = false := by simpa using hfresh
  simp only [validateTargets, TargetConfig.check, hcontains, Bool.false_eq_true, if_false]
  cases validateTargetName target.name <;> rfl

theorem check_of_validateTargets {names : List String} {targets : List TargetConfig}
    (h : validateTargets names targets = .ok ()) : ∀ target ∈ targets, target.check = .ok () := by
  induction targets generalizing names with
  | nil => simp
  | cons target rest ih =>
      have hfresh := (validateTargets_nodup h).2 target List.mem_cons_self
      rw [validateTargets_cons hfresh] at h
      split at h
      · cases h
      · rename_i hcheck
        intro other hother
        rcases List.mem_cons.mp hother with rfl | hother
        · exact hcheck
        · exact ih h other hother

theorem validateTargets_of_check {names : List String} {targets : List TargetConfig}
    (hnodup : (targets.map TargetConfig.name).Nodup) (hfresh : ∀ target ∈ targets, target.name ∉ names)
    (hcheck : ∀ target ∈ targets, target.check = .ok ()) : validateTargets names targets = .ok () := by
  induction targets generalizing names with
  | nil => rfl
  | cons target rest ih =>
      obtain ⟨htarget, hrest⟩ := List.nodup_cons.mp hnodup
      rw [validateTargets_cons (hfresh target List.mem_cons_self), hcheck target List.mem_cons_self]
      refine ih hrest (fun other hother hmem => ?_) fun other hother =>
        hcheck other (List.mem_cons_of_mem _ hother)
      rcases List.mem_cons.mp hmem with hname | hmem
      · exact htarget (List.mem_map.mpr ⟨other, hother, hname⟩)
      · exact hfresh other (List.mem_cons_of_mem _ hother) hmem

/-- One entry among valid ones decides. -/
theorem validateTargets_eq_check {names : List String} {targets : List TargetConfig} {entry : TargetConfig}
    (hnodup : (targets.map TargetConfig.name).Nodup) (hfresh : ∀ target ∈ targets, target.name ∉ names)
    (hentry : entry ∈ targets) (hothers : ∀ target ∈ targets, target ≠ entry → target.check = .ok ()) :
    validateTargets names targets = entry.check := by
  induction targets generalizing names with
  | nil => exact absurd hentry List.not_mem_nil
  | cons target rest ih =>
      obtain ⟨htarget, hrest⟩ := List.nodup_cons.mp hnodup
      have hfresh' : ∀ other ∈ rest, other.name ∉ target.name :: names := by
        intro other hother hmem
        rcases List.mem_cons.mp hmem with hname | hmem
        · exact htarget (List.mem_map.mpr ⟨other, hother, hname⟩)
        · exact hfresh other (List.mem_cons_of_mem _ hother) hmem
      rw [validateTargets_cons (hfresh target List.mem_cons_self)]
      by_cases heq : target = entry
      · subst heq
        have hvalid : validateTargets (target.name :: names) rest = .ok () := by
          refine validateTargets_of_check hrest hfresh' fun other hother => ?_
          refine hothers other (List.mem_cons_of_mem _ hother) ?_
          rintro rfl
          exact htarget (List.mem_map.mpr ⟨other, hother, rfl⟩)
        rw [hvalid]
        cases target.check <;> rfl
      · have hmem : entry ∈ rest := (List.mem_cons.mp hentry).resolve_left (Ne.symm heq)
        rw [hothers target List.mem_cons_self heq]
        exact ih hrest hfresh' hmem fun other hother => hothers other (List.mem_cons_of_mem _ hother)

namespace DaemonConfig

variable {config : DaemonConfig} {name : String} {entry : TargetConfig}

/-- Only the targets of a candidate are new. -/
theorem validate_edited (h : config.validate = .ok ()) (targets : List TargetConfig) :
    ({ config with targets := targets } : DaemonConfig).validate = validateTargets [] targets := by
  simp only [validate, bind, Except.bind, throw, throwThe, MonadExceptOf.throw] at h ⊢
  split_ifs at h ⊢ with hid hlisten
  split at h
  · cases h
  · split at h
    · cases h
    · simp_all

theorem check_of_validate (h : config.validate = .ok ()) : ∀ target ∈ config.targets,
    target.check = .ok () :=
  check_of_validateTargets (validateTargets_of_validate h)

theorem validate_push (h : config.validate = .ok ()) (hfresh : entry.name ∉ config.names) :
    (config.push entry).validate = entry.check := by
  rw [push, validate_edited h]
  refine validateTargets_eq_check ?_ (fun _ _ => List.not_mem_nil) (by simp) fun target htarget hne => ?_
  · rw [List.map_append, List.map_singleton]
    exact List.nodup_append.mpr ⟨names_nodup_of_validate h, List.nodup_singleton _,
      fun left hleft right hright => by
        rw [List.mem_singleton.mp hright]
        rintro rfl
        exact hfresh hleft⟩
  · rcases List.mem_append.mp htarget with htarget | htarget
    · exact check_of_validate h target htarget
    · exact absurd (List.mem_singleton.mp htarget) hne

theorem validate_without (h : config.validate = .ok ()) : (config.without name).validate = .ok () := by
  rw [without, validate_edited h]
  refine validateTargets_of_check ?_ (fun _ _ => List.not_mem_nil) fun target htarget => ?_
  · exact (names_nodup_of_validate h).sublist (List.filter_sublist.map _)
  · exact check_of_validate h target (List.mem_of_mem_filter htarget)

theorem mem_setEntry {targets : List TargetConfig} {target : TargetConfig}
    (h : target ∈ MpvTargets.setEntry name entry targets) : target = entry ∨ target ∈ targets := by
  induction targets with
  | nil => exact absurd h List.not_mem_nil
  | cons first rest ih =>
      rw [MpvTargets.setEntry] at h
      split_ifs at h
      · rcases List.mem_cons.mp h with rfl | hrest
        · exact Or.inl rfl
        · exact Or.inr (List.mem_cons_of_mem _ hrest)
      · rcases List.mem_cons.mp h with rfl | hrest
        · exact Or.inr List.mem_cons_self
        · exact (ih hrest).imp_right (List.mem_cons_of_mem _)

theorem mem_setEntry_self {targets : List TargetConfig} (h : name ∈ targets.map TargetConfig.name) :
    entry ∈ MpvTargets.setEntry name entry targets := by
  induction targets with
  | nil => exact absurd h List.not_mem_nil
  | cons first rest ih =>
      rw [MpvTargets.setEntry]
      split_ifs with hfirst
      · exact List.mem_cons_self
      · refine List.mem_cons_of_mem _ (ih ?_)
        exact (List.mem_cons.mp h).resolve_left (Ne.symm hfirst)

theorem setEntry_nodup {targets : List TargetConfig} (h : (targets.map TargetConfig.name).Nodup)
    (hfresh : entry.name ∉ targets.map TargetConfig.name) :
    ((MpvTargets.setEntry name entry targets).map TargetConfig.name).Nodup := by
  induction targets with
  | nil => exact List.nodup_nil
  | cons first rest ih =>
      obtain ⟨hfirst, hrest⟩ := List.nodup_cons.mp h
      rw [List.map_cons, List.mem_cons, not_or] at hfresh
      rw [MpvTargets.setEntry]
      split_ifs
      · exact List.nodup_cons.mpr ⟨hfresh.2, hrest⟩
      · refine List.nodup_cons.mpr ⟨fun hmem => ?_, ih hrest hfresh.2⟩
        obtain ⟨target, htarget, hname⟩ := List.mem_map.mp hmem
        rcases mem_setEntry htarget with rfl | htarget
        · exact hfresh.1 hname
        · exact hfirst (List.mem_map.mpr ⟨target, htarget, hname⟩)

theorem validate_setEntry (h : config.validate = .ok ()) (hmem : name ∈ config.names)
    (hname : entry.name = name) : (config.setEntry name entry).validate = entry.check := by
  rw [setEntry, validate_edited h]
  refine validateTargets_eq_check ?_ (fun _ _ => List.not_mem_nil) (mem_setEntry_self hmem)
    fun target htarget hne => check_of_validate h target ((mem_setEntry htarget).resolve_left hne)
  rw [setEntry_names name config.targets hname]
  exact names_nodup_of_validate h

theorem validate_renamed (h : config.validate = .ok ()) {replacement : String} {candidate : DaemonConfig}
    (hentry : config.target? name = some entry) (hfresh : replacement ∉ config.names)
    (hcandidate : config.renamed name replacement = some candidate) :
    candidate.validate = TargetConfig.check { entry with name := replacement } := by
  rw [renamed, hentry, Option.map_some, Option.some.injEq] at hcandidate
  rw [← hcandidate, setEntry, validate_edited h]
  refine validateTargets_eq_check (setEntry_nodup (names_nodup_of_validate h) hfresh)
    (fun _ _ => List.not_mem_nil) (mem_setEntry_self (mem_names_iff.mpr ⟨entry, hentry⟩))
    fun target htarget hne => check_of_validate h target ((mem_setEntry htarget).resolve_left hne)

end DaemonConfig

end MpvTargets

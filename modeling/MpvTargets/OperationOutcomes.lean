import MpvTargets.SequentialRuns

/-! What each operation comes to when no other task moves: the record it leaves of its target and the
result it hands to its caller, whoever calls it. -/

namespace MpvTargets

/-- The shared state with this record of a target. -/
def Inner.put (inner : Inner) (name : String) (target : RuntimeTarget) : Inner :=
  { inner with targets := inner.targets.insert name target }

namespace Inner

variable (inner : Inner) (name : String) (target after : RuntimeTarget)

@[simp] theorem config_put : (inner.put name target).config = inner.config := rfl

@[simp] theorem get?_put_self : (inner.put name target).targets.get? name = some target :=
  OrderedMap.get?_insert_self _ _ _

theorem get?_put (other : String) : (inner.put name target).targets.get? other =
    if other = name then some target else inner.targets.get? other :=
  OrderedMap.get?_insert _ _ _ _

@[simp] theorem put_put : (inner.put name target).put name after = inner.put name after := by
  have htargets : (inner.targets.insert name target).insert name after =
      inner.targets.insert name after := by
    apply OrderedMap.ext_get?
    intro other
    rw [OrderedMap.get?_insert, OrderedMap.get?_insert, OrderedMap.get?_insert]
    split_ifs <;> rfl
  simp only [put, htargets]

theorem put_eq_self {inner : Inner} {name : String} {target : RuntimeTarget}
    (h : inner.targets.get? name = some target) : inner.put name target = inner := by
  have htargets : inner.targets.insert name target = inner.targets := by
    apply OrderedMap.ext_get?
    intro other
    rw [OrderedMap.get?_insert]
    split_ifs with hother
    · rw [hother, h]
    · rfl
  simp only [put, htargets]

@[simp] theorem after_onTarget_put (toml : Toml) (op : TargetOp) :
    (inner.put name target).after toml (some (.onTarget name op)) = inner.put name (op.run target).1 := by
  rw [Inner.after, CriticalSection.run, Inner.onTarget, get?_put_self]
  exact put_put inner name target (op.run target).1

end Inner

/-- How an operation leaves its target; a launch that has come to its end stays so. -/
structure RuntimeTarget.Becomes (target : RuntimeTarget) (stopped online : Bool)
    (after : RuntimeTarget) : Prop where
  config : after.config = target.config
  stopped : after.stopped = stopped
  online : after.online = online
  launching : target.launching = false → after.launching = false

/-- The task when its current operation has returned. -/
def Task.returned (origin : Origin) (callers : List Caller) (result : Outcome) : Task :=
  ⟨origin, (resume result callers).pc, (resume result callers).callers⟩

namespace Task.Settles

section

variable {toml : Toml} {answers : Answers} {C : Inner → Prop} {Q : Inner → Task → Prop} {inner : Inner}
  {name : String} {target : RuntimeTarget} {origin : Origin} {callers : List Caller}

/-- A state is the one with the record it has. -/
theorem of_put {task : Task} (h : Task.Settles toml answers C Q (inner.put name target) task)
    (htarget : inner.targets.get? name = some target) : Task.Settles toml answers C Q inner task := by
  rwa [Inner.put_eq_self htarget] at h

theorem targetRecord (h : ∀ reply, Task.Settles toml answers C Q (inner.put name target)
      (.returned origin callers (.ok reply))) :
    Task.Settles toml answers C Q (inner.put name target) ⟨origin, .targetRecord name, callers⟩ := by
  refine step rfl (fun hcommits => by cases hcommits) fun view external turn hview _ hturn => ?_
  simp only [Task.turn, Task.record, Task.read, hview, Inner.get?_put_self] at hturn
  cases hturn
  exact h _

/-- `clear_observed` leaves everything but the observed fields. -/
theorem clearObserved {clearing : Clearing}
    (h : ∀ (cleared : RuntimeTarget) (pc : Pc) (effect : Effect), cleared.config = target.config →
      cleared.stopped = target.stopped → cleared.online = target.online →
      cleared.launching = target.launching →
      Task.Settles toml answers C Q (inner.put name cleared)
        ⟨origin, (Task.afterClear ⟨origin, pc, callers⟩ effect name clearing).pc,
          (Task.afterClear ⟨origin, pc, callers⟩ effect name clearing).callers⟩) :
    Task.Settles toml answers C Q (inner.put name target)
      ⟨origin, .clearObserved name clearing, callers⟩ := by
  have hcleared := fun pc effect => h (TargetOp.clearObserved.run target).1 pc effect
    (TargetOp.run_config _ _) (TargetOp.run_stopped _ _) (TargetOp.run_online _ _)
    (TargetOp.run_launching _ _)
  refine step rfl (fun hcommits => by cases hcommits) fun view external turn hview _ hturn => ?_
  simp only [Pc.critical, Inner.after_onTarget_put]
  simp only [Task.turn, hview] at hturn
  split at hturn
  · cases hturn
    refine step rfl (fun hcommits => by cases hcommits) fun view external turn hview _ hturn => ?_
    cases hturn
    exact hcleared _ _
  · cases hturn
    exact hcleared _ _

/-- The end of `stop`, once mpv is gone. -/
theorem stopCleared (h : ∀ off reply, target.Becomes target.stopped false off →
      Task.Settles toml answers C Q (inner.put name off) (.returned origin callers (.ok reply))) :
    Task.Settles toml answers C Q (inner.put name target) ⟨origin, .clearObserved name .stop, callers⟩ := by
  refine clearObserved fun cleared _ _ hconfig hstopped honline hlaunching => ?_
  refine step rfl (fun hcommits => by cases hcommits) fun view external turn hview _ hturn => ?_
  cases hturn
  simp only [Task.afterClear, Task.goto, Pc.critical, Inner.after_onTarget_put]
  refine targetRecord fun reply => h _ reply ⟨?_, ?_, ?_, fun hlanded => ?_⟩
  · rw [TargetOp.run_config, hconfig]
  · rw [TargetOp.run_stopped, hstopped]
  · rw [TargetOp.run_online]
  · simp only [TargetOp.run_launching, hlaunching, hlanded, Bool.false_and]

/-- `stop` marks the target as stopped first; it is offline when `stop` succeeds. -/
theorem stop
    (hrefused : target.stopped = true → ∀ error, Task.Settles toml answers C Q (inner.put name target)
      (.returned origin callers (.error error)))
    (hfailed : target.stopped = false → target.online = true → ∀ halted error,
      answers (.stopQuit name) (.failed error) = true ∨ answers (.stopGone name) (.failed error) = true →
      target.Becomes true true halted →
      Task.Settles toml answers C Q (inner.put name halted) (.returned origin callers (.error error)))
    (hdone : target.stopped = false → ∀ off reply, target.Becomes true false off →
      Task.Settles toml answers C Q (inner.put name off) (.returned origin callers (.ok reply))) :
    Task.Settles toml answers C Q (inner.put name target) ⟨origin, .stop name, callers⟩ := by
  refine step rfl (fun hcommits => by cases hcommits) fun view external turn hview _ hturn => ?_
  simp only [Pc.critical, Inner.after_onTarget_put]
  simp only [Task.turn, hview, Inner.get?_put_self, Option.map_some, stopSection] at hturn
  cases hstopped : target.stopped with
  | true =>
      have hkept : (TargetOp.stop.run target).1 = target := by
        simp [TargetOp.run, TargetSection.effect, stopSection, hstopped]
      simp only [hstopped, if_true] at hturn
      cases hturn
      rw [hkept]
      exact hrefused hstopped _
  | false =>
      simp only [hstopped, Bool.false_eq_true, if_false] at hturn
      have hhalted : target.Becomes true target.online (TargetOp.stop.run target).1 :=
        ⟨TargetOp.run_config _ _, TargetOp.run_stopped _ _, TargetOp.run_online _ _, fun hlanded =>
          (TargetOp.run_launching _ _).trans hlanded⟩
      have hcleared : Task.Settles toml answers C Q (inner.put name (TargetOp.stop.run target).1)
          ⟨origin, .clearObserved name .stop, callers⟩ := by
        refine stopCleared fun off reply hoff => hdone hstopped off reply ?_
        exact ⟨hoff.config.trans hhalted.config, hoff.stopped.trans hhalted.stopped, hoff.online,
          fun hlanded => hoff.launching (hhalted.launching hlanded)⟩
      cases honline : target.online with
      | false =>
          rw [honline] at hturn
          cases hturn
          exact hcleared
      | true =>
          rw [honline] at hturn hhalted
          cases hturn
          refine step rfl (fun hcommits => by cases hcommits) fun view external turn _ hanswer hturn => ?_
          rcases Task.await_eq_some hturn with ⟨_, rfl⟩ | ⟨error, rfl, rfl⟩
          · refine step rfl (fun hcommits => by cases hcommits) fun view external turn _ hanswer hturn => ?_
            rcases Task.await_eq_some hturn with ⟨_, rfl⟩ | ⟨error, rfl, rfl⟩
            · exact hcleared
            · exact hfailed hstopped honline _ error (Or.inr hanswer) hhalted
          · exact hfailed hstopped honline _ error (Or.inl hanswer) hhalted

/-- A launch ends in `mark_online`. -/
theorem launchOnline (hoffline : target.online = false)
    (h : ∀ up reply, target.Becomes target.stopped true up → up.launching = false →
      Task.Settles toml answers C Q (inner.put name up) (.returned origin callers (.ok reply))) :
    Task.Settles toml answers C Q (inner.put name target) ⟨origin, .launchOnline name, callers⟩ := by
  refine step rfl (fun hcommits => by cases hcommits) fun view external turn hview _ hturn => ?_
  cases hturn
  simp only [Task.goto, Pc.critical, Inner.after_onTarget_put]
  have hlanded : (TargetOp.markOnline.run target).1.launching = false := by
    simp only [TargetOp.run_launching, hoffline, Bool.and_false]
  refine targetRecord fun reply => h _ reply ⟨?_, ?_, ?_, fun _ => hlanded⟩ hlanded
  · rw [TargetOp.run_config]
  · rw [TargetOp.run_stopped]
  · rw [TargetOp.run_online]

/-- A launch that fails ends in `clear_launching`. -/
theorem launchFailed {error : SupervisorError}
    (h : ∀ down, target.Becomes target.stopped target.online down → down.launching = false →
      Task.Settles toml answers C Q (inner.put name down) (.returned origin callers (.error error))) :
    Task.Settles toml answers C Q (inner.put name target) ⟨origin, .launchFailed name error, callers⟩ := by
  refine step rfl (fun hcommits => by cases hcommits) fun view external turn hview _ hturn => ?_
  cases hturn
  simp only [Task.ret, Pc.critical, Inner.after_onTarget_put]
  have hlanded : (TargetOp.clearLaunching.run target).1.launching = false := TargetOp.run_launching _ _
  refine h _ ⟨?_, ?_, ?_, fun _ => hlanded⟩ hlanded
  · rw [TargetOp.run_config]
  · rw [TargetOp.run_stopped]
  · rw [TargetOp.run_online]

theorem launch (hoffline : target.online = false)
    (hfailed : ∀ down error, target.Becomes target.stopped false down → down.launching = false →
      Task.Settles toml answers C Q (inner.put name down) (.returned origin callers (.error error)))
    (hdone : ∀ up reply, target.Becomes target.stopped true up → up.launching = false →
      Task.Settles toml answers C Q (inner.put name up) (.returned origin callers (.ok reply))) :
    Task.Settles toml answers C Q (inner.put name target) ⟨origin, .launchConfig name, callers⟩ := by
  have hup := launchOnline hoffline hdone
  have hdown : ∀ error, Task.Settles toml answers C Q (inner.put name target)
      ⟨origin, .launchFailed name error, callers⟩ :=
    fun error => launchFailed fun down hdown => hfailed down error (hoffline ▸ hdown)
  refine step rfl (fun hcommits => by cases hcommits) fun view external turn hview _ hturn => ?_
  simp only [Task.turn, hview, Inner.get?_put_self] at hturn
  cases hturn
  refine step rfl (fun hcommits => by cases hcommits) fun view external turn _ _ hturn => ?_
  rcases External.probe_eq_some hturn with rfl | rfl
  · exact hup
  · refine step rfl (fun hcommits => by cases hcommits) fun view external turn _ _ hturn => ?_
    cases external with
    | ok =>
        cases hturn
        exact hup
    | failed error =>
        cases hturn
        exact hdown error
    | line message => cases hturn

/-- `start` of a target with no launch under way. -/
theorem start (hlanded : target.launching = false)
    (hrefused : target.config.disabled = true → ∀ error, Task.Settles toml answers C Q
      (inner.put name target) (.returned origin callers (.error error)))
    (hfailed : target.config.disabled = false → target.online = false → ∀ down error,
      target.Becomes false false down →
      Task.Settles toml answers C Q (inner.put name down) (.returned origin callers (.error error)))
    (hdone : target.config.disabled = false → ∀ up reply, target.Becomes false true up →
      Task.Settles toml answers C Q (inner.put name up) (.returned origin callers (.ok reply))) :
    Task.Settles toml answers C Q (inner.put name target) ⟨origin, .start name, callers⟩ := by
  refine step rfl (fun hcommits => by cases hcommits) fun view external turn hview _ hturn => ?_
  simp only [Pc.critical, Inner.after_onTarget_put]
  simp only [Task.turn, hview, Inner.get?_put_self, Option.map_some] at hturn
  cases hdisabled : target.config.disabled with
  | true =>
      have hkept : startSection target = ⟨target, none, .error .targetDisabled⟩ := by
        simp only [startSection, hdisabled, if_true]
      rw [hkept] at hturn
      cases hturn
      rw [TargetOp.run, hkept]
      exact hrefused hdisabled _
  | false =>
      have hstarted : (TargetOp.start.run target).1.stopped = false := by
        simp only [TargetOp.run_stopped, hdisabled, Bool.and_false]
      have honline : (TargetOp.start.run target).1.online = target.online := TargetOp.run_online _ _
      have hconfig := TargetOp.run_config .start target
      rw [startSection_value hdisabled, hlanded, Bool.not_false, Bool.and_true] at hturn
      cases hrunning : target.online with
      | true =>
          rw [hrunning] at hturn
          cases hturn
          refine targetRecord fun reply => hdone hdisabled _ reply
            ⟨hconfig, hstarted, honline.trans hrunning, fun _ => ?_⟩
          simp only [TargetOp.run_launching, hlanded, hrunning, Bool.not_true, Bool.and_false, Bool.or_false]
      | false =>
          rw [hrunning] at hturn
          cases hturn
          refine launch (honline.trans hrunning) (fun down error hdown hended => ?_)
            fun up reply hup hended => ?_
          · exact hfailed hdisabled hrunning down error
              ⟨hdown.config.trans hconfig, hdown.stopped.trans hstarted, hdown.online, fun _ => hended⟩
          · exact hdone hdisabled up reply
              ⟨hup.config.trans hconfig, hup.stopped.trans hstarted, hup.online, fun _ => hended⟩

theorem ensureDisabledOff
    (hfailed : ∀ error,
      answers (.ensureQuit name) (.failed error) = true ∨ answers (.ensureGone name) (.failed error) = true →
      Task.Settles toml answers C Q (inner.put name target) (.returned origin callers (.error error)))
    (hdone : ∀ off, target.Becomes true false off →
      Task.Settles toml answers C Q (inner.put name off) (.returned origin callers (.ok .done))) :
    Task.Settles toml answers C Q (inner.put name target) ⟨origin, .ensureProbe name, callers⟩ := by
  have hcleared : Task.Settles toml answers C Q (inner.put name target)
      ⟨origin, .clearObserved name .ensureDisabledOff, callers⟩ := by
    refine clearObserved fun cleared _ _ hconfig _ _ _ => ?_
    refine step rfl (fun hcommits => by cases hcommits) fun view external turn hview _ hturn => ?_
    simp only [Task.afterClear, Task.goto, Task.turn, hview, Inner.get?_put_self] at hturn
    cases hturn
    simp only [Task.afterClear, Task.goto, Task.ret, Pc.critical, Inner.after_onTarget_put]
    refine hdone _ ⟨?_, ?_, ?_, fun _ => ?_⟩
    · rw [TargetOp.run_config, hconfig]
    · rw [TargetOp.run_stopped]
    · rw [TargetOp.run_online]
    · rw [TargetOp.run_launching]
  refine step rfl (fun hcommits => by cases hcommits) fun view external turn _ _ hturn => ?_
  rcases External.probe_eq_some hturn with rfl | rfl
  · refine step rfl (fun hcommits => by cases hcommits) fun view external turn _ hanswer hturn => ?_
    rcases Task.await_eq_some hturn with ⟨_, rfl⟩ | ⟨error, rfl, rfl⟩
    · refine step rfl (fun hcommits => by cases hcommits) fun view external turn _ hanswer hturn => ?_
      rcases Task.await_eq_some hturn with ⟨_, rfl⟩ | ⟨error, rfl, rfl⟩
      · exact hcleared
      · exact hfailed error (Or.inr hanswer)
    · exact hfailed error (Or.inl hanswer)
  · exact hcleared

/-- The write may fail; otherwise the entry is as wanted, already or from now on. -/
theorem persistLock {change : ConfigChange} (hentry : inner.config.target? name = some target.config)
    (hC : change = .disable → C (inner.put name target))
    (hfailed : ∀ error,
      Task.Settles toml answers C Q (inner.put name target) (.returned origin callers (.error error)))
    (hkept : change.mutate target.config = none → ∀ reply,
      Task.Settles toml answers C Q (inner.put name target) (.returned origin callers (.ok reply)))
    (hchanged : ∀ candidate persisted changed after reply,
      change.mutate target.config = some (persisted, changed) → after.config = persisted →
      after.stopped = target.stopped → after.online = target.online → after.launching = target.launching →
      Task.Settles toml answers C Q (Inner.put { inner with config := candidate } name after)
        (.returned origin callers (.ok reply))) :
    Task.Settles toml answers C Q (inner.put name target) ⟨origin, .persistLock name change, callers⟩ := by
  refine step rfl (fun hcommits => by cases hcommits) fun view external turn _ _ hturn => ?_
  obtain ⟨_, rfl⟩ := Task.acquire_eq_some hturn
  change Task.Settles toml answers C Q (inner.put name target) ⟨origin, .persist name change, callers⟩
  refine step rfl (fun hcommits => hC (of_decide_eq_true hcommits)) fun view external turn hview _ hturn => ?_
  simp only [Pc.critical, Inner.after, CriticalSection.run]
  simp only [Task.turn, hview] at hturn
  cases hmutate : change.mutate target.config with
  | none =>
      simp only [persistTargetChange, Inner.config_put, hentry, hmutate] at hturn ⊢
      cases hturn
      exact targetRecord (hkept hmutate)
  | some result =>
      obtain ⟨persisted, changed⟩ := result
      cases hsource : validateAndPersist toml external (inner.config.setEntry name persisted) with
      | error error =>
          simp only [persistTargetChange, Inner.config_put, hentry, hmutate, hsource] at hturn ⊢
          cases hturn
          exact hfailed error
      | ok source =>
          simp only [persistTargetChange, Inner.config_put, hentry, hmutate, hsource,
            Inner.get?_put_self] at hturn ⊢
          cases hturn
          have hput : (⟨inner.config.setEntry name persisted, (inner.put name target).targets.insert name
              { target with config := persisted, revision := target.revision + 1 }⟩ : Inner) =
              Inner.put { inner with config := inner.config.setEntry name persisted } name
                { target with config := persisted, revision := target.revision + 1 } :=
            Inner.put_put { inner with config := inner.config.setEntry name persisted } name target _
          rw [hput]
          exact targetRecord fun reply => hchanged _ _ _ _ reply hmutate rfl rfl rfl rfl

/-- A target that is not stopped is stopped before the operation goes on. -/
theorem stopFirst {pc : Pc} (next : Pc) (caller : Caller) (hrests : pc.rests = false)
    (hcommits : pc.commits = false)
    (hcritical : ∀ external, pc.critical external = none)
    (hturn : ∀ view external, view.inner = inner.put name target →
      Task.turn toml view ⟨origin, pc, callers⟩ external =
        some (if target.stopped then Task.goto ⟨origin, pc, callers⟩ .none next
          else Task.call ⟨origin, pc, callers⟩ (.stop name) caller))
    (hok : ∀ reply, resume (.ok reply) (caller :: callers) = ⟨next, callers, []⟩)
    (herror : ∀ error, resume (.error error) (caller :: callers) = resume (.error error) callers)
    (hfailed : target.stopped = false → target.online = true → ∀ halted error,
      answers (.stopQuit name) (.failed error) = true ∨ answers (.stopGone name) (.failed error) = true →
      target.Becomes true true halted →
      Task.Settles toml answers C Q (inner.put name halted) (.returned origin callers (.error error)))
    (hstopped : target.stopped = true →
      Task.Settles toml answers C Q (inner.put name target) ⟨origin, next, callers⟩)
    (hoff : target.stopped = false → ∀ off, target.Becomes true false off →
      Task.Settles toml answers C Q (inner.put name off) ⟨origin, next, callers⟩) :
    Task.Settles toml answers C Q (inner.put name target) ⟨origin, pc, callers⟩ := by
  refine step hrests (fun h => ?_) fun view external turn hview _ hturn' => ?_
  · rw [hcommits] at h
    cases h
  rw [hturn view external hview] at hturn'
  simp only [hcritical, Inner.after]
  cases hwas : target.stopped with
  | true =>
      rw [hwas] at hturn'
      cases hturn'
      exact hstopped hwas
  | false =>
      rw [hwas] at hturn'
      cases hturn'
      change Task.Settles toml answers C Q (inner.put name target) ⟨origin, .stop name, caller :: callers⟩
      refine stop (fun h => by rw [hwas] at h; cases h) (fun _ honline halted error hanswer hhalted => ?_)
        fun _ off reply hbecomes => ?_
      · rw [Task.returned, herror]
        exact hfailed hwas honline halted error hanswer hhalted
      · rw [Task.returned, hok]
        exact hoff hwas off hbecomes

theorem restart (hlanded : target.launching = false)
    (hunquit : ∀ error,
      answers (.ensureQuit name) (.failed error) = true ∨ answers (.ensureGone name) (.failed error) = true →
      Task.Settles toml answers C Q (inner.put name target) (.returned origin callers (.error error)))
    (hkept : target.config.disabled = true → ∀ off reply, target.Becomes true false off →
      Task.Settles toml answers C Q (inner.put name off) (.returned origin callers (.ok reply)))
    (hhalted : target.config.disabled = false → target.online = true → ∀ halted error,
      answers (.stopQuit name) (.failed error) = true ∨ answers (.stopGone name) (.failed error) = true →
      target.Becomes true true halted →
      Task.Settles toml answers C Q (inner.put name halted) (.returned origin callers (.error error)))
    (hfailed : target.config.disabled = false → ∀ down error, target.Becomes false false down →
      Task.Settles toml answers C Q (inner.put name down) (.returned origin callers (.error error)))
    (hdone : target.config.disabled = false → ∀ up reply, target.Becomes false true up →
      Task.Settles toml answers C Q (inner.put name up) (.returned origin callers (.ok reply))) :
    Task.Settles toml answers C Q (inner.put name target) ⟨origin, .restart name, callers⟩ := by
  refine step rfl (fun hcommits => by cases hcommits) fun view external turn hview _ hturn => ?_
  simp only [Task.turn, Task.read, hview, Inner.get?_put_self] at hturn
  cases hdisabled : target.config.disabled with
  | true =>
      rw [hdisabled] at hturn
      cases hturn
      refine ensureDisabledOff (fun error hanswer => hunquit error hanswer) fun off hoff => ?_
      exact targetRecord fun reply => hkept hdisabled off reply hoff
  | false =>
      rw [hdisabled] at hturn
      cases hturn
      have hstart : ∀ off, target.config = off.config → off.launching = false →
          Task.Settles toml answers C Q (inner.put name off) ⟨origin, .start name, callers⟩ := by
        intro off hconfig hended
        have henabled : off.config.disabled = false := hconfig ▸ hdisabled
        refine start hended (fun h => by rw [henabled] at h; cases h) (fun _ _ down error hdown => ?_)
          fun _ up reply hup => ?_
        · exact hfailed hdisabled down error ⟨hdown.config.trans hconfig.symm, hdown.stopped, hdown.online,
            fun _ => hdown.launching hended⟩
        · exact hdone hdisabled up reply ⟨hup.config.trans hconfig.symm, hup.stopped, hup.online,
            fun _ => hup.launching hended⟩
      change Task.Settles toml answers C Q (inner.put name target) ⟨origin, .restartStopped name, callers⟩
      refine stopFirst (.start name) (.restartStop name) rfl rfl (fun _ => rfl)
        (fun view _ hview => ?_) (fun _ => rfl) (fun _ => rfl)
        (fun _ honline halted error hanswer hbecomes =>
          hhalted hdisabled honline halted error hanswer hbecomes)
        (fun _ => hstart target rfl hlanded)
        (fun _ off hoff => hstart off hoff.config.symm (hoff.launching hlanded))
      simp only [Task.turn, Task.read, hview, Inner.get?_put_self]

/-- `disable` writes the configuration once the target is stopped. -/
theorem disable
    (hhalted : target.stopped = false → target.online = true → ∀ halted error,
      answers (.stopQuit name) (.failed error) = true ∨ answers (.stopGone name) (.failed error) = true →
      target.Becomes true true halted →
      Task.Settles toml answers C Q (inner.put name halted) (.returned origin callers (.error error)))
    (hstopped : target.stopped = true → Task.Settles toml answers C Q (inner.put name target)
      ⟨origin, .persistLock name .disable, callers⟩)
    (hoff : target.stopped = false → ∀ off, target.Becomes true false off →
      Task.Settles toml answers C Q (inner.put name off) ⟨origin, .persistLock name .disable, callers⟩) :
    Task.Settles toml answers C Q (inner.put name target) ⟨origin, .disable name, callers⟩ := by
  refine stopFirst (.persistLock name .disable) (.disableStop name) rfl rfl
    (fun _ => rfl) (fun view _ hview => ?_) (fun _ => rfl) (fun _ => rfl) hhalted hstopped hoff
  simp only [Task.turn, Task.read, hview, Inner.get?_put_self]

theorem addLock {source : Option String} {enable : Bool}
    (hfailed : ∀ error, Task.Settles toml answers C Q inner (.returned origin callers (.error error)))
    (hadded : inner.targets.get? name = none → ∀ candidate entry reply, entry.disabled = !enable →
      Task.Settles toml answers C Q
        (Inner.put { inner with config := candidate } name { RuntimeTarget.initial entry with stopped := true })
        (.returned origin callers (.ok reply))) :
    Task.Settles toml answers C Q inner ⟨origin, .addLock name source enable, callers⟩ := by
  refine step rfl (fun hcommits => by cases hcommits) fun view external turn _ _ hturn => ?_
  obtain ⟨_, rfl⟩ := Task.acquire_eq_some hturn
  change Task.Settles toml answers C Q inner ⟨origin, .addCheck name source enable, callers⟩
  refine step rfl (fun hcommits => by cases hcommits) fun view external turn hview _ hturn => ?_
  simp only [Task.turn, hview] at hturn
  cases hchecked : addChecked inner name source enable with
  | error error =>
      rw [hchecked] at hturn
      cases hturn
      exact hfailed error
  | ok entry =>
      rw [hchecked] at hturn
      cases hturn
      have hfresh := (OrderedMap.get?_eq_none_iff _).mpr (addChecked_fresh hchecked)
      obtain rfl := addChecked_name hchecked
      have hdisabled := addChecked_disabled hchecked
      refine step rfl (fun hcommits => by cases hcommits) fun view external turn _ _ hturn => ?_
      rcases Task.await_eq_some hturn with ⟨_, rfl⟩ | ⟨error, _, rfl⟩
      · refine step rfl (fun hcommits => by cases hcommits) fun view external turn _ _ hturn => ?_
        cases hturn
        refine step rfl (fun hcommits => by cases hcommits) fun view external turn _ _ hturn => ?_
        simp only [Task.turn, Task.goto] at hturn
        split at hturn
        · cases hturn
          exact hfailed _
        · cases hturn
          refine step rfl (fun hcommits => by cases hcommits) fun view external turn _ _ hturn => ?_
          cases hturn
          change Task.Settles toml answers C Q
            (Inner.put { inner with config := _ } entry.name { RuntimeTarget.initial entry with stopped := true })
            ⟨origin, .addRecord entry.name, callers⟩
          refine step rfl (fun hcommits => by cases hcommits) fun view external turn hview _ hturn => ?_
          simp only [Task.turn, Task.record, Task.read, hview, Inner.get?_put_self] at hturn
          cases hturn
          exact hadded hfresh _ _ _ hdisabled
      · exact hfailed error

end

end Task.Settles

end MpvTargets

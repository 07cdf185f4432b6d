import MpvTargets.ConfigAgreement

/-! What the sections on a target do to its flags. Each flag after a section is given by the flags
before it, once and for all sections. -/

namespace MpvTargets

namespace TargetOp

variable (op : TargetOp) (target : RuntimeTarget)

theorem run_stopped : (op.run target).1.stopped =
    match op with
    | start => target.stopped && target.config.disabled
    | stop | ensureDisabledOff => true
    | _ => target.stopped := by
  cases op <;> simp only [run, TargetSection.effect]
  all_goals grind [startSection, stopSection, targetLostSection, admitRecoverySection,
    stillExpectedSection, ensureDisabledOffSection, clearObservedSection, markOnlineSection,
    markOfflineSection, clearLaunchingSection, updateObservedSection, updateMediaEndSection,
    clearMediaEndSection]

theorem run_online : (op.run target).1.online =
    match op with
    | markOnline => true
    | targetLost | markOffline | ensureDisabledOff => false
    | _ => target.online := by
  cases op <;> simp only [run, TargetSection.effect]
  all_goals grind [startSection, stopSection, targetLostSection, admitRecoverySection,
    stillExpectedSection, ensureDisabledOffSection, clearObservedSection, markOnlineSection,
    markOfflineSection, clearLaunchingSection, updateObservedSection, updateMediaEndSection,
    clearMediaEndSection]

theorem run_launching : (op.run target).1.launching =
    match op with
    | start => target.launching || (!target.config.disabled && !target.online)
    | markOnline => target.launching && target.online
    | targetLost | markOffline => target.launching && !target.online
    | clearLaunching | ensureDisabledOff => false
    | _ => target.launching := by
  cases op <;> simp only [run, TargetSection.effect]
  all_goals grind [startSection, stopSection, targetLostSection, admitRecoverySection,
    stillExpectedSection, ensureDisabledOffSection, clearObservedSection, markOnlineSection,
    markOfflineSection, clearLaunchingSection, updateObservedSection, updateMediaEndSection,
    clearMediaEndSection]

theorem run_recovering : (op.run target).1.recovering =
    match op with
    | admitRecovery => target.recovering || (!target.config.disabled && !target.stopped)
    | stillExpected => target.recovering && (!target.config.disabled && !target.stopped)
    | markOnline => target.recovering && target.online
    | ensureDisabledOff => false
    | _ => target.recovering := by
  cases op <;> simp only [run, TargetSection.effect]
  all_goals grind [startSection, stopSection, targetLostSection, admitRecoverySection,
    stillExpectedSection, ensureDisabledOffSection, clearObservedSection, markOnlineSection,
    markOfflineSection, clearLaunchingSection, updateObservedSection, updateMediaEndSection,
    clearMediaEndSection]

/-- The sections that write observed fields. -/
def updates : TargetOp → Bool
  | updateObserved _ _ | updateMediaEnd _ _ | clearMediaEnd => true
  | _ => false

theorem run_observed (h : op.updates = false) : (op.run target).1.observed =
    match op with
    | clearObserved => .default
    | _ => target.observed := by
  cases op <;> cases h <;> simp only [run, TargetSection.effect]
  all_goals grind [startSection, stopSection, targetLostSection, admitRecoverySection,
    stillExpectedSection, ensureDisabledOffSection, clearObservedSection, markOnlineSection,
    markOfflineSection, clearLaunchingSection]

end TargetOp

/-- `start` launches an enabled target that is offline and not being launched. -/
theorem startSection_value {target : RuntimeTarget} (henabled : target.config.disabled = false) :
    (startSection target).value = .ok (!target.online && !target.launching) := by
  simp only [startSection, henabled, Bool.false_eq_true, if_false]
  cases hstopped : target.stopped <;> cases honline : target.online <;>
    cases hlaunching : target.launching <;> simp [honline, hlaunching]

end MpvTargets

import Mathlib.Data.List.Basic

/-! Replaying a log of events that may fail. When two neighbouring events may be swapped, an event can
be moved past others in the log, and the events of one kind can be brought before the rest, without
changing where a successful replay ends. -/

namespace Replay

variable {σ ε err : Type*} {act : σ → ε → Except err σ}

/-- From `s` the events of `log` lead, without an error, to `t`. -/
def Leads (act : σ → ε → Except err σ) (s : σ) (log : List ε) (t : σ) : Prop :=
  log.foldlM act s = .ok t

/-- Whenever `first` and then `second` succeed, the other order succeeds with the same result. -/
def Swaps (act : σ → ε → Except err σ) (first second : ε) : Prop :=
  ∀ s middle t, act s first = .ok middle → act middle second = .ok t →
    ∃ other, act s second = .ok other ∧ act other first = .ok t

variable {s t : σ} {event : ε} {log later : List ε}

@[simp] theorem leads_nil : Leads act s [] t ↔ s = t := by
  simp [Leads, pure, Except.pure]

@[simp] theorem leads_cons :
    Leads act s (event :: log) t ↔ ∃ middle, act s event = .ok middle ∧ Leads act middle log t := by
  rw [Leads, List.foldlM_cons]
  cases h : act s event with
  | error error => simp [bind, Except.bind]
  | ok middle => simp [bind, Except.bind, Leads]

@[simp] theorem leads_append :
    Leads act s (log ++ later) t ↔ ∃ middle, Leads act s log middle ∧ Leads act middle later t := by
  induction log generalizing s with
  | nil => simp
  | cons event log ih =>
      simp only [List.cons_append, leads_cons, ih]
      constructor
      · rintro ⟨first, hfirst, middle, hlog, hlater⟩
        exact ⟨middle, ⟨first, hfirst, hlog⟩, hlater⟩
      · rintro ⟨middle, ⟨first, hfirst, hlog⟩, hlater⟩
        exact ⟨first, hfirst, middle, hlog, hlater⟩

/-- A log ends in one state. -/
theorem Leads.unique {t' : σ} (h : Leads act s log t) (h' : Leads act s log t') : t = t' :=
  Except.ok.inj (h.symm.trans h')

/-- A view of the states that goes along with every event goes along with a log. -/
theorem Leads.view {τ : Type*} {act' : τ → ε → Except err τ} {view : σ → τ}
    (hview : ∀ s t event, act s event = .ok t → act' (view s) event = .ok (view t))
    (h : Leads act s log t) : Leads act' (view s) log (view t) := by
  induction log generalizing s with
  | nil => exact leads_nil.mpr (congrArg view (leads_nil.mp h))
  | cons event log ih =>
      obtain ⟨middle, hevent, hlog⟩ := leads_cons.mp h
      exact leads_cons.mpr ⟨view middle, hview _ _ _ hevent, ih hlog⟩

/-- The last event moves to the front. -/
theorem Leads.move_front (h : Leads act s (log ++ [event]) t)
    (hswaps : ∀ earlier ∈ log, Swaps act earlier event) : Leads act s (event :: log) t := by
  induction log generalizing s with
  | nil => exact h
  | cons earlier log ih =>
      obtain ⟨middle, hearlier, hrest⟩ := leads_cons.mp h
      obtain ⟨next, hevent, hlog⟩ :=
        leads_cons.mp (ih hrest fun other hother => hswaps other (List.mem_cons_of_mem _ hother))
      obtain ⟨other, hfirst, hsecond⟩ :=
        hswaps earlier List.mem_cons_self s middle next hearlier hevent
      exact leads_cons.mpr ⟨other, hfirst, leads_cons.mpr ⟨next, hsecond, hlog⟩⟩

/-- The first event moves to the end. -/
theorem Leads.move_back (h : Leads act s (event :: log) t)
    (hswaps : ∀ later ∈ log, Swaps act event later) : Leads act s (log ++ [event]) t := by
  induction log generalizing s with
  | nil => exact h
  | cons next log ih =>
      obtain ⟨middle, hevent, hrest⟩ := leads_cons.mp h
      obtain ⟨after, hnext, hlog⟩ := leads_cons.mp hrest
      obtain ⟨other, hfirst, hsecond⟩ :=
        hswaps next List.mem_cons_self s middle after hevent hnext
      exact leads_cons.mpr ⟨other, hfirst, ih (leads_cons.mpr ⟨after, hsecond, hlog⟩)
        fun later hlater => hswaps later (List.mem_cons_of_mem _ hlater)⟩

/-- The chosen events come first, in their order, when each may be swapped with those it passes. -/
theorem Leads.partition {chosen : ε → Bool} (h : Leads act s log t)
    (hswaps : log.Pairwise fun first second => chosen first = false → chosen second = true →
      Swaps act first second) :
    Leads act s (log.filter chosen ++ log.filter fun event => !chosen event) t := by
  induction log generalizing s with
  | nil => exact h
  | cons event log ih =>
      obtain ⟨hevent, hlog⟩ := List.pairwise_cons.mp hswaps
      obtain ⟨middle, hact, hrest⟩ := leads_cons.mp h
      obtain ⟨next, hchosen, hothers⟩ := leads_append.mp (ih hrest hlog)
      cases hcase : chosen event with
      | true =>
          rw [List.filter_cons_of_pos hcase, List.filter_cons_of_neg (by simp [hcase]),
            List.cons_append]
          exact leads_cons.mpr ⟨middle, hact, leads_append.mpr ⟨next, hchosen, hothers⟩⟩
      | false =>
          rw [List.filter_cons_of_neg (by simp [hcase]), List.filter_cons_of_pos (by simp [hcase]),
            List.append_cons]
          refine leads_append.mpr ⟨next, ?_, hothers⟩
          refine Leads.move_back (leads_cons.mpr ⟨middle, hact, hchosen⟩) ?_
          intro later hlater
          exact hevent later (List.mem_of_mem_filter hlater) hcase (List.of_mem_filter hlater)

end Replay

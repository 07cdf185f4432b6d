import Mathlib.Data.List.Basic

/-! Runs of a labelled transition system given by a partial step function. A trace keeps every
state it left together with the label of the step, so a statement about a whole run is a statement
about the members of its history, and a restriction on the steps of a run is a condition on them. -/

section

variable {σ : Type*} {ℓ : Type*}

/-- `Trace step s history t`: from `s` the steps recorded in `history`, oldest first, lead to `t`. -/
inductive Trace (step : σ → ℓ → Option σ) (s : σ) : List (σ × ℓ) → σ → Prop where
  | refl : Trace step s [] s
  | tail {t u : σ} {history : List (σ × ℓ)} {label : ℓ} :
      Trace step s history t → step t label = some u → Trace step s (history ++ [(t, label)]) u

namespace Trace

variable {step : σ → ℓ → Option σ} {s t u : σ} {history later : List (σ × ℓ)}

theorem single {label : ℓ} (h : step s label = some t) : Trace step s [(s, label)] t :=
  Trace.refl.tail h

theorem trans (hst : Trace step s history t) (htu : Trace step t later u) :
    Trace step s (history ++ later) u := by
  induction htu with
  | refl => rwa [List.append_nil]
  | tail _ hstep ih =>
      rw [← List.append_assoc]
      exact ih.tail hstep

theorem eq_of_nil (h : Trace step s history t) (hnil : history = []) : t = s := by
  cases h with
  | refl => rfl
  | tail _ _ => simp at hnil

/-- Every recorded step cuts the run in two. -/
theorem split (h : Trace step s history u) {left : List (σ × ℓ)} {label : ℓ}
    {right : List (σ × ℓ)} (hhistory : history = left ++ (t, label) :: right) :
    Trace step s left t ∧ ∃ v, step t label = some v ∧ Trace step v right u := by
  induction h generalizing right with
  | refl => simp at hhistory
  | @tail v u history last hrun hstep ih =>
      rcases List.eq_nil_or_concat right with rfl | ⟨init, end_, rfl⟩
      · obtain ⟨rfl, hlast⟩ := List.append_inj' hhistory rfl
        simp only [List.cons.injEq, Prod.mk.injEq, and_true] at hlast
        obtain ⟨rfl, rfl⟩ := hlast
        exact ⟨hrun, u, hstep, Trace.refl⟩
      · rw [List.concat_eq_append, ← List.cons_append, ← List.append_assoc] at hhistory
        obtain ⟨hinit, hend⟩ := List.append_inj' hhistory rfl
        simp only [List.cons.injEq, and_true] at hend
        subst hend
        obtain ⟨hleft, w, hw, hright⟩ := ih hinit
        exact ⟨hleft, w, hw, by rw [List.concat_eq_append]; exact hright.tail hstep⟩

/-- The labels determine the run. -/
theorem unique {history' : List (σ × ℓ)} {t' : σ} (h : Trace step s history t)
    (h' : Trace step s history' t') (hlabels : history.map Prod.snd = history'.map Prod.snd) :
    history = history' ∧ t = t' := by
  induction h generalizing history' t' with
  | refl =>
      cases h' with
      | refl => exact ⟨rfl, rfl⟩
      | tail => simp at hlabels
  | tail _ hstep ih =>
      cases h' with
      | refl => simp at hlabels
      | tail hrun' hstep' =>
          rw [List.map_append, List.map_append] at hlabels
          obtain ⟨hinit, hlast⟩ := List.append_inj' hlabels rfl
          obtain ⟨rfl, rfl⟩ := ih hrun' hinit
          cases hlast
          rw [hstep] at hstep'
          cases hstep'
          exact ⟨rfl, rfl⟩

/-- Where each step can be taken from the other side of a relation too, so can a run. -/
theorem follow {rel : σ → σ → Prop}
    (hstep : ∀ t t' label u, rel t t' → step t label = some u → ∃ u', step t' label = some u' ∧ rel u u')
    {s' : σ} (h : Trace step s history t) (hstart : rel s s') :
    ∃ history' t', Trace step s' history' t' ∧ history'.map Prod.snd = history.map Prod.snd ∧ rel t t' := by
  induction h with
  | refl => exact ⟨[], s', .refl, rfl, hstart⟩
  | tail _ hlast ih =>
      obtain ⟨history', t', hrun, hlabels, hrel⟩ := ih
      obtain ⟨u', hlast', hrel'⟩ := hstep _ _ _ _ hrel hlast
      refine ⟨_, u', hrun.tail hlast', ?_, hrel'⟩
      rw [List.map_append, List.map_append, hlabels]
      rfl

/-- A property that holds at the start and is kept by every step of the run that meets the condition
holds at the end. -/
theorem invariant {Inv : σ → Prop} {cond : σ → ℓ → Prop} (hstart : Inv s)
    (hstep : ∀ t label u, Inv t → cond t label → step t label = some u → Inv u)
    (hrun : Trace step s history u) (hcond : ∀ entry ∈ history, cond entry.1 entry.2) : Inv u := by
  induction hrun with
  | refl => exact hstart
  | tail _ hlast ih =>
      refine hstep _ _ _ (ih fun entry hentry => ?_) ?_ hlast
      · exact hcond entry (List.mem_append_left _ hentry)
      · exact hcond _ (List.mem_append_right _ List.mem_cons_self)

/-- The same, at every state the run leaves. -/
theorem invariant_visited {Inv : σ → Prop} {cond : σ → ℓ → Prop} (hstart : Inv s)
    (hstep : ∀ t label u, Inv t → cond t label → step t label = some u → Inv u)
    (hrun : Trace step s history u) (hcond : ∀ entry ∈ history, cond entry.1 entry.2) :
    ∀ entry ∈ history, Inv entry.1 := by
  intro entry hentry
  obtain ⟨left, right, rfl⟩ := List.append_of_mem hentry
  exact invariant hstart hstep (hrun.split rfl).1
    fun before hbefore => hcond before (List.mem_append_left _ hbefore)

/-- A run whose steps are steps of another system, seen through `view` and `rename`, is a run of that
system. -/
theorem refines {τ κ : Type*} {step' : τ → κ → Option τ} {Inv : σ → Prop} {cond : σ → ℓ → Prop}
    (view : σ → τ) (rename : σ → ℓ → κ) (hstart : Inv s)
    (hstep : ∀ t label u, Inv t → cond t label → step t label = some u →
      Inv u ∧ step' (view t) (rename t label) = some (view u))
    (hrun : Trace step s history u) (hcond : ∀ entry ∈ history, cond entry.1 entry.2) :
    Trace step' (view s) (history.map fun entry => (view entry.1, rename entry.1 entry.2)) (view u) := by
  induction hrun with
  | refl => exact .refl
  | @tail t v history label hrun hlast ih =>
      have hbefore : ∀ entry ∈ history, cond entry.1 entry.2 :=
        fun entry hentry => hcond entry (List.mem_append_left _ hentry)
      have hinv := invariant hstart (fun t label u ht hl hu => (hstep t label u ht hl hu).1) hrun hbefore
      rw [List.map_append, List.map_singleton]
      exact (ih hbefore).tail
        (hstep t label v hinv (hcond _ (List.mem_append_right _ List.mem_cons_self)) hlast).2

/-- Every step of the run leads to a state that is left later or is the last one. -/
theorem next_visited (hrun : Trace step s history u) {entry : σ × ℓ} (hentry : entry ∈ history) :
    ∃ v, step entry.1 entry.2 = some v ∧ ((∃ next ∈ history, next.1 = v) ∨ u = v) := by
  obtain ⟨left, right, rfl⟩ := List.append_of_mem hentry
  obtain ⟨_, v, hv, hright⟩ := hrun.split rfl
  refine ⟨v, hv, ?_⟩
  cases right with
  | nil => exact Or.inr (hright.eq_of_nil rfl)
  | cons head rest =>
      exact Or.inl ⟨head, by simp, (hright.split (List.nil_append _).symm).1.eq_of_nil rfl⟩

end Trace

/-- Runs the labels one after another and stops at the first that is refused or fails the check. -/
def runChecked (step : σ → ℓ → Option σ) (check : σ → ℓ → Bool) (s : σ) : List ℓ → Option σ
  | [] => some s
  | label :: rest =>
      if check s label then (step s label).bind fun t => runChecked step check t rest else none

/-- A checked run is a trace all of whose steps pass the check. -/
theorem exists_trace_of_runChecked {step : σ → ℓ → Option σ} {check : σ → ℓ → Bool} {s u : σ}
    {labels : List ℓ} (h : runChecked step check s labels = some u) :
    ∃ history, Trace step s history u ∧ history.map Prod.snd = labels ∧
      ∀ entry ∈ history, check entry.1 entry.2 = true := by
  induction labels generalizing s with
  | nil =>
      cases h
      exact ⟨[], Trace.refl, rfl, by simp⟩
  | cons label rest ih =>
      rw [runChecked] at h
      split at h
      · rename_i hcheck
        obtain ⟨t, hstep, hrest⟩ := Option.bind_eq_some_iff.mp h
        obtain ⟨history, hrun, hlabels, hchecks⟩ := ih hrest
        refine ⟨(s, label) :: history, (Trace.single hstep).trans hrun, by simp [hlabels], ?_⟩
        intro entry hentry
        rcases List.mem_cons.mp hentry with rfl | hentry
        · exact hcheck
        · exact hchecks entry hentry
      · cases h

end

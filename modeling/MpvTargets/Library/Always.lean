import Mathlib.Logic.Relation
import MpvTargets.Library.Trace

/-! What holds now and after every further step of a relation. A claim of this kind is proved by going
along with the steps: a state that takes none is settled by what holds of it, any other one by what holds
of it and the same claim about the states it steps to. -/

section

variable {σ τ : Type*}

/-- `P` holds of `s` and of every state that steps of `R` lead to. -/
def Always (R : σ → σ → Prop) (P : σ → Prop) (s : σ) : Prop :=
  ∀ t, Relation.ReflTransGen R s t → P t

namespace Always

variable {R : σ → σ → Prop} {P Q : σ → Prop} {s t : σ}

theorem now (h : Always R P s) : P s := h s .refl

theorem next (h : Always R P s) (hst : R s t) : Always R P t := fun u htu => h u (.head hst htu)

theorem intro (hnow : P s) (hnext : ∀ t, R s t → Always R P t) : Always R P s := by
  intro u hu
  rcases hu.cases_head with rfl | ⟨t, hst, htu⟩
  · exact hnow
  · exact hnext t hst u htu

/-- A state without steps. -/
theorem of_final (hnow : P s) (hfinal : ∀ t, ¬R s t) : Always R P s :=
  intro hnow fun t hst => absurd hst (hfinal t)

theorem mono (h : Always R P s) (hPQ : ∀ t, P t → Q t) : Always R Q s := fun t hst => hPQ t (h t hst)

end Always

/-- A run each of whose steps is matched by a step of the relation ends in a state that matches one the
relation leads to. -/
theorem Trace.reaches {ℓ : Type*} {step : σ → ℓ → Option σ} {R : τ → τ → Prop} {matches_ : σ → τ → Prop}
    {cond : σ → ℓ → Prop} {s t : σ} {history : List (σ × ℓ)} {start : τ}
    (hstep : ∀ u label v point, matches_ u point → cond u label → step u label = some v →
      ∃ next, matches_ v next ∧ R point next)
    (hrun : Trace step s history t) (hcond : ∀ entry ∈ history, cond entry.1 entry.2)
    (hstart : matches_ s start) :
    ∃ point, matches_ t point ∧ Relation.ReflTransGen R start point := by
  induction hrun with
  | refl => exact ⟨start, hstart, .refl⟩
  | tail _ hlast ih =>
      obtain ⟨point, hpoint, hreach⟩ := ih fun entry hentry => hcond entry (List.mem_append_left _ hentry)
      obtain ⟨next, hnext, hmove⟩ :=
        hstep _ _ _ _ hpoint (hcond _ (List.mem_append_right _ List.mem_cons_self)) hlast
      exact ⟨next, hnext, hreach.tail hmove⟩

end

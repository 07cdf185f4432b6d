import Mathlib.Data.List.Nodup

/-! Linearization. Operations that take their effect one at a time, each at one point between its call and
its return, are described by the log of these points: replayed on the sequential object, the log leads to
the present state. -/

namespace Linearization

variable {σ ρ : Type*} {apply : σ → ρ → Option σ}

/-- `log` lists who took which operation into effect, oldest first: nobody twice, and each where the
sequential object allows it. -/
structure Linearizes (apply : σ → ρ → Option σ) (start : σ) (log : List (Nat × ρ)) (last : σ) : Prop where
  once : (log.map Prod.fst).Nodup
  legal : log.foldlM (fun s entry => apply s entry.2) start = some last

variable {start last next : σ} {log : List (Nat × ρ)} {caller : Nat} {operation : ρ}

theorem Linearizes.nil (start : σ) : Linearizes apply start [] start := ⟨List.nodup_nil, rfl⟩

/-- One more operation takes effect. -/
theorem Linearizes.append (h : Linearizes apply start log last) (hcaller : caller ∉ log.map Prod.fst)
    (hnext : apply last operation = some next) :
    Linearizes apply start (log ++ [(caller, operation)]) next where
  once := by
    rw [List.map_append]
    refine List.Nodup.append h.once (List.nodup_singleton _) ?_
    simpa [List.disjoint_singleton] using hcaller
  legal := by
    rw [List.foldlM_append, h.legal]
    simp [hnext]

/-- What the sequential object keeps holds of the present state. -/
theorem Linearizes.invariant {Inv : σ → Prop} (h : Linearizes apply start log last) (hstart : Inv start)
    (hstep : ∀ s operation t, Inv s → apply s operation = some t → Inv t) : Inv last := by
  have hlegal := h.legal
  clear h
  induction log generalizing start with
  | nil =>
      cases hlegal
      exact hstart
  | cons entry log ih =>
      rw [List.foldlM_cons] at hlegal
      obtain ⟨next, hnext, hrest⟩ := Option.bind_eq_some_iff.mp hlegal
      exact ih (hstep start entry.2 next hstart hnext) hrest

end Linearization

import Mathlib.Data.Set.Basic

/-! Operations with a footprint. A state is looked at place by place; an operation leaves the places
outside its footprint alone, and what it does depends on the footprint only. Two operations with disjoint
footprints may then be run in either order. -/

section

variable {σ κ ν ι ρ : Type*}

/-- Two states look the same at these places. -/
def AgreeOn (look : σ → κ → ν) (places : Set κ) (s t : σ) : Prop :=
  ∀ place ∈ places, look s place = look t place

namespace AgreeOn

variable {look : σ → κ → ν} {places : Set κ} {s t u : σ}

theorem refl (look : σ → κ → ν) (places : Set κ) (s : σ) : AgreeOn look places s s := fun _ _ => rfl

theorem symm (h : AgreeOn look places s t) : AgreeOn look places t s := fun place hplace =>
  (h place hplace).symm

theorem trans (h : AgreeOn look places s t) (h' : AgreeOn look places t u) : AgreeOn look places s u :=
  fun place hplace => (h place hplace).trans (h' place hplace)

theorem mono {smaller : Set κ} (h : AgreeOn look places s t) (hsmaller : smaller ⊆ places) :
    AgreeOn look smaller s t := fun place hplace => h place (hsmaller hplace)

end AgreeOn

/-- `run s input t result`: the operation leads from `s` to `t` with this result when the world answers
with `input`. What it needs it finds, and leaves, in every valid state that looks the same at its places. -/
structure Footprint (look : σ → κ → ν) (valid : σ → Prop) (run : σ → ι → σ → ρ → Prop) (places : Set κ) :
    Prop where
  frame : ∀ s input t result, valid s → run s input t result → valid t ∧ AgreeOn look placesᶜ t s
  follow : ∀ s s' input t result, valid s → valid s' → AgreeOn look places s s' → run s input t result →
    ∃ t', run s' input t' result ∧ AgreeOn look places t t'

/-- Operations with disjoint footprints that run one after the other also run in the other order; they return
the same and leave the same. -/
theorem Footprint.commute {look : σ → κ → ν} {valid : σ → Prop} {first second : σ → ι → σ → ρ → Prop}
    {left right : Set κ} (hfirst : Footprint look valid first left)
    (hsecond : Footprint look valid second right) (hdisjoint : ∀ place ∈ left, place ∉ right) {s t u : σ}
    {input input' : ι} {result result' : ρ} (hvalid : valid s) (ht : first s input t result)
    (hu : second t input' u result') :
    ∃ t' u', second s input' t' result' ∧ first t' input u' result ∧
      ∀ place, look u place = look u' place := by
  have hleft : left ⊆ rightᶜ := hdisjoint
  have hright : right ⊆ leftᶜ := fun place hplace hinside => hdisjoint place hinside hplace
  obtain ⟨hvalidt, hkeptt⟩ := hfirst.frame s input t result hvalid ht
  have hkeptu := (hsecond.frame t input' u result' hvalidt hu).2
  obtain ⟨t', ht', hagree'⟩ := hsecond.follow t s input' u result' hvalidt hvalid (hkeptt.mono hright) hu
  obtain ⟨hvalidt', hkeptt'⟩ := hsecond.frame s input' t' result' hvalid ht'
  obtain ⟨u', hu', hagree⟩ := hfirst.follow s t' input t result hvalid hvalidt' (hkeptt'.mono hleft).symm ht
  have hkeptu' := (hfirst.frame t' input u' result hvalidt' hu').2
  refine ⟨t', u', ht', hu', fun place => ?_⟩
  by_cases hinside : place ∈ left
  · calc look u place = look t place := hkeptu place (hleft hinside)
      _ = look u' place := hagree place hinside
  · rw [hkeptu' place hinside]
    by_cases hinside' : place ∈ right
    · exact hagree' place hinside'
    · calc look u place = look t place := hkeptu place hinside'
        _ = look s place := hkeptt place hinside
        _ = look t' place := (hkeptt' place hinside').symm

end

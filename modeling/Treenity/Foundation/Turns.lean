import Mathlib.Order.WellFounded

namespace treenity.foundation

/-- A loop whose `i`-th turn leads to another state or returns. What the environment
answers is part of `turn`. `none` is a loop that has not returned after so many turns. -/
def turns {σ ρ : Type} (turn : Nat → σ → σ ⊕ ρ) : Nat → Nat → σ → Option ρ
  | 0, _, _ => none
  | fuel + 1, i, s =>
    match turn i s with
    | .inl next => turns turn fuel (i + 1) next
    | .inr result => some result

variable {σ ρ : Type} {turn : Nat → σ → σ ⊕ ρ}

/-- What survives every turn that goes on is there in the turn that returns. -/
theorem turns_invariant {P : σ → Prop} {Q : ρ → Prop}
    (hgoes_on : ∀ i s next, P s → turn i s = .inl next → P next)
    (hreturns : ∀ i s result, P s → turn i s = .inr result → Q result)
    {fuel i : Nat} {s : σ} {result : ρ} (hstart : P s) (hturns : turns turn fuel i s = some result) : Q result := by
  induction fuel generalizing i s with
  | zero => cases hturns
  | succ fuel ih =>
    rw [turns] at hturns
    split at hturns
    · rename_i next hturn
      exact ih (hgoes_on i s next hstart hturn) hturns
    · rename_i last hturn
      obtain rfl := Option.some.inj hturns
      exact hreturns i s _ hstart hturn

theorem turns_succ_isSome {i : Nat} {s : σ}
    (hnext : ∀ next, turn i s = .inl next → ∃ fuel, (turns turn fuel (i + 1) next).isSome) :
    ∃ fuel, (turns turn fuel i s).isSome := by
  cases hturn : turn i s with
  | inl next =>
    obtain ⟨fuel, hsome⟩ := hnext next hturn
    refine ⟨fuel + 1, ?_⟩
    rw [turns, hturn]
    exact hsome
  | inr result =>
    refine ⟨1, ?_⟩
    rw [turns, hturn, Option.isSome_some]

/-- A loop returns when, from some turn on, every turn that goes on makes a number smaller. -/
theorem turns_isSome (μ : σ → Nat) (n : Nat)
    (hless : ∀ i s next, n ≤ i → turn i s = .inl next → μ next < μ s) (i : Nat) (s : σ) :
    ∃ fuel, (turns turn fuel i s).isSome := by
  have hlate : ∀ bound i s, n ≤ i → μ s < bound → ∃ fuel, (turns turn fuel i s).isSome := by
    intro bound
    induction bound with
    | zero => exact fun _ _ _ hbound => absurd hbound (Nat.not_lt_zero _)
    | succ bound ih =>
      intro i s hi hbound
      apply turns_succ_isSome
      intro next hturn
      have hnext := hless i s next hi hturn
      exact ih (i + 1) next (by omega) (by omega)
  -- Before turn `n` nothing is asked of the turns.
  have hearly : ∀ early i s, n ≤ i + early → ∃ fuel, (turns turn fuel i s).isSome := by
    intro early
    induction early with
    | zero => exact fun i s hi => hlate (μ s + 1) i s hi (Nat.lt_succ_self _)
    | succ early ih =>
      intro i s hi
      apply turns_succ_isSome
      intro next _
      exact ih (i + 1) next (by omega)
  exact hearly n i s (Nat.le_add_left n i)

/-- A turn that leads back to its state forever never returns. -/
theorem turns_eq_none {s : σ} (hstays : ∀ i, turn i s = .inl s) (fuel i : Nat) : turns turn fuel i s = none := by
  induction fuel generalizing i with
  | zero => rfl
  | succ fuel ih =>
    rw [turns, hstays i]
    exact ih (i + 1)

end treenity.foundation

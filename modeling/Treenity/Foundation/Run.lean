import Mathlib.Data.List.Basic

namespace treenity.foundation

/-- The finite runs of a labelled transition relation, with their labels in order. -/
inductive Run {σ ℓ : Type} (step : σ → ℓ → σ → Prop) : σ → List ℓ → σ → Prop
  | nil (s : σ) : Run step s [] s
  | snoc {s t u : σ} {labels : List ℓ} {label : ℓ} (hrun : Run step s labels t)
      (hstep : step t label u) : Run step s (labels ++ [label]) u

/-- What holds at the start and survives every step holds after every run. -/
theorem Run.invariant {σ ℓ : Type} {step : σ → ℓ → σ → Prop} {P : σ → Prop} {s t : σ}
    {labels : List ℓ} (hrun : Run step s labels t) (hstart : P s)
    (hstep : ∀ s label t, P s → step s label t → P t) : P t := by
  induction hrun with
  | nil => exact hstart
  | snoc _ hlast ih => exact hstep _ _ _ ih hlast

/-- The same for a property that also speaks of the labels seen so far. -/
theorem Run.history {σ ℓ : Type} {step : σ → ℓ → σ → Prop} {P : List ℓ → σ → Prop} {s t : σ}
    {labels : List ℓ} (hrun : Run step s labels t) (hstart : P [] s)
    (hstep : ∀ past s label t, P past s → step s label t → P (past ++ [label]) t) : P labels t := by
  induction hrun with
  | nil => exact hstart
  | snoc _ hlast ih => exact hstep _ _ _ _ ih hlast

/-- Runs of a stronger relation are runs of a weaker one. -/
theorem Run.mono {σ ℓ : Type} {step weaker : σ → ℓ → σ → Prop} {s t : σ} {labels : List ℓ}
    (hrun : Run step s labels t) (hweaker : ∀ s label t, step s label t → weaker s label t) :
    Run weaker s labels t := by
  induction hrun with
  | nil => exact .nil _
  | snoc _ hlast ih => exact .snoc ih (hweaker _ _ _ hlast)

/-- An invariant of the run may be assumed at each of its steps. -/
theorem Run.strengthen {σ ℓ : Type} {step : σ → ℓ → σ → Prop} {P : σ → Prop} {s t : σ} {labels : List ℓ}
    (hstart : P s) (hstep : ∀ s label t, P s → step s label t → P t) (hrun : Run step s labels t) :
    Run (fun s label t => P s ∧ step s label t) s labels t := by
  induction hrun with
  | nil => exact .nil _
  | snoc hbefore hlast ih => exact .snoc ih ⟨hbefore.invariant hstart hstep, hlast⟩

/-- Steps that make a number smaller are no more than that number. -/
theorem Run.length_le {σ ℓ : Type} {step : σ → ℓ → σ → Prop} {P : σ → Prop} (μ : σ → Nat) {s t : σ} {labels : List ℓ}
    (hrun : Run step s labels t) (hstart : P s)
    (hstep : ∀ s label t, P s → step s label t → P t ∧ μ t < μ s) : labels.length ≤ μ s := by
  have hall : P t ∧ labels.length + μ t ≤ μ s := by
    refine hrun.history (P := fun past t => P t ∧ past.length + μ t ≤ μ s) ⟨hstart, by simp⟩ ?_
    rintro past u label v ⟨hbefore, hle⟩ hlast
    obtain ⟨hafter, hless⟩ := hstep u label v hbefore hlast
    refine ⟨hafter, ?_⟩
    rw [List.length_append, List.length_singleton]
    omega
  omega

theorem Run.append {σ ℓ : Type} {step : σ → ℓ → σ → Prop} {s t u : σ} {first second : List ℓ}
    (hfirst : Run step s first t) (hsecond : Run step t second u) :
    Run step s (first ++ second) u := by
  induction hsecond with
  | nil => simpa using hfirst
  | snoc _ hlast ih =>
    rw [← List.append_assoc]
    exact .snoc ih hlast

theorem Run.cons {σ ℓ : Type} {step : σ → ℓ → σ → Prop} {s t u : σ} {label : ℓ} {labels : List ℓ}
    (hstep : step s label t) (hrun : Run step t labels u) : Run step s (label :: labels) u :=
  Run.append (.snoc (.nil s) hstep) hrun

/-- The transitions of a machine that computes its next state and an output from an event. -/
def Fires {σ ε ω : Type} (step : σ → ε → Option (σ × ω)) (s : σ) (label : ε × ω) (t : σ) : Prop :=
  step s label.1 = some (t, label.2)

/-- The machine restricted to the events that are allowed where they happen. -/
def guarded {σ ε ω : Type} (allowed : σ → ε → Prop) [∀ s e, Decidable (allowed s e)]
    (step : σ → ε → Option (σ × ω)) (s : σ) (event : ε) : Option (σ × ω) :=
  if allowed s event then step s event else none

theorem fires_guarded_iff {σ ε ω : Type} {allowed : σ → ε → Prop} [∀ s e, Decidable (allowed s e)]
    {step : σ → ε → Option (σ × ω)} {s t : σ} {label : ε × ω} :
    Fires (guarded allowed step) s label t ↔ Fires step s label t ∧ allowed s label.1 := by
  unfold Fires guarded
  split
  · rename_i hallowed
    exact (and_iff_left hallowed).symm
  · rename_i hforbidden
    simp [hforbidden]

/-- The run of a machine on a list of events, if each of them can happen. -/
def exec {σ ε ω : Type} (step : σ → ε → Option (σ × ω)) : σ → List ε → Option (σ × List (ε × ω))
  | s, [] => some (s, [])
  | s, event :: rest =>
    match step s event with
    | none => none
    | some (t, output) => (exec step t rest).map fun (last, labels) => (last, (event, output) :: labels)

theorem Run.of_exec {σ ε ω : Type} {step : σ → ε → Option (σ × ω)} {s t : σ} {events : List ε}
    {labels : List (ε × ω)} (hexec : exec step s events = some (t, labels)) :
    Run (Fires step) s labels t := by
  induction events generalizing s labels with
  | nil =>
    cases hexec
    exact .nil _
  | cons event rest ih =>
    rw [exec] at hexec
    split at hexec
    · cases hexec
    · rename_i middle output hstep
      obtain ⟨⟨last, tail⟩, htail, hlast⟩ := Option.map_eq_some_iff.mp hexec
      obtain ⟨rfl, rfl⟩ := Prod.mk.inj hlast
      exact .cons hstep (ih htail)

/-- The state the events lead to, where they can happen. -/
def after {σ ε ω : Type} (step : σ → ε → Option (σ × ω)) (s : σ) (events : List ε) : σ × List (ε × ω) :=
  (exec step s events).getD (s, [])

theorem Run.of_after {σ ε ω : Type} {step : σ → ε → Option (σ × ω)} {s : σ} {events : List ε}
    (hsome : (exec step s events).isSome = true) :
    Run (Fires step) s (after step s events).2 (after step s events).1 := by
  obtain ⟨⟨t, labels⟩, hexec⟩ := Option.isSome_iff_exists.mp hsome
  rw [after, hexec]
  exact .of_exec hexec

/-- The labels of such a run carry the given events, so what holds of all of these
holds along the run. -/
theorem exec_forall {σ ε ω : Type} {step : σ → ε → Option (σ × ω)} {s t : σ} {events : List ε}
    {labels : List (ε × ω)} (P : ε → Prop) (hexec : exec step s events = some (t, labels))
    (hevents : ∀ event ∈ events, P event) : ∀ label ∈ labels, P label.1 := by
  induction events generalizing s labels with
  | nil =>
    cases hexec
    simp
  | cons event rest ih =>
    rw [exec] at hexec
    split at hexec
    · cases hexec
    · obtain ⟨⟨last, tail⟩, htail, hlast⟩ := Option.map_eq_some_iff.mp hexec
      obtain ⟨rfl, rfl⟩ := Prod.mk.inj hlast
      obtain ⟨hevent, hrest⟩ := List.forall_mem_cons.mp hevents
      exact List.forall_mem_cons.mpr ⟨hevent, ih htail hrest⟩

theorem exec_events {σ ε ω : Type} {step : σ → ε → Option (σ × ω)} {s t : σ} {events : List ε}
    {labels : List (ε × ω)} (hexec : exec step s events = some (t, labels)) : labels.map Prod.fst = events := by
  induction events generalizing s labels with
  | nil =>
    cases hexec
    rfl
  | cons event rest ih =>
    rw [exec] at hexec
    split at hexec
    · cases hexec
    · obtain ⟨⟨last, tail⟩, htail, hlast⟩ := Option.map_eq_some_iff.mp hexec
      obtain ⟨rfl, rfl⟩ := Prod.mk.inj hlast
      rw [List.map_cons, ih htail]

/-- Executing the events shows that there is a run on them that ends in a state with `p`. -/
theorem Run.of_exec_any {σ ε ω : Type} (step : σ → ε → Option (σ × ω)) (s : σ) (events : List ε) (p : σ → Bool)
    (hany : (exec step s events).any (fun outcome => p outcome.1) = true) :
    ∃ t labels, Run (Fires step) s labels t ∧ labels.map Prod.fst = events ∧ p t = true := by
  obtain ⟨⟨t, labels⟩, hexec, hp⟩ := (Option.any_eq_true _ _).mp hany
  exact ⟨t, labels, .of_exec hexec, exec_events hexec, hp⟩

end treenity.foundation

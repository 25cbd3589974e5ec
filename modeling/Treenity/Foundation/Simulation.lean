import Mathlib.Data.List.Forall2
import Mathlib.Logic.Function.Basic
import Treenity.Foundation.Run

namespace treenity.foundation

/-- The answers of a machine to a sequence of operations, and the state it ends in. -/
def answers {σ α ρ : Type} (step : σ → α → ρ × σ) : σ → List α → List ρ × σ
  | s, [] => ([], s)
  | s, op :: ops =>
    let (answer, s) := step s op
    let (rest, s) := answers step s ops
    (answer :: rest, s)

/-- Two machines that answer alike from related states and stay related answer every
sequence of operations alike. -/
theorem answers_agree {σ τ α ρ : Type} {step : σ → α → ρ × σ} {spec : τ → α → ρ × τ} {R : σ → τ → Prop}
    (hstep : ∀ s t op, R s t → (step s op).1 = (spec t op).1 ∧ R (step s op).2 (spec t op).2)
    {s : σ} {t : τ} (hstart : R s t) (ops : List α) :
    (answers step s ops).1 = (answers spec t ops).1 ∧ R (answers step s ops).2 (answers spec t ops).2 := by
  induction ops generalizing s t with
  | nil => exact ⟨rfl, hstart⟩
  | cons op ops ih =>
    obtain ⟨hanswer, hnext⟩ := hstep s t op hstart
    obtain ⟨hrest, hend⟩ := ih hnext
    exact ⟨congrArg₂ List.cons hanswer hrest, hend⟩

/-- Objects under names that each stand for a value still do when one of them is
replaced by an object and a value that belong together. -/
theorem related_update {ι γ α : Type} [DecidableEq ι] {R : γ → α → Prop} {objects : ι → γ} {values : ι → α}
    (hrelated : ∀ x, R (objects x) (values x)) (x : ι) {object : γ} {value : α} (hnew : R object value) :
    ∀ y, R (Function.update objects x object y) (Function.update values x value y) := by
  intro y
  by_cases hxy : y = x
  · subst hxy
    simpa using hnew
  · simpa [hxy] using hrelated y

end treenity.foundation

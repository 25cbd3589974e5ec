import Mathlib.Logic.Basic

namespace treenity.foundation

/-- A program that makes calls and goes on with what they return. A call `k` returns a `ρ k`. -/
inductive Program {κ : Type} (ρ : κ → Type) : Type → Type 1
  | pure {α : Type} (value : α) : Program ρ α
  | call {α : Type} (k : κ) (next : ρ k → Program ρ α) : Program ρ α
  | bind {α β : Type} (first : Program ρ β) (next : β → Program ρ α) : Program ρ α
  | loop {α σ : Type} (body : σ → Program ρ (σ ⊕ α)) (s : σ) : Program ρ α

namespace Program

variable {κ ω α β σ : Type} {ρ : κ → Type}

instance : Monad (Program ρ) where
  pure := .pure
  bind := .bind

/-- A call as a program of its own. -/
def request (k : κ) : Program ρ (ρ k) := .call k .pure

/-- A program leads from one world to another and has returned there, or not yet. What a
call may return, and what it does to the world, is up to `answers`. -/
inductive Runs (answers : ω → (k : κ) → ρ k → ω → Prop) : {α : Type} → Program ρ α → ω → Option α → ω → Prop
  | pause {α : Type} (program : Program ρ α) (w : ω) : Runs answers program w none w
  | pure {α : Type} (value : α) (w : ω) : Runs answers (.pure value) w (some value) w
  | call {α : Type} {k : κ} {next : ρ k → Program ρ α} {w v u : ω} {answer : ρ k} {o : Option α}
      (hanswer : answers w k answer v) (hnext : Runs answers (next answer) v o u) :
      Runs answers (.call k next) w o u
  | bind_first {α β : Type} {first : Program ρ β} {next : β → Program ρ α} {w v : ω}
      (hfirst : Runs answers first w none v) : Runs answers (.bind first next) w none v
  | bind_next {α β : Type} {first : Program ρ β} {next : β → Program ρ α} {value : β} {w v u : ω} {o : Option α}
      (hfirst : Runs answers first w (some value) v) (hnext : Runs answers (next value) v o u) :
      Runs answers (.bind first next) w o u
  | loop_body {α σ : Type} {body : σ → Program ρ (σ ⊕ α)} {s : σ} {w v : ω}
      (hbody : Runs answers (body s) w none v) : Runs answers (.loop body s) w none v
  | loop_again {α σ : Type} {body : σ → Program ρ (σ ⊕ α)} {s t : σ} {w v u : ω} {o : Option α}
      (hbody : Runs answers (body s) w (some (.inl t)) v) (hnext : Runs answers (.loop body t) v o u) :
      Runs answers (.loop body s) w o u
  | loop_done {α σ : Type} {body : σ → Program ρ (σ ⊕ α)} {s : σ} {value : α} {w v : ω}
      (hbody : Runs answers (body s) w (some (.inr value)) v) : Runs answers (.loop body s) w (some value) v

/-- From every world in `P` the program stays in `R`, and when it returns what it returns
and the world are in `Q`. -/
def Meets (answers : ω → (k : κ) → ρ k → ω → Prop) (P : ω → Prop) (program : Program ρ α) (R : ω → Prop)
    (Q : α → ω → Prop) : Prop :=
  ∀ w o v, P w → Runs answers program w o v → R v ∧ ∀ value, o = some value → Q value v

section Rules

variable {answers : ω → (k : κ) → ρ k → ω → Prop} {P P' R R' : ω → Prop} {Q Q' : α → ω → Prop}

theorem Meets.weaken {program : Program ρ α} (hmeets : Meets answers P program R Q) (hbefore : ∀ w, P' w → P w)
    (halways : ∀ w, R w → R' w) (hafter : ∀ value w, Q value w → Q' value w) : Meets answers P' program R' Q' := by
  intro w o v hw hruns
  obtain ⟨hstays, hreturns⟩ := hmeets w o v (hbefore w hw) hruns
  exact ⟨halways v hstays, fun value hvalue => hafter value v (hreturns value hvalue)⟩

/-- What holds throughout holds when the program returns. -/
theorem Meets.returned {program : Program ρ α} (hmeets : Meets answers P program R Q) :
    Meets answers P program R (fun value w => R w ∧ Q value w) := by
  intro w o v hw hruns
  obtain ⟨hstays, hreturns⟩ := hmeets w o v hw hruns
  exact ⟨hstays, fun value hvalue => ⟨hstays, hreturns value hvalue⟩⟩

theorem meets_pure {value : α} (hreturns : ∀ w, P w → R w ∧ Q value w) :
    Meets answers P (Pure.pure value : Program ρ α) R Q := by
  intro w o v hw hruns
  obtain ⟨hstays, hvalue⟩ := hreturns w hw
  cases hruns with
  | pause => exact ⟨hstays, fun _ hnone => nomatch hnone⟩
  | pure => exact ⟨hstays, fun _ hsame => Option.some.inj hsame ▸ hvalue⟩

theorem meets_request {k : κ} {Q : ρ k → ω → Prop} (hstart : ∀ w, P w → R w)
    (hreturns : ∀ w answer v, P w → answers w k answer v → R v ∧ Q answer v) :
    Meets answers P (request k) R Q := by
  intro w o u hw hruns
  cases hruns with
  | pause => exact ⟨hstart w hw, fun _ hnone => nomatch hnone⟩
  | call hanswer hnext =>
    obtain ⟨hstays, hvalue⟩ := hreturns _ _ _ hw hanswer
    cases hnext with
    | pause => exact ⟨hstays, fun _ hnone => nomatch hnone⟩
    | pure => exact ⟨hstays, fun _ hsame => Option.some.inj hsame ▸ hvalue⟩

theorem meets_bind {first : Program ρ β} {next : β → Program ρ α} {M : β → ω → Prop}
    (hfirst : Meets answers P first R M) (hnext : ∀ value, Meets answers (M value) (next value) R Q) :
    Meets answers P (first >>= next) R Q := by
  intro w o v hw hruns
  cases hruns with
  | pause => exact ⟨(hfirst w none w hw (.pause _ _)).1, fun _ hnone => nomatch hnone⟩
  | bind_first hruns => exact ⟨(hfirst _ _ _ hw hruns).1, fun _ hnone => nomatch hnone⟩
  | bind_next hruns hrest => exact hnext _ _ _ _ ((hfirst _ _ _ hw hruns).2 _ rfl) hrest

/-- Every turn of a loop starts where its invariant holds. -/
theorem meets_loop {body : σ → Program ρ (σ ⊕ α)} (I : σ → ω → Prop)
    (hbody : ∀ s, Meets answers (I s) (body s) R (fun outcome => outcome.elim I Q)) (s : σ) :
    Meets answers (I s) (.loop body s) R Q := by
  intro w o v hw hruns
  generalize hprogram : Program.loop body s = program at hruns
  induction hruns generalizing s with
  | pause =>
    subst hprogram
    exact ⟨(hbody s _ none _ hw (.pause _ _)).1, fun _ hnone => nomatch hnone⟩
  | loop_body hruns =>
    cases hprogram
    exact ⟨(hbody _ _ _ _ hw hruns).1, fun _ hnone => nomatch hnone⟩
  | loop_again hruns hnext _ ih =>
    cases hprogram
    exact ih hbody _ ((hbody _ _ _ _ hw hruns).2 _ rfl) rfl
  | loop_done hruns =>
    cases hprogram
    obtain ⟨hstays, hreturns⟩ := hbody _ _ _ _ hw hruns
    exact ⟨hstays, fun _ hsame => Option.some.inj hsame ▸ hreturns _ rfl⟩
  | _ => cases hprogram

end Rules

/-- The turns of a loop, one after the other, as far as `fuel` goes. -/
def iterate (turn : σ → ω → Option ((σ ⊕ α) × ω)) : Nat → σ → ω → Option (α × ω)
  | 0, _, _ => none
  | fuel + 1, s, w =>
    match turn s w with
    | some (.inl t, v) => iterate turn fuel t v
    | some (.inr value, v) => some (value, v)
    | none => none

/-- The program in a world where every call has one answer. `none` is a loop that has not
returned after `fuel` turns. -/
def exec (answer : ω → (k : κ) → ρ k × ω) (fuel : Nat) : {α : Type} → Program ρ α → ω → Option (α × ω)
  | _, .pure value, w => some (value, w)
  | _, .call k next, w => exec answer fuel (next (answer w k).1) (answer w k).2
  | _, .bind first next, w =>
    match exec answer fuel first w with
    | some (value, v) => exec answer fuel (next value) v
    | none => none
  | _, .loop body s, w => iterate (fun s w => exec answer fuel (body s) w) fuel s w

theorem iterate_runs {answers : ω → (k : κ) → ρ k → ω → Prop} {body : σ → Program ρ (σ ⊕ α)}
    {turn : σ → ω → Option ((σ ⊕ α) × ω)}
    (hturn : ∀ s w outcome v, turn s w = some (outcome, v) → Runs answers (body s) w (some outcome) v) {fuel : Nat}
    {s : σ} {w v : ω} {value : α} (hiterate : iterate turn fuel s w = some (value, v)) :
    Runs answers (.loop body s) w (some value) v := by
  induction fuel generalizing s w with
  | zero => cases hiterate
  | succ fuel ih =>
    rw [iterate] at hiterate
    split at hiterate
    · rename_i hgoes_on
      exact .loop_again (hturn _ _ _ _ hgoes_on) (ih hiterate)
    · rename_i hreturns
      obtain ⟨rfl, rfl⟩ := Prod.mk.inj (Option.some.inj hiterate)
      exact .loop_done (hturn _ _ _ _ hreturns)
    · cases hiterate

theorem exec_runs {answers : ω → (k : κ) → ρ k → ω → Prop} {answer : ω → (k : κ) → ρ k × ω}
    (hanswer : ∀ w k, answers w k (answer w k).1 (answer w k).2) {fuel : Nat} {program : Program ρ α} {w v : ω}
    {value : α} (hexec : exec answer fuel program w = some (value, v)) : Runs answers program w (some value) v := by
  induction program generalizing w v with
  | pure returned =>
    obtain ⟨rfl, rfl⟩ := Prod.mk.inj (Option.some.inj hexec)
    exact .pure _ _
  | call k next ih => exact .call (hanswer w k) (ih _ hexec)
  | bind first next ihfirst ihnext =>
    rw [exec] at hexec
    split at hexec
    · rename_i hfirst
      exact .bind_next (ihfirst hfirst) (ihnext _ hexec)
    · cases hexec
  | loop body s ih =>
    rw [exec] at hexec
    exact iterate_runs (fun t u outcome x hturn => ih t hturn) hexec

end Program

end treenity.foundation

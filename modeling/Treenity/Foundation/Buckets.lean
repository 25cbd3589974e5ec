import Mathlib.Data.List.Basic
import Mathlib.Data.List.Perm.Basic

namespace treenity.foundation

/-- Every element of a table of rows stands in the row `place` assigns to it. -/
def Placed {α : Type} (place : α → Nat) (rows : List (List α)) : Prop :=
  ∀ i row, rows[i]? = some row → ∀ e ∈ row, place e = i

theorem Placed.replicate_nil {α : Type} (place : α → Nat) (n : Nat) :
    Placed place (List.replicate n []) := by
  intro i row hrow e he
  obtain ⟨_, rfl⟩ : i < n ∧ [] = row := by simpa [List.getElem?_replicate] using hrow
  simp at he

/-- Rewriting one row keeps placement when the new row holds only elements
of that place. -/
theorem Placed.modify {α : Type} {place : α → Nat} {rows : List (List α)}
    (hplaced : Placed place rows) (k : Nat) (f : List α → List α)
    (hf : ∀ row, (∀ e ∈ row, place e = k) → ∀ e ∈ f row, place e = k) :
    Placed place (rows.modify k f) := by
  intro i row hrow e he
  rw [List.getElem?_modify] at hrow
  cases hold : rows[i]? with
  | none => simp [hold] at hrow
  | some old =>
    by_cases hik : k = i
    · subst hik
      have hnew : f old = row := by simpa [hold] using hrow
      exact hf old (hplaced k old hold) e (hnew ▸ he)
    · have hsame : old = row := by simpa [hold, hik] using hrow
      exact hplaced i old hold e (hsame ▸ he)

theorem Placed.map_rows {α : Type} {place : α → Nat} {rows : List (List α)}
    (hplaced : Placed place rows) (f : List α → List α) (hf : ∀ row, ∀ e ∈ f row, e ∈ row) :
    Placed place (rows.map f) := by
  intro i row hrow e he
  obtain ⟨old, hold, rfl⟩ : ∃ old, rows[i]? = some old ∧ f old = row := by simpa using hrow
  exact hplaced i old hold e (hf old e he)

/-- A search whose hits all belong to one row finds in the whole table what it
finds in that row. -/
theorem Placed.find?_flatten {α : Type} {place : α → Nat} {rows : List (List α)}
    (hplaced : Placed place rows) (p : α → Bool) (k : Nat) (hp : ∀ e, p e = true → place e = k) :
    rows.flatten.find? p = (rows.getD k []).find? p := by
  induction rows generalizing place k with
  | nil => simp
  | cons first rest ih =>
    have hfirst : ∀ e ∈ first, place e = 0 := hplaced 0 first rfl
    rw [List.flatten_cons, List.find?_append]
    cases k with
    | zero =>
      have hrest : rest.flatten.find? p = none := by
        rw [List.find?_eq_none]
        intro e he hpe
        obtain ⟨row, hrow, hmem⟩ := List.mem_flatten.mp he
        obtain ⟨i, hi⟩ := List.mem_iff_getElem?.mp hrow
        have hplace := hplaced (i + 1) row (by simpa using hi) e hmem
        have hzero := hp e (by simpa using hpe)
        omega
      simp [hrest]
    | succ k =>
      have hnone : first.find? p = none := by
        rw [List.find?_eq_none]
        intro e he hpe
        have hzero := hfirst e he
        have hsucc := hp e (by simpa using hpe)
        omega
      have htail : Placed (fun e => place e - 1) rest := by
        intro i row hrow e he
        have hplace := hplaced (i + 1) row (by simpa using hrow) e he
        show place e - 1 = i
        omega
      rw [hnone, Option.none_or, ih htail k (fun e hpe => by have := hp e hpe; omega)]
      simp

/-- Appending to a row that exists adds exactly the appended elements to the table. -/
theorem flatten_modify_append_perm {α : Type} {rows : List (List α)} {k : Nat}
    (hk : k < rows.length) (new : List α) :
    (rows.modify k (· ++ new)).flatten.Perm (new ++ rows.flatten) := by
  induction rows generalizing k with
  | nil => simp at hk
  | cons first rest ih =>
    cases k with
    | zero =>
      simp only [List.modify_zero_cons, List.flatten_cons, List.append_assoc]
      rw [← List.append_assoc, ← List.append_assoc]
      exact List.perm_append_comm.append_right _
    | succ k =>
      simp only [List.modify_succ_cons, List.flatten_cons]
      have htail := ih (by simpa using hk)
      apply (htail.append_left first).trans
      rw [← List.append_assoc, ← List.append_assoc]
      exact List.perm_append_comm.append_right _

/-- A row operation that acts elementwise as a whole-table operation, and leaves
other rows' elements alone, commutes with flattening. -/
theorem flatten_modify_eq {α : Type} {place : α → Nat} {rows : List (List α)}
    (hplaced : Placed place rows) (k : Nat) (f g : List α → List α)
    (happend : ∀ a b, g (a ++ b) = g a ++ g b) (hnil : g [] = [])
    (hrow : ∀ row, (∀ e ∈ row, place e = k) → rows[k]? = some row → f row = g row)
    (hother : ∀ row, (∀ e ∈ row, place e ≠ k) → g row = row) :
    (rows.modify k f).flatten = g rows.flatten := by
  induction rows generalizing place k with
  | nil => simp [hnil]
  | cons first rest ih =>
    have hfirst : ∀ e ∈ first, place e = 0 := hplaced 0 first rfl
    rw [List.flatten_cons, happend]
    cases k with
    | zero =>
      rw [List.modify_zero_cons, List.flatten_cons, hrow first hfirst rfl]
      congr 1
      refine (hother rest.flatten ?_).symm
      intro e he
      obtain ⟨row, hmem, hin⟩ := List.mem_flatten.mp he
      obtain ⟨i, hi⟩ := List.mem_iff_getElem?.mp hmem
      have hplace := hplaced (i + 1) row (by simpa using hi) e hin
      omega
    | succ k =>
      rw [List.modify_succ_cons, List.flatten_cons, hother first (fun e he => by have := hfirst e he; omega)]
      congr 1
      have htail : Placed (fun e => place e - 1) rest := by
        intro i row hget e he
        have hplace := hplaced (i + 1) row (by simpa using hget) e he
        show place e - 1 = i
        omega
      refine ih htail k ?_ ?_
      · intro row hall hget
        refine hrow row (fun e he => ?_) (by simpa using hget)
        exact hplaced (k + 1) row (by simpa using hget) e he
      · intro row hall
        exact hother row (fun e he hplace => hall e he (by omega))

end treenity.foundation

import Mathlib.Data.Nat.Digits.Defs
import Mathlib.Tactic.Ring

namespace treenity.foundation

/-- The number that digits in a base make of the number before them, the most significant
digit first. -/
def horner (base number : Nat) (digits : List Nat) : Nat :=
  digits.foldl (fun number digit => number * base + digit) number

theorem horner_cons (base number digit : Nat) (digits : List Nat) :
    horner base number (digit :: digits) = horner base (number * base + digit) digits := rfl

theorem horner_eq (base number : Nat) (digits : List Nat) :
    horner base number digits = number * base ^ digits.length + Nat.ofDigits base digits.reverse := by
  induction digits generalizing number with
  | nil => simp [horner]
  | cons digit digits ih =>
    rw [horner_cons, ih, Nat.ofDigits_reverse_cons, List.length_cons, pow_succ]
    ring

/-- Digits read from nothing are those of the number in that base. -/
theorem horner_zero (base : Nat) (digits : List Nat) :
    horner base 0 digits = Nat.ofDigits base digits.reverse := by
  rw [horner_eq, Nat.zero_mul, Nat.zero_add]

/-- More digits make no smaller number. -/
theorem le_horner {base : Nat} (hbase : 0 < base) (number : Nat) (digits : List Nat) :
    number ≤ horner base number digits := by
  rw [horner_eq]
  have hpower : 0 < base ^ digits.length := Nat.pow_pos hbase
  exact Nat.le_add_right_of_le (Nat.le_mul_of_pos_right number hpower)

/-- One more digit to a number within the limit fits where `limit + 1` multiples of the base do. -/
theorem next_digit_lt {base limit size number digit : Nat} (hsize : (limit + 1) * base ≤ size)
    (hnumber : number ≤ limit) (hdigit : digit < base) : number * base + digit < size := by
  calc number * base + digit < number * base + base := Nat.add_lt_add_left hdigit _
    _ = (number + 1) * base := (Nat.succ_mul number base).symm
    _ ≤ (limit + 1) * base := Nat.mul_le_mul_right base (Nat.succ_le_succ hnumber)
    _ ≤ size := hsize

section Reading

variable {α : Type} (is_digit : α → Bool) (value : α → Nat) (base limit : Nat)

/-- Reads a number digit by digit. `none` is given at the first item that is no digit and at
the first digit that takes the number past the limit. -/
def read_number : Nat → List α → Option Nat
  | number, [] => some number
  | number, item :: rest =>
    if is_digit item then
      if number * base + value item > limit then none
      else read_number (number * base + value item) rest
    else none

variable {is_digit value base limit}

/-- To give up as soon as the number is past the limit is to test the whole number. -/
theorem read_number_eq_some_iff (hbase : 0 < base) {number : Nat} (hnumber : number ≤ limit) (items : List α)
    (result : Nat) :
    read_number is_digit value base limit number items = some result ↔
      (∀ item ∈ items, is_digit item = true) ∧ horner base number (items.map value) ≤ limit ∧
        result = horner base number (items.map value) := by
  induction items generalizing number with
  | nil =>
    have hall : ∀ item ∈ ([] : List α), is_digit item = true := List.forall_mem_nil _
    have hwithin : horner base number [] ≤ limit := hnumber
    rw [read_number, List.map_nil, and_iff_right hall, and_iff_right hwithin, Option.some.injEq]
    exact eq_comm
  | cons item rest ih =>
    rw [read_number, List.map_cons, horner_cons, List.forall_mem_cons]
    cases hdigit : is_digit item with
    | false => simp
    | true =>
      rw [if_pos rfl, and_iff_right rfl]
      by_cases hfits : number * base + value item ≤ limit
      · rw [if_neg (not_lt.mpr hfits)]
        exact ih hfits
      · rw [if_pos (not_le.mp hfits)]
        refine iff_of_false (by simp) ?_
        rintro ⟨_, hle, _⟩
        exact hfits (le_trans (le_horner hbase _ _) hle)

end Reading

end treenity.foundation

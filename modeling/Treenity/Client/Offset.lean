import Treenity.Client.Options

open treenity.protocol treenity.foundation

namespace treenity.client

/-- The decimal numerals of unsigned 32-bit numbers. -/
structure Numeral (value : Bytes) : Prop where
  nonempty : value ≠ []
  digits : ∀ c ∈ value, 48 ≤ c ∧ c ≤ 57
  fits : decimal value ≤ 4294967295

theorem isdigit_iff (c : UInt8) : isdigit c = true ↔ 48 ≤ c ∧ c ≤ 57 := by simp [isdigit]

/-- The check in every turn of the loop is the check of the whole number. -/
theorem parse_offset_iff (value : Bytes) (offset : UInt32) :
    parse_offset value = some offset ↔ Numeral value ∧ offset = to_uint32 (decimal value) := by
  unfold parse_offset
  split
  · rename_i hempty
    refine iff_of_false (by simp) fun hnumeral => hnumeral.1.nonempty (List.isEmpty_iff.mp hempty)
  · rename_i hsome
    rw [parse_digits_iff (Nat.zero_le _), ← decimal_eq_horner]
    simp only [isdigit_iff]
    constructor
    · rintro ⟨hdigits, hfits, hoffset⟩
      exact ⟨⟨by simpa using hsome, hdigits, hfits⟩, hoffset⟩
    · rintro ⟨⟨_, hdigits, hfits⟩, hoffset⟩
      exact ⟨hdigits, hfits, hoffset⟩

namespace Words

/-- The two operands of `number = number * 10 + static_cast<unsigned int>(value[index] - '0')`. -/
structure Accumulation where
  number : UInt64
  digit : UInt32

/-- What is assigned, in the arithmetic of `uint64_t`. -/
def Accumulation.result (self : Accumulation) : UInt64 := self.number * 10 + self.digit.toUInt64

/-- Neither the product nor the sum goes beyond 64 bits. -/
def Accumulation.Exact (self : Accumulation) : Prop := self.number.toNat * 10 + self.digit.toNat < 2 ^ 64

theorem Accumulation.Exact.result {self : Accumulation} (hexact : self.Exact) :
    self.result.toNat = self.number.toNat * 10 + self.digit.toNat := by
  have hsum : self.number.toNat * 10 + self.digit.toNat < 2 ^ 64 := hexact
  have hproduct : (self.number * 10).toNat = self.number.toNat * 10 := by
    rw [UInt64.toNat_mul]
    exact Nat.mod_eq_of_lt (by simpa using by omega)
  rw [Accumulation.result, UInt64.toNat_add, hproduct, UInt32.toNat_toUInt64]
  exact Nat.mod_eq_of_lt hsum

/-- The loop of `parse_offset` with the types of the source: the accumulations it makes, and the
number unless it returns `false`. -/
def accumulate : UInt64 → Bytes → List Accumulation × Option UInt64
  | number, [] => ([], some number)
  | number, c :: rest =>
    if isdigit c then
      let turn : Accumulation := { number, digit := c.toUInt32 - 48 }
      if turn.result > 4294967295 then ([turn], none)
      else
        let (turns, last) := accumulate turn.result rest
        (turn :: turns, last)
    else ([], none)

/-- The value that is returned, `offset` after the call, and the accumulations of the loop. -/
def parse_offset (value : Bytes) (offset : UInt32) : Bool × UInt32 × List Accumulation :=
  if value.isEmpty then (false, offset, [])
  else
    match accumulate 0 value with
    | (turns, some number) => (true, number.toUInt32, turns)
    | (turns, none) => (false, offset, turns)

theorem toNat_digit {c : UInt8} (hdigit : isdigit c = true) :
    (c.toUInt32 - 48).toNat = digit c ∧ digit c < 10 := by
  obtain ⟨hlow, hhigh⟩ := (isdigit_iff c).mp hdigit
  have hlow : 48 ≤ c.toNat := UInt8.le_iff_toNat_le.mp hlow
  have hhigh : c.toNat ≤ 57 := UInt8.le_iff_toNat_le.mp hhigh
  have hle : (48 : UInt32) ≤ c.toUInt32 := UInt32.le_iff_toNat_le.mpr (by simpa using hlow)
  rw [digit]
  refine ⟨?_, by omega⟩
  rw [UInt32.toNat_sub_of_le _ _ hle]
  rfl

/-- From a number of at most 32 bits on, no accumulation overflows, and the loop does what it
would with unbounded numbers. -/
theorem accumulate_spec {number : UInt64} (hnumber : number.toNat ≤ 4294967295) (value : Bytes) :
    (∀ turn ∈ (accumulate number value).1, turn.Exact) ∧
      (accumulate number value).2.map UInt64.toNat =
        read_number isdigit digit 10 4294967295 number.toNat value := by
  induction value generalizing number with
  | nil => exact ⟨List.forall_mem_nil _, rfl⟩
  | cons c rest ih =>
    rw [accumulate, read_number]
    by_cases hdigit : isdigit c = true
    · rw [if_pos hdigit, if_pos hdigit]
      obtain ⟨hvalue, hten⟩ := toNat_digit hdigit
      generalize hturn : ({ number, digit := c.toUInt32 - 48 } : Accumulation) = turn
      have hexact : turn.Exact := by
        rw [← hturn, Accumulation.Exact, hvalue]
        exact next_digit_lt (by decide) hnumber hten
      have hresult : turn.result.toNat = number.toNat * 10 + digit c := by
        rw [hexact.result, ← hturn, hvalue]
      have hover : turn.result > 4294967295 ↔ number.toNat * 10 + digit c > 4294967295 := by
        rw [← hresult]
        exact UInt64.lt_iff_toNat_lt
      dsimp only
      by_cases hlimit : number.toNat * 10 + digit c > 4294967295
      · rw [if_pos (hover.mpr hlimit), if_pos hlimit]
        exact ⟨List.forall_mem_singleton.mpr hexact, rfl⟩
      · rw [if_neg (mt hover.mp hlimit), if_neg hlimit, ← hresult]
        obtain ⟨hturns, hlast⟩ := ih (hresult ▸ not_lt.mp hlimit)
        exact ⟨List.forall_mem_cons.mpr ⟨hexact, hturns⟩, hlast⟩
    · rw [if_neg hdigit, if_neg hdigit]
      exact ⟨List.forall_mem_nil _, rfl⟩

/-- With the types of the source `parse_offset` gives what it gives with unbounded numbers; without
a number `offset` stays as it was. -/
theorem parse_offset_eq (value : Bytes) (offset : UInt32) :
    (parse_offset value offset).1 = (client.parse_offset value).isSome ∧
      (parse_offset value offset).2.1 = (client.parse_offset value).getD offset := by
  unfold parse_offset client.parse_offset
  split
  · exact ⟨rfl, rfl⟩
  · have hzero : (0 : UInt64).toNat ≤ 4294967295 := Nat.zero_le _
    have hread := (accumulate_spec hzero value).2
    rw [UInt64.toNat_zero] at hread
    rw [parse_digits_eq, ← hread]
    obtain ⟨turns, last⟩ := accumulate 0 value
    cases last with
    | none => exact ⟨rfl, rfl⟩
    | some number => exact ⟨rfl, rfl⟩

theorem parse_offset_turns_exact (value : Bytes) (offset : UInt32) :
    ∀ turn ∈ (parse_offset value offset).2.2, turn.Exact := by
  unfold parse_offset
  split
  · exact List.forall_mem_nil _
  · have hzero : (0 : UInt64).toNat ≤ 4294967295 := Nat.zero_le _
    have hturns := (accumulate_spec hzero value).1
    generalize accumulate 0 value = outcome at hturns ⊢
    obtain ⟨turns, last⟩ := outcome
    cases last with
    | none => exact hturns
    | some number => exact hturns

/-- Every string of decimal digits with a value of at most 32 bits is accepted with this value,
however many zeros it begins with, and nothing else is. A rejected string leaves `offset` alone,
and no accumulation of the loop overflows, whether the string is accepted or not. -/
theorem parse_offset_exact (value : Bytes) (offset : UInt32) :
    let number := Nat.ofDigits 10 (value.map fun c => c.toNat - 48).reverse
    ((parse_offset value offset).1 = true ↔
      value ≠ [] ∧ (∀ c ∈ value, 48 ≤ c ∧ c ≤ 57) ∧ number ≤ 2 ^ 32 - 1) ∧
    ((parse_offset value offset).1 = true → (parse_offset value offset).2.1.toNat = number) ∧
    ((parse_offset value offset).1 = false → (parse_offset value offset).2.1 = offset) ∧
    ∀ turn ∈ (parse_offset value offset).2.2, turn.number.toNat * 10 + turn.digit.toNat < 2 ^ 64 := by
  intro number
  have hnumber : number = decimal value := ((decimal_eq_horner value).trans (horner_zero 10 _)).symm
  obtain ⟨hreturned, hoffset⟩ := parse_offset_eq value offset
  rw [hreturned, hoffset, hnumber]
  refine ⟨?_, ?_, ?_, parse_offset_turns_exact value offset⟩
  · rw [Option.isSome_iff_exists]
    constructor
    · rintro ⟨parsed, hparsed⟩
      obtain ⟨hnumeral, _⟩ := (parse_offset_iff value parsed).mp hparsed
      exact ⟨hnumeral.nonempty, hnumeral.digits, hnumeral.fits⟩
    · rintro ⟨hnonempty, hdigits, hfits⟩
      exact ⟨_, (parse_offset_iff value _).mpr ⟨⟨hnonempty, hdigits, hfits⟩, rfl⟩⟩
  · intro hsome
    obtain ⟨parsed, hparsed⟩ := Option.isSome_iff_exists.mp hsome
    rw [hparsed, Option.getD_some]
    exact parse_offset_value hparsed
  · intro hnone
    rw [Option.isSome_eq_false_iff, Option.isNone_iff_eq_none] at hnone
    rw [hnone, Option.getD_none]

end Words

end treenity.client

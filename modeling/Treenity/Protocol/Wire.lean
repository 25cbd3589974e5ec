import Mathlib.Data.List.Basic
import Mathlib.Data.Nat.Bitwise

namespace treenity.protocol

/-- The bytes of a `std::string`, of a `std::vector<uint8_t>` or of a buffer. -/
abbrev Bytes := List UInt8

/-- `MAX_PAYLOAD_SIZE`, the limit on key and value together. -/
def MAX_PAYLOAD_SIZE : Nat := 1024

/-- `std::numeric_limits<uint32_t>::max()`: a SUBSCRIBE without `--offset`. -/
def OFFSET_UNSET : UInt32 := 4294967295

/-- The offset of the frame that tells a subscriber to stop. -/
def SHUTDOWN_OFFSET : UInt32 := 4294967295

/-- `static_cast<uint32_t>` of a `size_t`, which keeps the low 32 bits. -/
def to_uint32 (size : Nat) : UInt32 := UInt32.ofNat size

def write_uint32_le (buf : Bytes) (val : UInt32) : Bytes :=
  buf ++ [(val &&& 0xFF).toUInt8, ((val >>> 8) &&& 0xFF).toUInt8,
    ((val >>> 16) &&& 0xFF).toUInt8, ((val >>> 24) &&& 0xFF).toUInt8]

/-- The pointer argument is the list from that address on, so `buf + k` is
`buf.drop k`. Callers must have four bytes there; the zeros that stand for
missing ones are never used by a caller that has checked. -/
def read_uint32_le (buf : Bytes) : UInt32 :=
  (buf.getD 0 0).toUInt32 ||| ((buf.getD 1 0).toUInt32 <<< 8) |||
    ((buf.getD 2 0).toUInt32 <<< 16) ||| ((buf.getD 3 0).toUInt32 <<< 24)

/-- The four bytes of a number on the wire. -/
def le32 (val : UInt32) : Bytes := write_uint32_le [] val

theorem to_uint32_toNat {size : Nat} (hsize : size < 2 ^ 32) : (to_uint32 size).toNat = size :=
  UInt32.toNat_ofNat_of_lt' hsize

/-- A declared length that is met is the length of the field. -/
theorem eq_to_uint32 {field : Bytes} {count : UInt32} (hfield : field.length = count.toNat) :
    count = to_uint32 field.length := by
  rw [hfield]
  exact UInt32.ofNat_toNat.symm

theorem write_uint32_le_eq (buf : Bytes) (val : UInt32) :
    write_uint32_le buf val = buf ++ le32 val := rfl

@[simp] theorem le32_length (val : UInt32) : (le32 val).length = 4 := rfl

/-- Disjoint bit ranges make the shifts and disjunctions of the reader a sum. -/
private theorem or_bytes_eq_sum {b₀ b₁ b₂ : Nat} (b₃ : Nat) (h₀ : b₀ < 256) (h₁ : b₁ < 256) (h₂ : b₂ < 256) :
    b₀ ||| b₁ <<< 8 ||| b₂ <<< 16 ||| b₃ <<< 24 =
      b₀ + 256 * b₁ + 65536 * b₂ + 16777216 * b₃ := by
  have hlow : b₁ <<< 8 ||| b₀ = 256 * b₁ + b₀ := by
    rw [← Nat.shiftLeft_add_eq_or_of_lt (by omega : b₀ < 2 ^ 8), Nat.shiftLeft_eq]
    omega
  have hmid : b₂ <<< 16 ||| (256 * b₁ + b₀) = 65536 * b₂ + (256 * b₁ + b₀) := by
    rw [← Nat.shiftLeft_add_eq_or_of_lt (by omega : 256 * b₁ + b₀ < 2 ^ 16), Nat.shiftLeft_eq]
    omega
  have hhigh : b₃ <<< 24 ||| (65536 * b₂ + (256 * b₁ + b₀)) =
      16777216 * b₃ + (65536 * b₂ + (256 * b₁ + b₀)) := by
    rw [← Nat.shiftLeft_add_eq_or_of_lt (by omega : 65536 * b₂ + (256 * b₁ + b₀) < 2 ^ 24),
      Nat.shiftLeft_eq]
    omega
  rw [Nat.lor_comm b₀, hlow, Nat.lor_comm _ (b₂ <<< 16), hmid, Nat.lor_comm _ (b₃ <<< 24), hhigh]
  omega

/-- The number four bytes stand for, least significant first. -/
theorem read_uint32_le_toNat (b₀ b₁ b₂ b₃ : UInt8) (rest : Bytes) :
    (read_uint32_le (b₀ :: b₁ :: b₂ :: b₃ :: rest)).toNat =
      b₀.toNat + 256 * b₁.toNat + 65536 * b₂.toNat + 16777216 * b₃.toNat := by
  have h₀ := b₀.toNat_lt
  have h₁ := b₁.toNat_lt
  have h₂ := b₂.toNat_lt
  have h₃ := b₃.toNat_lt
  have hfit : ∀ b n : Nat, b < 256 → n ≤ 24 → b <<< n % 2 ^ 32 = b <<< n := by
    intro b n hb hn
    apply Nat.mod_eq_of_lt
    rw [Nat.shiftLeft_eq]
    have hpow : 2 ^ n ≤ 2 ^ 24 := Nat.pow_le_pow_right (by decide) hn
    calc b * 2 ^ n ≤ 255 * 2 ^ 24 := Nat.mul_le_mul (by omega) hpow
      _ < 2 ^ 32 := by decide
  have hsum := or_bytes_eq_sum b₃.toNat h₀ h₁ h₂
  simp only [read_uint32_le, List.getD_cons_zero, List.getD_cons_succ, UInt32.toNat_or,
    UInt32.toNat_shiftLeft, UInt8.toNat_toUInt32, UInt32.toNat_ofNat]
  rw [show 8 % 2 ^ 32 % 32 = 8 from rfl, show 16 % 2 ^ 32 % 32 = 16 from rfl,
    show 24 % 2 ^ 32 % 32 = 24 from rfl, hfit _ 8 h₁ (by omega), hfit _ 16 h₂ (by omega),
    hfit _ 24 h₃ (by omega)]
  exact hsum

private theorem low_byte_toNat (val : UInt32) : (val &&& 0xFF).toUInt8.toNat = val.toNat % 256 := by
  rw [UInt32.toNat_toUInt8, UInt32.toNat_and]
  have hmask : val.toNat &&& (0xFF : UInt32).toNat = val.toNat % 2 ^ 8 :=
    Nat.and_two_pow_sub_one_eq_mod val.toNat 8
  rw [hmask]
  omega

/-- Reading undoes writing, whatever follows. -/
theorem read_le32_append (val : UInt32) (rest : Bytes) : read_uint32_le (le32 val ++ rest) = val := by
  apply UInt32.toNat_inj.mp
  have hval := val.toNat_lt
  simp only [le32, write_uint32_le, List.nil_append, List.cons_append]
  rw [read_uint32_le_toNat]
  simp only [low_byte_toNat, UInt32.toNat_shiftRight, Nat.shiftRight_eq_div_pow]
  rw [show (8 : UInt32).toNat % 32 = 8 from rfl, show (16 : UInt32).toNat % 32 = 16 from rfl,
    show (24 : UInt32).toNat % 32 = 24 from rfl]
  omega

/-- Writing undoes reading on the four bytes that were read. -/
theorem le32_read (b₀ b₁ b₂ b₃ : UInt8) (rest : Bytes) :
    le32 (read_uint32_le (b₀ :: b₁ :: b₂ :: b₃ :: rest)) = [b₀, b₁, b₂, b₃] := by
  have h₀ := b₀.toNat_lt
  have h₁ := b₁.toNat_lt
  have h₂ := b₂.toNat_lt
  have h₃ := b₃.toNat_lt
  have hread := read_uint32_le_toNat b₀ b₁ b₂ b₃ rest
  generalize read_uint32_le (b₀ :: b₁ :: b₂ :: b₃ :: rest) = val at hread
  simp only [le32, write_uint32_le, List.nil_append, List.cons.injEq, and_true]
  refine ⟨?_, ?_, ?_, ?_⟩ <;> apply UInt8.toNat_inj.mp <;>
    simp only [low_byte_toNat, UInt32.toNat_shiftRight, Nat.shiftRight_eq_div_pow]
  · omega
  · rw [show (8 : UInt32).toNat % 32 = 8 from rfl]
    omega
  · rw [show (16 : UInt32).toNat % 32 = 16 from rfl]
    omega
  · rw [show (24 : UInt32).toNat % 32 = 24 from rfl]
    omega

/-- A buffer of at least four bytes starts with the number it reads as. -/
theorem le32_read_append_drop {buf : Bytes} (hbuf : 4 ≤ buf.length) :
    le32 (read_uint32_le buf) ++ buf.drop 4 = buf := by
  obtain _ | ⟨b₀, _ | ⟨b₁, _ | ⟨b₂, _ | ⟨b₃, rest⟩⟩⟩⟩ := buf <;> simp at hbuf
  rw [le32_read]
  rfl

/-- Reading looks at the first four bytes only. -/
theorem read_uint32_le_append {buf : Bytes} (hbuf : 4 ≤ buf.length) (rest : Bytes) :
    read_uint32_le (buf ++ rest) = read_uint32_le buf := by
  obtain _ | ⟨b₀, _ | ⟨b₁, _ | ⟨b₂, _ | ⟨b₃, tail⟩⟩⟩⟩ := buf <;> simp at hbuf
  rfl

end treenity.protocol

import Treenity.Protocol.Request
import Treenity.Protocol.Response

namespace treenity.protocol

namespace Response

/-- The fields `out_offset`, `out_key` and `out_val`. The limit is compared before the
strings are looked for, on the sum in `uint32_t`, and not for the sentinel. -/
def parse_delivery (buf : Bytes) : Parse (UInt32 × Bytes × Bytes) := do
  let (out_offset, cursor) ← take_uint32 buf 0
  let (key_len, cursor) ← take_uint32 buf cursor
  let (val_len, cursor) ← take_uint32 buf cursor
  if out_offset ≠ SHUTDOWN_OFFSET ∧ (key_len + val_len).toNat > MAX_PAYLOAD_SIZE then .error .rejected
  else do
    let (out_key, cursor) ← take_bytes buf cursor key_len
    let (out_val, cursor) ← take_bytes buf cursor val_len
    if cursor = buf.length then .ok (out_offset, out_key, out_val) else .error .rejected

theorem serialize_delivery_eq (offset : UInt32) (key val : Bytes) :
    serialize_delivery offset key val =
      le32 offset ++ (le32 (to_uint32 key.length) ++ (le32 (to_uint32 val.length) ++ (key ++ val))) := by
  simp [serialize_delivery, write_uint32_le_eq]

/-- Strings that fit a payload have a sum of lengths that fits in 32 bits. -/
theorem limit_iff {key val : Bytes} (hfits : key.length + val.length < 2 ^ 32) :
    (to_uint32 key.length + to_uint32 val.length).toNat ≤ MAX_PAYLOAD_SIZE ↔
      key.length + val.length ≤ MAX_PAYLOAD_SIZE := by
  rw [UInt32.toNat_add, to_uint32_toNat (by omega), to_uint32_toNat (by omega), Nat.mod_eq_of_lt hfits]

/-- `parse_delivery` accepts exactly the frames of messages that keep to the limit. -/
theorem parse_delivery_iff {buf : Bytes} (hbuf : buf.length < 2 ^ 32)
    (hsentinel : read_uint32_le buf ≠ SHUTDOWN_OFFSET) (offset : UInt32) (key val : Bytes) :
    parse_delivery buf = .ok (offset, key, val) ↔
      buf = serialize_delivery offset key val ∧ key.length + val.length ≤ MAX_PAYLOAD_SIZE := by
  have hsize : buf.length ≤ 2 ^ 63 := by omega
  rw [parse_delivery, take_uint32_bind_iff hsize (.start buf)]
  constructor
  · rintro ⟨out_offset, rest₁, hsplit, hat₁, hparse⟩
    obtain ⟨key_len, rest₂, rfl, hat₂, hparse⟩ := (take_uint32_bind_iff hsize hat₁ _ _).mp hparse
    obtain ⟨val_len, rest₃, rfl, hat₃, hparse⟩ := (take_uint32_bind_iff hsize hat₂ _ _).mp hparse
    dsimp only at hparse
    split at hparse
    · cases hparse
    · rename_i hlimit
      obtain ⟨out_key, rest₄, rfl, hkey, hat₄, hparse⟩ := (take_bytes_bind_iff hsize hat₃ _ _ _).mp hparse
      obtain ⟨out_val, rest₅, rfl, hval, hat₅, hparse⟩ := (take_bytes_bind_iff hsize hat₄ _ _ _).mp hparse
      obtain ⟨rfl, hfields⟩ := (finish_iff hat₅ _ _).mp hparse
      obtain ⟨rfl, rfl, rfl⟩ : out_offset = offset ∧ out_key = key ∧ out_val = val := by simpa using hfields
      have hwhole := congrArg List.length hsplit
      simp only [List.length_append, le32_length, List.length_nil] at hwhole
      rw [eq_to_uint32 hkey, eq_to_uint32 hval, List.append_nil] at hsplit
      have hoffset : out_offset ≠ SHUTDOWN_OFFSET := by rwa [hsplit, read_le32_append] at hsentinel
      refine ⟨by rw [hsplit, serialize_delivery_eq], ?_⟩
      rw [eq_to_uint32 hkey, eq_to_uint32 hval] at hlimit
      exact (limit_iff (by omega)).mp (not_lt.mp fun hover => hlimit ⟨hoffset, hover⟩)
  · rintro ⟨hsplit, hlimit⟩
    have hwhole : buf.length = 12 + key.length + val.length := by rw [hsplit, serialize_delivery_length]
    have hkey : (to_uint32 key.length).toNat = key.length := to_uint32_toNat (by omega)
    have hval : (to_uint32 val.length).toNat = val.length := to_uint32_toNat (by omega)
    have hsum := (limit_iff (by omega)).mpr hlimit
    have hstart : Remaining buf 0 (le32 offset ++ (le32 (to_uint32 key.length) ++
        (le32 (to_uint32 val.length) ++ (key ++ (val ++ []))))) := by
      simpa [serialize_delivery_eq, hsplit] using Remaining.start buf
    have hat₁ : Remaining buf (0 + 4) _ := hstart.advance
    have hat₂ : Remaining buf (0 + 4 + 4) _ := hat₁.advance
    have hat₃ : Remaining buf (0 + 4 + 4 + 4) (key ++ (val ++ [])) := hat₂.advance
    refine ⟨offset, _, by simp [hsplit, serialize_delivery_eq], hat₁, ?_⟩
    refine (take_uint32_bind_iff hsize hat₁ _ _).mpr ⟨_, _, rfl, hat₂, ?_⟩
    refine (take_uint32_bind_iff hsize hat₂ _ _).mpr ⟨_, _, rfl, hat₃, ?_⟩
    dsimp only
    rw [if_neg fun hover => absurd hsum (not_le.mpr hover.2)]
    refine (take_bytes_bind_iff hsize hat₃ _ _ _).mpr ⟨_, _, rfl, hkey.symm, hat₃.advance, ?_⟩
    refine (take_bytes_bind_iff hsize hat₃.advance _ _ _).mpr ⟨_, _, rfl, hval.symm, hat₃.advance.advance, ?_⟩
    exact (finish_iff hat₃.advance.advance _ _).mpr ⟨rfl, rfl⟩

end Response

end treenity.protocol

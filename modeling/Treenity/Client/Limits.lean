import Treenity.Client.Subscriber
import Treenity.Protocol.Delivery

open treenity.protocol treenity.server

namespace treenity.protocol

/-- Lengths whose sum is far over the limit but comes back within it in `uint32_t`. -/
def Wraps (key_len val_len : UInt32) : Prop :=
  2 ^ 32 ≤ key_len.toNat + val_len.toNat ∧ key_len.toNat + val_len.toNat ≤ 2 ^ 32 + MAX_PAYLOAD_SIZE

/-- What the comparison that the decoders make lets through. -/
theorem limit_check_iff (key_len val_len : UInt32) : (key_len + val_len).toNat ≤ MAX_PAYLOAD_SIZE ↔
    key_len.toNat + val_len.toNat ≤ MAX_PAYLOAD_SIZE ∨ Wraps key_len val_len := by
  have hkey := key_len.toNat_lt
  have hval := val_len.toNat_lt
  rw [UInt32.toNat_add, Wraps, MAX_PAYLOAD_SIZE]
  omega

/-- Lengths that pass and do not wrap keep to the limit. -/
theorem within_of_checked {key_len val_len : UInt32} (hchecked : (key_len + val_len).toNat ≤ MAX_PAYLOAD_SIZE)
    (hno : ¬ Wraps key_len val_len) : key_len.toNat + val_len.toNat ≤ MAX_PAYLOAD_SIZE :=
  ((limit_check_iff key_len val_len).mp hchecked).resolve_right hno

theorem Wraps.passes {key_len val_len : UInt32} (hwraps : Wraps key_len val_len) :
    (key_len + val_len).toNat ≤ MAX_PAYLOAD_SIZE := (limit_check_iff key_len val_len).mpr (.inr hwraps)

theorem Wraps.over {key_len val_len : UInt32} (hwraps : Wraps key_len val_len) :
    ¬ key_len.toNat + val_len.toNat ≤ MAX_PAYLOAD_SIZE := by
  have hlarge := hwraps.1
  rw [MAX_PAYLOAD_SIZE]
  omega

namespace Request

/-- `parse_produce` with the lengths that the payload declares for key and value, as they
are when it has passed its limit check, which is its last. -/
def produce_fields (buf : Bytes) : Parse (UInt32 × UInt32 × Bytes × Bytes × Bytes) := do
  let (topic_len, offset) ← take_uint32 buf 0
  let (out_topic, offset) ← take_bytes buf offset topic_len
  let (key_len, offset) ← take_uint32 buf offset
  let (out_key, offset) ← take_bytes buf offset key_len
  let (val_len, offset) ← take_uint32 buf offset
  let (out_val, offset) ← take_bytes buf offset val_len
  if offset ≠ buf.length then .error .rejected
  else if (key_len + val_len).toNat > MAX_PAYLOAD_SIZE then .error .rejected
  else .ok (key_len, val_len, out_topic, out_key, out_val)

theorem parse_produce_eq (buf : Bytes) :
    parse_produce buf = (fun fields => fields.2.2) <$> produce_fields buf := by
  unfold parse_produce produce_fields
  rw [map_bind]
  refine bind_congr fun (topic_len, offset) => ?_
  rw [map_bind]
  refine bind_congr fun (out_topic, offset) => ?_
  rw [map_bind]
  refine bind_congr fun (key_len, offset) => ?_
  rw [map_bind]
  refine bind_congr fun (out_key, offset) => ?_
  rw [map_bind]
  refine bind_congr fun (val_len, offset) => ?_
  rw [map_bind]
  refine bind_congr fun (out_val, offset) => ?_
  dsimp only
  split
  · rfl
  · split <;> rfl

theorem produce_fields_checked {buf : Bytes} {key_len val_len : UInt32} {fields : Bytes × Bytes × Bytes}
    (hparse : produce_fields buf = .ok (key_len, val_len, fields)) :
    (key_len + val_len).toNat ≤ MAX_PAYLOAD_SIZE := by
  obtain ⟨_, _, hparse⟩ := bind_eq_ok_iff.mp hparse
  obtain ⟨_, _, hparse⟩ := bind_eq_ok_iff.mp hparse
  obtain ⟨_, _, hparse⟩ := bind_eq_ok_iff.mp hparse
  obtain ⟨_, _, hparse⟩ := bind_eq_ok_iff.mp hparse
  obtain ⟨_, _, hparse⟩ := bind_eq_ok_iff.mp hparse
  obtain ⟨_, _, hparse⟩ := bind_eq_ok_iff.mp hparse
  dsimp only at hparse
  split at hparse
  · cases hparse
  · split at hparse
    · cases hparse
    · rename_i hlimit
      cases hparse
      exact not_lt.mp hlimit

/-- A payload that declares the two lengths and has as many bytes. -/
def produce_of_lengths (key_len val_len : UInt32) : Bytes :=
  le32 0 ++ (le32 key_len ++ (List.replicate key_len.toNat 0 ++ (le32 val_len ++ List.replicate val_len.toNat 0)))

theorem produce_fields_of_lengths {key_len val_len : UInt32}
    (hlimit : (key_len + val_len).toNat ≤ MAX_PAYLOAD_SIZE) :
    produce_fields (produce_of_lengths key_len val_len) =
      .ok (key_len, val_len, [], List.replicate key_len.toNat 0, List.replicate val_len.toNat 0) := by
  have hkey := key_len.toNat_lt
  have hval := val_len.toNat_lt
  have hsize : (produce_of_lengths key_len val_len).length ≤ 2 ^ 63 := by
    simp [produce_of_lengths]
    omega
  have hstart : Remaining (produce_of_lengths key_len val_len) 0 (le32 0 ++ ([] ++ (le32 key_len ++
      (List.replicate key_len.toNat 0 ++ (le32 val_len ++ (List.replicate val_len.toNat 0 ++ [])))))) := by
    simpa [produce_of_lengths] using Remaining.start (produce_of_lengths key_len val_len)
  generalize produce_of_lengths key_len val_len = buf at hsize hstart ⊢
  have hat₁ : Remaining buf (0 + 4) _ := hstart.advance
  have hat₂ := hat₁.advance
  have hat₃ : Remaining buf (0 + 4 + ([] : Bytes).length + 4) _ := hat₂.advance
  have hat₄ := hat₃.advance
  have hat₅ : Remaining buf (0 + 4 + ([] : Bytes).length + 4 + (List.replicate key_len.toNat (0 : UInt8)).length + 4) _ :=
    hat₄.advance
  refine (take_uint32_bind_iff hsize hstart _ _).mpr ⟨_, _, rfl, hat₁, ?_⟩
  refine (take_bytes_bind_iff hsize hat₁ _ _ _).mpr ⟨_, _, rfl, rfl, hat₂, ?_⟩
  refine (take_uint32_bind_iff hsize hat₂ _ _).mpr ⟨_, _, rfl, hat₃, ?_⟩
  refine (take_bytes_bind_iff hsize hat₃ _ _ _).mpr ⟨_, _, rfl, List.length_replicate, hat₄, ?_⟩
  refine (take_uint32_bind_iff hsize hat₄ _ _).mpr ⟨_, _, rfl, hat₅, ?_⟩
  refine (take_bytes_bind_iff hsize hat₅ _ _ _).mpr ⟨_, _, rfl, List.length_replicate, hat₅.advance, ?_⟩
  exact (finish_limit_iff hat₅.advance _ _ _).mpr ⟨rfl, hlimit, rfl⟩

/-- A payload that is shorter than 2^32 bytes, as all that the server reads are, cannot hold
strings whose lengths wrap. -/
theorem produce_fields_short {buf : Bytes} (hbuf : buf.length < 2 ^ 32) {key_len val_len : UInt32}
    {fields : Bytes × Bytes × Bytes} (hparse : produce_fields buf = .ok (key_len, val_len, fields)) :
    ¬ Wraps key_len val_len := by
  have hsize : buf.length ≤ 2 ^ 63 := by omega
  obtain ⟨_, _, hsplit, hat₁, hparse⟩ := (take_uint32_bind_iff hsize (.start buf) _ _).mp hparse
  obtain ⟨_, _, rfl, _, hat₂, hparse⟩ := (take_bytes_bind_iff hsize hat₁ _ _ _).mp hparse
  obtain ⟨_, _, rfl, hat₃, hparse⟩ := (take_uint32_bind_iff hsize hat₂ _ _).mp hparse
  obtain ⟨out_key, _, rfl, hkey, hat₄, hparse⟩ := (take_bytes_bind_iff hsize hat₃ _ _ _).mp hparse
  obtain ⟨_, _, rfl, hat₅, hparse⟩ := (take_uint32_bind_iff hsize hat₄ _ _).mp hparse
  obtain ⟨out_val, _, rfl, hval, hat₆, hparse⟩ := (take_bytes_bind_iff hsize hat₅ _ _ _).mp hparse
  obtain ⟨rfl, _, hfields⟩ := (finish_limit_iff hat₆ _ _ _).mp hparse
  cases hfields
  have hwhole := congrArg List.length hsplit
  simp only [List.length_append, le32_length, List.length_nil] at hwhole
  intro hwraps
  have hlarge := hwraps.1
  omega

end Request

namespace Response

/-- The part of `parse_delivery` up to its limit check, which comes before the strings: the
offset, the two declared lengths and the cursor. -/
def delivery_header (buf : Bytes) : Parse (UInt32 × UInt32 × UInt32 × Nat) := do
  let (out_offset, cursor) ← take_uint32 buf 0
  let (key_len, cursor) ← take_uint32 buf cursor
  let (val_len, cursor) ← take_uint32 buf cursor
  if out_offset ≠ SHUTDOWN_OFFSET ∧ (key_len + val_len).toNat > MAX_PAYLOAD_SIZE then .error .rejected
  else .ok (out_offset, key_len, val_len, cursor)

theorem parse_delivery_eq (buf : Bytes) : parse_delivery buf = (do
    let (out_offset, key_len, val_len, cursor) ← delivery_header buf
    let (out_key, cursor) ← take_bytes buf cursor key_len
    let (out_val, cursor) ← take_bytes buf cursor val_len
    if cursor = buf.length then .ok (out_offset, out_key, out_val) else .error .rejected) := by
  unfold parse_delivery delivery_header
  rw [bind_assoc]
  refine bind_congr fun (out_offset, cursor) => ?_
  rw [bind_assoc]
  refine bind_congr fun (key_len, cursor) => ?_
  rw [bind_assoc]
  refine bind_congr fun (val_len, cursor) => ?_
  dsimp only
  split <;> rfl

theorem delivery_header_checked {buf : Bytes} {offset key_len val_len : UInt32} {cursor : Nat}
    (hparse : delivery_header buf = .ok (offset, key_len, val_len, cursor)) (hoffset : offset ≠ SHUTDOWN_OFFSET) :
    (key_len + val_len).toNat ≤ MAX_PAYLOAD_SIZE := by
  obtain ⟨_, _, hparse⟩ := bind_eq_ok_iff.mp hparse
  obtain ⟨_, _, hparse⟩ := bind_eq_ok_iff.mp hparse
  obtain ⟨_, _, hparse⟩ := bind_eq_ok_iff.mp hparse
  dsimp only at hparse
  split at hparse
  · cases hparse
  · rename_i hlimit
    cases hparse
    exact not_lt.mp fun hover => hlimit ⟨hoffset, hover⟩

/-- A header alone, for the first message of a topic. -/
def header_of_lengths (key_len val_len : UInt32) : Bytes := le32 0 ++ (le32 key_len ++ (le32 val_len ++ []))

theorem delivery_header_of_lengths {key_len val_len : UInt32} (hlimit : (key_len + val_len).toNat ≤ MAX_PAYLOAD_SIZE) :
    delivery_header (header_of_lengths key_len val_len) = .ok (0, key_len, val_len, 12) := by
  have hsize : (header_of_lengths key_len val_len).length ≤ 2 ^ 63 := by
    simp [header_of_lengths]
  have hstart : Remaining (header_of_lengths key_len val_len) 0 (le32 0 ++ (le32 key_len ++ (le32 val_len ++ []))) :=
    Remaining.start _
  generalize header_of_lengths key_len val_len = buf at hsize hstart ⊢
  have hat₁ : Remaining buf (0 + 4) _ := hstart.advance
  have hat₂ : Remaining buf (0 + 4 + 4) _ := hat₁.advance
  have hat₃ : Remaining buf (0 + 4 + 4 + 4) _ := hat₂.advance
  refine (take_uint32_bind_iff hsize hstart _ _).mpr ⟨_, _, rfl, hat₁, ?_⟩
  refine (take_uint32_bind_iff hsize hat₁ _ _).mpr ⟨_, _, rfl, hat₂, ?_⟩
  refine (take_uint32_bind_iff hsize hat₂ _ _).mpr ⟨_, _, rfl, hat₃, ?_⟩
  dsimp only
  rw [if_neg fun hover => absurd hlimit (not_le.mpr hover.2)]

end Response

end treenity.protocol

namespace treenity.client

/-- The part of a turn of the loop up to its limit check, on the bytes in the FIFO: `none` for
a process that waits, and inside it `none` for one that returns. -/
def delivery_header (pipe : Bytes) : Option (Option (UInt32 × UInt32 × UInt32) × Bytes) :=
  if pipe.length < 12 then none
  else
    let offset := read_uint32_le pipe
    let key_len := read_uint32_le (pipe.drop 4)
    let val_len := read_uint32_le (pipe.drop 8)
    let left := pipe.drop 12
    if Response.is_shutdown offset then some (none, left)
    else if (key_len + val_len).toNat > MAX_PAYLOAD_SIZE then some (none, left)
    else some (some (offset, key_len, val_len), left)

/-- A turn is its header, and then the two strings if the header passes. -/
theorem read_delivery_eq (pipe : Bytes) : read_delivery pipe =
    match delivery_header pipe with
    | none => none
    | some (none, left) => some (none, left)
    | some (some (offset, key_len, val_len), left) =>
      if left.length < key_len.toNat + val_len.toNat then none
      else some (some ⟨offset, left.take key_len.toNat, (left.drop key_len.toNat).take val_len.toNat⟩,
        left.drop (key_len.toNat + val_len.toNat)) := by
  unfold read_delivery delivery_header
  split
  · rfl
  · dsimp only
    split
    · rfl
    · split <;> rfl

/-- What the turn resizes `message.key` to and, once the key has been read, `message.value`. -/
def resized (pipe : Bytes) : List Nat :=
  match delivery_header pipe with
  | some (some (_, key_len, val_len), left) =>
    key_len.toNat :: if left.length < key_len.toNat then [] else [val_len.toNat]
  | _ => []

theorem delivery_header_checked {pipe left : Bytes} {offset key_len val_len : UInt32}
    (hheader : delivery_header pipe = some (some (offset, key_len, val_len), left)) :
    (key_len + val_len).toNat ≤ MAX_PAYLOAD_SIZE := by
  unfold delivery_header at hheader
  split at hheader
  · cases hheader
  · dsimp only at hheader
    split at hheader
    · cases hheader
    · split at hheader
      · cases hheader
      · rename_i hlimit
        cases hheader
        exact not_lt.mp hlimit

theorem delivery_header_of_lengths {key_len val_len : UInt32} (hlimit : (key_len + val_len).toNat ≤ MAX_PAYLOAD_SIZE) :
    delivery_header (Response.header_of_lengths key_len val_len) = some (some (0, key_len, val_len), []) := by
  have hkey : read_uint32_le ((Response.header_of_lengths key_len val_len).drop 4) = key_len := by
    rw [Response.header_of_lengths, List.drop_left' (le32_length 0), read_le32_append]
  have hval : read_uint32_le ((Response.header_of_lengths key_len val_len).drop 8) = val_len := by
    rw [Response.header_of_lengths, ← List.append_assoc, List.drop_left' (by simp), read_le32_append]
  have hoffset : read_uint32_le (Response.header_of_lengths key_len val_len) = 0 := read_le32_append 0 _
  have hlength : (Response.header_of_lengths key_len val_len).length = 12 := by simp [Response.header_of_lengths]
  rw [delivery_header, if_neg (by omega)]
  simp only [hkey, hval, hoffset]
  rw [if_neg (by decide), if_neg (not_lt.mpr hlimit), List.drop_of_length_le (by omega)]

/-- The buffers of a turn hold no more than the declared lengths. -/
theorem resized_le {pipe left : Bytes} {offset key_len val_len : UInt32}
    (hheader : delivery_header pipe = some (some (offset, key_len, val_len), left)) :
    (resized pipe).sum ≤ key_len.toNat + val_len.toNat := by
  rw [resized, hheader]
  dsimp only
  split <;> simp

/-- For each pair of declared lengths: each of the three decoders goes past its limit check only
within the limit, and the subscriber sizes its buffers only within it, exactly if the
sum does not wrap. A PRODUCE payload of less than 2^32 bytes never reaches such a sum. -/
theorem limit_enforced_iff (key_len val_len : UInt32) :
    ((∀ buf fields, Request.produce_fields buf = .ok (key_len, val_len, fields) →
        key_len.toNat + val_len.toNat ≤ MAX_PAYLOAD_SIZE) ↔ ¬ Wraps key_len val_len) ∧
    ((∀ buf offset cursor, offset ≠ SHUTDOWN_OFFSET →
        Response.delivery_header buf = .ok (offset, key_len, val_len, cursor) →
        key_len.toNat + val_len.toNat ≤ MAX_PAYLOAD_SIZE) ↔ ¬ Wraps key_len val_len) ∧
    ((∀ pipe offset left, delivery_header pipe = some (some (offset, key_len, val_len), left) →
        key_len.toNat + val_len.toNat ≤ MAX_PAYLOAD_SIZE ∧ (resized pipe).sum ≤ MAX_PAYLOAD_SIZE) ↔
      ¬ Wraps key_len val_len) ∧
    ∀ buf fields, buf.length < 2 ^ 32 → Request.produce_fields buf = .ok (key_len, val_len, fields) →
      key_len.toNat + val_len.toNat ≤ MAX_PAYLOAD_SIZE := by
  refine ⟨⟨?_, ?_⟩, ⟨?_, ?_⟩, ⟨?_, ?_⟩, ?_⟩
  · intro henforced hwraps
    exact hwraps.over (henforced _ _ (Request.produce_fields_of_lengths hwraps.passes))
  · intro hno buf fields hparse
    exact within_of_checked (Request.produce_fields_checked hparse) hno
  · intro henforced hwraps
    exact hwraps.over (henforced _ 0 12 (by decide) (Response.delivery_header_of_lengths hwraps.passes))
  · intro hno buf offset cursor hoffset hparse
    exact within_of_checked (Response.delivery_header_checked hparse hoffset) hno
  · intro henforced hwraps
    exact hwraps.over (henforced _ _ _ (delivery_header_of_lengths hwraps.passes)).1
  · intro hno pipe offset left hheader
    have hwithin := within_of_checked (delivery_header_checked hheader) hno
    exact ⟨hwithin, (resized_le hheader).trans hwithin⟩
  · intro buf fields hbuf hparse
    exact within_of_checked (Request.produce_fields_checked hparse) (Request.produce_fields_short hbuf hparse)

/-- A frame that declares a key of 2^32 - 1 bytes and a value of one byte. -/
theorem limit_wrapped :
    let buf := Response.header_of_lengths 4294967295 1
    Response.delivery_header buf = .ok (0, 4294967295, 1, 12) ∧
      delivery_header buf = some (some (0, 4294967295, 1), []) ∧ resized buf = [4294967295] ∧
      MAX_PAYLOAD_SIZE < (4294967295 : UInt32).toNat + (1 : UInt32).toNat := by
  decide +kernel

end treenity.client

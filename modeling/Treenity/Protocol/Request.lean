import Treenity.Protocol.Wire

namespace treenity.protocol

/-- `Protocol::CommandType`. -/
inductive CommandType where
  | CREATE | LIST | INFO | CONNECT | PRODUCE | SUBSCRIBE | ACK | DISCONNECT
  deriving DecidableEq

/-- The underlying `uint8_t`. -/
def CommandType.code : CommandType → UInt8
  | CREATE => 1
  | LIST => 2
  | INFO => 3
  | CONNECT => 4
  | PRODUCE => 5
  | SUBSCRIBE => 6
  | ACK => 7
  | DISCONNECT => 8

/-- Why a parser did not deliver its fields: it answered `false`, or it touched
memory past the end of its buffer. -/
inductive ParseError where
  | rejected
  | out_of_bounds
  deriving DecidableEq

abbrev Parse := Except ParseError

/-- Addition of `size_t` values. -/
def size_add (a b : Nat) : Nat := (a + b) % 2 ^ 64

/-- `read_uint32_le(buf + offset)`. -/
def read_at (buf : Bytes) (offset : Nat) : Parse UInt32 :=
  if offset + 4 ≤ buf.length then .ok (read_uint32_le (buf.drop offset)) else .error .out_of_bounds

/-- `out.assign(buf + offset, count)`. -/
def assign_from (buf : Bytes) (offset count : Nat) : Parse Bytes :=
  if offset + count ≤ buf.length then .ok ((buf.drop offset).take count) else .error .out_of_bounds

/-- The step `if (offset + 4 > len) return false; x = read_uint32_le(buf + offset);
offset += 4;` that the parsers repeat. -/
def take_uint32 (buf : Bytes) (offset : Nat) : Parse (UInt32 × Nat) :=
  if size_add offset 4 > buf.length then .error .rejected
  else do
    let value ← read_at buf offset
    .ok (value, size_add offset 4)

/-- The step `if (offset + count > len) return false; out.assign(buf + offset, count);
offset += count;` that the parsers repeat. -/
def take_bytes (buf : Bytes) (offset : Nat) (count : UInt32) : Parse (Bytes × Nat) :=
  if size_add offset count.toNat > buf.length then .error .rejected
  else do
    let value ← assign_from buf offset count.toNat
    .ok (value, size_add offset count.toNat)

/-- Below the largest buffer the cursor arithmetic is exact, so the check of a
number decides the read it guards. -/
theorem take_uint32_eq {buf : Bytes} {offset : Nat} (hbuf : buf.length ≤ 2 ^ 63)
    (hoffset : offset ≤ buf.length) :
    take_uint32 buf offset =
      if offset + 4 ≤ buf.length then .ok (read_uint32_le (buf.drop offset), offset + 4)
      else .error .rejected := by
  have hexact : size_add offset 4 = offset + 4 := Nat.mod_eq_of_lt (by omega)
  unfold take_uint32 read_at
  rw [hexact]
  by_cases hfits : offset + 4 ≤ buf.length
  · rw [if_neg (by omega), if_pos hfits, if_pos hfits]
    rfl
  · rw [if_pos (by omega), if_neg hfits]

theorem take_bytes_eq {buf : Bytes} {offset : Nat} (count : UInt32) (hbuf : buf.length ≤ 2 ^ 63)
    (hoffset : offset ≤ buf.length) :
    take_bytes buf offset count =
      if offset + count.toNat ≤ buf.length then
        .ok ((buf.drop offset).take count.toNat, offset + count.toNat)
      else .error .rejected := by
  have hcount := count.toNat_lt
  have hexact : size_add offset count.toNat = offset + count.toNat := Nat.mod_eq_of_lt (by omega)
  unfold take_bytes assign_from
  rw [hexact]
  by_cases hfits : offset + count.toNat ≤ buf.length
  · rw [if_neg (by omega), if_pos hfits, if_pos hfits]
    rfl
  · rw [if_pos (by omega), if_neg hfits]

/-- The cursor `offset` has exactly `rest` left to read. -/
def Remaining (buf : Bytes) (offset : Nat) (rest : Bytes) : Prop :=
  buf.length = offset + rest.length ∧ buf.drop offset = rest

theorem Remaining.start (buf : Bytes) : Remaining buf 0 buf := ⟨by simp, rfl⟩

theorem Remaining.advance {buf field rest : Bytes} {offset : Nat}
    (hrest : Remaining buf offset (field ++ rest)) : Remaining buf (offset + field.length) rest := by
  obtain ⟨hlength, hdrop⟩ := hrest
  refine ⟨by simp at hlength; omega, ?_⟩
  rw [← List.drop_drop, hdrop, List.drop_left]

theorem Remaining.at_end_iff {buf rest : Bytes} {offset : Nat} (hrest : Remaining buf offset rest) :
    offset = buf.length ↔ rest = [] := by
  rw [hrest.1, ← List.length_eq_zero_iff]
  omega

/-- A parser step succeeds exactly when its first part does and the rest follows. -/
theorem bind_eq_ok_iff {α β : Type} {x : Parse α} {f : α → Parse β} {y : β} :
    (x >>= f) = .ok y ↔ ∃ a, x = .ok a ∧ f a = .ok y := by
  cases x <;> simp [bind, Except.bind]

/-- A parser that starts with a number succeeds exactly when four bytes are left
and it succeeds on what follows them. -/
theorem take_uint32_bind_iff {β : Type} {buf left : Bytes} {offset : Nat} (hbuf : buf.length ≤ 2 ^ 63)
    (hleft : Remaining buf offset left) (f : UInt32 × Nat → Parse β) (y : β) :
    (take_uint32 buf offset >>= f) = .ok y ↔
      ∃ value rest, left = le32 value ++ rest ∧ Remaining buf (offset + 4) rest ∧
        f (value, offset + 4) = .ok y := by
  have hlength := hleft.1
  rw [take_uint32_eq hbuf (by omega), hleft.2, bind_eq_ok_iff]
  constructor
  · rintro ⟨a, htake, hf⟩
    split at htake
    · cases htake
      have hsplit : le32 (read_uint32_le left) ++ left.drop 4 = left := le32_read_append_drop (by omega)
      exact ⟨_, _, hsplit.symm, Remaining.advance (hsplit.symm ▸ hleft), hf⟩
    · cases htake
  · rintro ⟨value, rest, rfl, _, hf⟩
    refine ⟨_, ?_, hf⟩
    rw [if_pos (by simp at hlength; omega), read_le32_append]

/-- A parser that starts with a string succeeds exactly when that many bytes are
left and it succeeds on what follows them. -/
theorem take_bytes_bind_iff {β : Type} {buf left : Bytes} {offset : Nat} (hbuf : buf.length ≤ 2 ^ 63)
    (hleft : Remaining buf offset left) (count : UInt32) (f : Bytes × Nat → Parse β) (y : β) :
    (take_bytes buf offset count >>= f) = .ok y ↔
      ∃ value rest, left = value ++ rest ∧ value.length = count.toNat ∧
        Remaining buf (offset + value.length) rest ∧ f (value, offset + value.length) = .ok y := by
  have hlength := hleft.1
  rw [take_bytes_eq count hbuf (by omega), hleft.2, bind_eq_ok_iff]
  constructor
  · rintro ⟨a, htake, hf⟩
    split at htake
    · cases htake
      have hvalue : (left.take count.toNat).length = count.toNat := by
        rw [List.length_take]
        omega
      refine ⟨_, _, (List.take_append_drop count.toNat left).symm, hvalue,
        Remaining.advance ((List.take_append_drop count.toNat left).symm ▸ hleft), ?_⟩
      rwa [hvalue]
    · cases htake
  · rintro ⟨value, rest, rfl, hvalue, _, hf⟩
    refine ⟨_, ?_, hf⟩
    rw [if_pos (by simp at hlength; omega), ← hvalue, List.take_left]

/-- A parser that ends with `return offset == len` succeeds exactly when nothing is left. -/
theorem finish_iff {β : Type} {buf left : Bytes} {offset : Nat} (hleft : Remaining buf offset left)
    (x y : β) :
    (if offset = buf.length then Except.ok x else Except.error ParseError.rejected : Parse β) = .ok y ↔
      left = [] ∧ x = y := by
  by_cases hend : offset = buf.length
  · simp [hend, hleft.at_end_iff.mp hend]
  · have hleft : left ≠ [] := fun hnil => hend (hleft.at_end_iff.mpr hnil)
    simp [hend, hleft]

/-- The same with the limit of PRODUCE, which is compared after the end of the buffer. -/
theorem finish_limit_iff {β : Type} {buf left : Bytes} {offset : Nat} (hleft : Remaining buf offset left)
    (size : UInt32) (x y : β) :
    (if offset ≠ buf.length then Except.error ParseError.rejected
      else if size.toNat > MAX_PAYLOAD_SIZE then Except.error ParseError.rejected
      else Except.ok x : Parse β) = .ok y ↔ left = [] ∧ size.toNat ≤ MAX_PAYLOAD_SIZE ∧ x = y := by
  by_cases hend : offset = buf.length
  · by_cases hlimit : size.toNat > MAX_PAYLOAD_SIZE
    · simp [hend, hlimit]
    · simp [hend, hlimit, hleft.at_end_iff.mp hend]
      omega
  · have hleft : left ≠ [] := fun hnil => hend (hleft.at_end_iff.mpr hnil)
    simp [hend, hleft]

namespace Request

def serialize_create (pid : UInt32) (topic : Bytes) : Bytes :=
  let payload_len := to_uint32 (4 + topic.length)
  let buf := write_uint32_le [CommandType.CREATE.code] payload_len
  write_uint32_le buf pid ++ topic

def serialize_list (pid : UInt32) : Bytes :=
  let buf := write_uint32_le [CommandType.LIST.code] 4
  write_uint32_le buf pid

def serialize_info (pid : UInt32) (client_id : Bytes) : Bytes :=
  let payload_len := to_uint32 (4 + client_id.length)
  let buf := write_uint32_le [CommandType.INFO.code] payload_len
  write_uint32_le buf pid ++ client_id

def serialize_connect (pid : UInt32) (topic : Bytes) : Bytes :=
  let payload_len := to_uint32 (4 + topic.length)
  let buf := write_uint32_le [CommandType.CONNECT.code] payload_len
  write_uint32_le buf pid ++ topic

def serialize_produce (topic key val : Bytes) : Bytes :=
  let payload_len := to_uint32 (12 + topic.length + key.length + val.length)
  let buf := write_uint32_le [CommandType.PRODUCE.code] payload_len
  let buf := write_uint32_le buf (to_uint32 topic.length) ++ topic
  let buf := write_uint32_le buf (to_uint32 key.length) ++ key
  write_uint32_le buf (to_uint32 val.length) ++ val

def serialize_subscribe (pid : UInt32) (client_id topic pref : Bytes) (offset : UInt32) : Bytes :=
  let payload_len := to_uint32 (20 + client_id.length + topic.length + pref.length)
  let buf := write_uint32_le [CommandType.SUBSCRIBE.code] payload_len
  let buf := write_uint32_le buf pid
  let buf := write_uint32_le buf (to_uint32 client_id.length) ++ client_id
  let buf := write_uint32_le buf (to_uint32 topic.length) ++ topic
  let buf := write_uint32_le buf (to_uint32 pref.length) ++ pref
  write_uint32_le buf offset

def serialize_ack (client_id : Bytes) (next_offset : UInt32) : Bytes :=
  let payload_len := to_uint32 (8 + client_id.length)
  let buf := write_uint32_le [CommandType.ACK.code] payload_len
  let buf := write_uint32_le buf (to_uint32 client_id.length) ++ client_id
  write_uint32_le buf next_offset

def serialize_disconnect (client_id : Bytes) : Bytes :=
  let payload_len := to_uint32 (4 + client_id.length)
  let buf := write_uint32_le [CommandType.DISCONNECT.code] payload_len
  write_uint32_le buf (to_uint32 client_id.length) ++ client_id

/-- The body CREATE, INFO and CONNECT share: a pid, then a name up to the end. -/
def parse_pid_and_rest (buf : Bytes) : Parse (UInt32 × Bytes) :=
  if buf.length < 4 then .error .rejected
  else do
    let out_pid ← read_at buf 0
    let out_rest ← assign_from buf 4 (buf.length - 4)
    .ok (out_pid, out_rest)

def parse_create (buf : Bytes) : Parse (UInt32 × Bytes) := parse_pid_and_rest buf

def parse_list (buf : Bytes) : Parse UInt32 :=
  if buf.length ≠ 4 then .error .rejected else read_at buf 0

def parse_info (buf : Bytes) : Parse (UInt32 × Bytes) := parse_pid_and_rest buf

def parse_connect (buf : Bytes) : Parse (UInt32 × Bytes) := parse_pid_and_rest buf

/-- The fields `out_topic`, `out_key` and `out_val`. The limit is checked last and
on the sum in `uint32_t`. -/
def parse_produce (buf : Bytes) : Parse (Bytes × Bytes × Bytes) := do
  let (topic_len, offset) ← take_uint32 buf 0
  let (out_topic, offset) ← take_bytes buf offset topic_len
  let (key_len, offset) ← take_uint32 buf offset
  let (out_key, offset) ← take_bytes buf offset key_len
  let (val_len, offset) ← take_uint32 buf offset
  let (out_val, offset) ← take_bytes buf offset val_len
  if offset ≠ buf.length then .error .rejected
  else if (key_len + val_len).toNat > MAX_PAYLOAD_SIZE then .error .rejected
  else .ok (out_topic, out_key, out_val)

/-- The fields of a SUBSCRIBE request, in the order of the output parameters. -/
structure Subscribe where
  pid : UInt32
  client_id : Bytes
  topic : Bytes
  pref : Bytes
  offset : UInt32
  deriving DecidableEq

def parse_subscribe (buf : Bytes) : Parse Subscribe := do
  let (out_pid, offset) ← take_uint32 buf 0
  let (id_len, offset) ← take_uint32 buf offset
  let (out_client_id, offset) ← take_bytes buf offset id_len
  let (topic_len, offset) ← take_uint32 buf offset
  let (out_topic, offset) ← take_bytes buf offset topic_len
  let (pref_len, offset) ← take_uint32 buf offset
  let (out_pref, offset) ← take_bytes buf offset pref_len
  let (out_offset, offset) ← take_uint32 buf offset
  if offset = buf.length then .ok ⟨out_pid, out_client_id, out_topic, out_pref, out_offset⟩
  else .error .rejected

def parse_ack (buf : Bytes) : Parse (Bytes × UInt32) := do
  let (id_len, offset) ← take_uint32 buf 0
  let (out_client_id, offset) ← take_bytes buf offset id_len
  let (out_next_offset, offset) ← take_uint32 buf offset
  if offset = buf.length then .ok (out_client_id, out_next_offset) else .error .rejected

def parse_disconnect (buf : Bytes) : Parse Bytes := do
  let (id_len, offset) ← take_uint32 buf 0
  let (out_client_id, offset) ← take_bytes buf offset id_len
  if offset = buf.length then .ok out_client_id else .error .rejected

end Request

end treenity.protocol

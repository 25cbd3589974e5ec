import Treenity.Protocol.Request

namespace treenity.protocol

/-- A request on the wire: the action byte, the length of the payload, the payload. -/
def frame (action : UInt8) (payload : Bytes) : Bytes :=
  action :: (le32 (to_uint32 payload.length) ++ payload)

@[simp] theorem frame_length (action : UInt8) (payload : Bytes) :
    (frame action payload).length = 5 + payload.length := by
  simp [frame]
  omega

namespace Request

def named_payload (pid : UInt32) (name : Bytes) : Bytes := le32 pid ++ name

def produce_payload (topic key val : Bytes) : Bytes :=
  le32 (to_uint32 topic.length) ++ topic ++ le32 (to_uint32 key.length) ++ key ++
    le32 (to_uint32 val.length) ++ val

def subscribe_payload (request : Subscribe) : Bytes :=
  le32 request.pid ++ le32 (to_uint32 request.client_id.length) ++ request.client_id ++
    le32 (to_uint32 request.topic.length) ++ request.topic ++
    le32 (to_uint32 request.pref.length) ++ request.pref ++ le32 request.offset

def ack_payload (client_id : Bytes) (next_offset : UInt32) : Bytes :=
  le32 (to_uint32 client_id.length) ++ client_id ++ le32 next_offset

def disconnect_payload (client_id : Bytes) : Bytes :=
  le32 (to_uint32 client_id.length) ++ client_id

theorem serialize_create_eq (pid : UInt32) (topic : Bytes) :
    serialize_create pid topic = frame CommandType.CREATE.code (named_payload pid topic) := by
  simp [serialize_create, frame, named_payload, write_uint32_le_eq]

theorem serialize_list_eq (pid : UInt32) :
    serialize_list pid = frame CommandType.LIST.code (le32 pid) := by
  simp [serialize_list, frame, write_uint32_le_eq]
  rfl

theorem serialize_info_eq (pid : UInt32) (client_id : Bytes) :
    serialize_info pid client_id = frame CommandType.INFO.code (named_payload pid client_id) := by
  simp [serialize_info, frame, named_payload, write_uint32_le_eq]

theorem serialize_connect_eq (pid : UInt32) (topic : Bytes) :
    serialize_connect pid topic = frame CommandType.CONNECT.code (named_payload pid topic) := by
  simp [serialize_connect, frame, named_payload, write_uint32_le_eq]

theorem serialize_produce_eq (topic key val : Bytes) :
    serialize_produce topic key val = frame CommandType.PRODUCE.code (produce_payload topic key val) := by
  have hlength : (produce_payload topic key val).length = 12 + topic.length + key.length + val.length := by
    simp [produce_payload]
    omega
  rw [frame, hlength]
  simp [serialize_produce, produce_payload, write_uint32_le_eq]

theorem subscribe_payload_length (request : Subscribe) :
    (subscribe_payload request).length =
      20 + request.client_id.length + request.topic.length + request.pref.length := by
  simp [subscribe_payload]
  omega

theorem serialize_subscribe_eq (pid : UInt32) (client_id topic pref : Bytes) (offset : UInt32) :
    serialize_subscribe pid client_id topic pref offset =
      frame CommandType.SUBSCRIBE.code (subscribe_payload ⟨pid, client_id, topic, pref, offset⟩) := by
  rw [frame, subscribe_payload_length]
  simp [serialize_subscribe, subscribe_payload, write_uint32_le_eq]

theorem serialize_ack_eq (client_id : Bytes) (next_offset : UInt32) :
    serialize_ack client_id next_offset = frame CommandType.ACK.code (ack_payload client_id next_offset) := by
  have hlength : (ack_payload client_id next_offset).length = 8 + client_id.length := by
    simp [ack_payload]
    omega
  rw [frame, hlength]
  simp [serialize_ack, ack_payload, write_uint32_le_eq]

theorem serialize_disconnect_eq (client_id : Bytes) :
    serialize_disconnect client_id = frame CommandType.DISCONNECT.code (disconnect_payload client_id) := by
  simp [serialize_disconnect, frame, disconnect_payload, write_uint32_le_eq]

/-- `parse_disconnect` accepts exactly the payloads that carry one name. -/
theorem parse_disconnect_iff {buf : Bytes} (hbuf : buf.length ≤ 2 ^ 63) (client_id : Bytes) :
    parse_disconnect buf = .ok client_id ↔
      buf = disconnect_payload client_id ∧ client_id.length < 2 ^ 32 := by
  rw [parse_disconnect, take_uint32_bind_iff hbuf (.start buf)]
  constructor
  · rintro ⟨id_len, rest₁, hsplit, hat₁, hparse⟩
    obtain ⟨name, rest₂, rfl, hname, hat₂, hparse⟩ := (take_bytes_bind_iff hbuf hat₁ _ _ _).mp hparse
    obtain ⟨rfl, rfl⟩ := (finish_iff hat₂ _ _).mp hparse
    rw [List.append_nil, eq_to_uint32 hname] at hsplit
    exact ⟨hsplit, hname ▸ id_len.toNat_lt⟩
  · rintro ⟨hsplit, hid⟩
    have hat₀ : Remaining buf 0 (le32 (to_uint32 client_id.length) ++ (client_id ++ [])) := by
      simpa [disconnect_payload, hsplit] using Remaining.start buf
    have hat₁ : Remaining buf (0 + 4) (client_id ++ []) := hat₀.advance
    refine ⟨_, _, by rw [hsplit, disconnect_payload, List.append_nil], hat₁, ?_⟩
    exact (take_bytes_bind_iff hbuf hat₁ _ _ _).mpr
      ⟨client_id, [], rfl, (to_uint32_toNat hid).symm, hat₁.advance, (finish_iff hat₁.advance _ _).mpr ⟨rfl, rfl⟩⟩

/-- `parse_ack` accepts exactly the payloads that carry one name and one offset. -/
theorem parse_ack_iff {buf : Bytes} (hbuf : buf.length ≤ 2 ^ 63) (client_id : Bytes) (next_offset : UInt32) :
    parse_ack buf = .ok (client_id, next_offset) ↔
      buf = ack_payload client_id next_offset ∧ client_id.length < 2 ^ 32 := by
  rw [parse_ack, take_uint32_bind_iff hbuf (.start buf)]
  constructor
  · rintro ⟨id_len, rest₁, hsplit, hat₁, hparse⟩
    obtain ⟨name, rest₂, rfl, hname, hat₂, hparse⟩ := (take_bytes_bind_iff hbuf hat₁ _ _ _).mp hparse
    obtain ⟨offset, rest₃, rfl, hat₃, hparse⟩ := (take_uint32_bind_iff hbuf hat₂ _ _).mp hparse
    obtain ⟨rfl, hfields⟩ := (finish_iff hat₃ _ _).mp hparse
    obtain ⟨rfl, rfl⟩ := Prod.mk.inj hfields
    rw [List.append_nil, eq_to_uint32 hname, ← List.append_assoc] at hsplit
    exact ⟨hsplit, hname ▸ id_len.toNat_lt⟩
  · rintro ⟨hsplit, hid⟩
    have hat₀ : Remaining buf 0 (le32 (to_uint32 client_id.length) ++
        (client_id ++ (le32 next_offset ++ []))) := by
      simpa [ack_payload, hsplit] using Remaining.start buf
    have hat₁ : Remaining buf (0 + 4) (client_id ++ (le32 next_offset ++ [])) := hat₀.advance
    have hat₂ := hat₁.advance
    have hat₃ : Remaining buf (0 + 4 + client_id.length + 4) [] := hat₂.advance
    refine ⟨to_uint32 client_id.length, _, by simp [hsplit, ack_payload], hat₁, ?_⟩
    refine (take_bytes_bind_iff hbuf hat₁ _ _ _).mpr ⟨client_id, _, rfl, (to_uint32_toNat hid).symm, hat₂, ?_⟩
    exact (take_uint32_bind_iff hbuf hat₂ _ _).mpr
      ⟨next_offset, [], rfl, hat₃, (finish_iff hat₃ _ _).mpr ⟨rfl, rfl⟩⟩

/-- `parse_subscribe` accepts exactly the payloads of SUBSCRIBE requests. -/
theorem parse_subscribe_iff {buf : Bytes} (hbuf : buf.length ≤ 2 ^ 63) (request : Subscribe) :
    parse_subscribe buf = .ok request ↔
      buf = subscribe_payload request ∧ request.client_id.length < 2 ^ 32 ∧
        request.topic.length < 2 ^ 32 ∧ request.pref.length < 2 ^ 32 := by
  obtain ⟨pid, client_id, topic, pref, offset⟩ := request
  rw [parse_subscribe, take_uint32_bind_iff hbuf (.start buf)]
  constructor
  · rintro ⟨out_pid, rest₀, hsplit, hat₀, hparse⟩
    obtain ⟨id_len, rest₁, rfl, hat₁, hparse⟩ := (take_uint32_bind_iff hbuf hat₀ _ _).mp hparse
    obtain ⟨out_id, rest₂, rfl, hid, hat₂, hparse⟩ := (take_bytes_bind_iff hbuf hat₁ _ _ _).mp hparse
    obtain ⟨topic_len, rest₃, rfl, hat₃, hparse⟩ := (take_uint32_bind_iff hbuf hat₂ _ _).mp hparse
    obtain ⟨out_topic, rest₄, rfl, htopic, hat₄, hparse⟩ := (take_bytes_bind_iff hbuf hat₃ _ _ _).mp hparse
    obtain ⟨pref_len, rest₅, rfl, hat₅, hparse⟩ := (take_uint32_bind_iff hbuf hat₄ _ _).mp hparse
    obtain ⟨out_pref, rest₆, rfl, hpref, hat₆, hparse⟩ := (take_bytes_bind_iff hbuf hat₅ _ _ _).mp hparse
    obtain ⟨out_offset, rest₇, rfl, hat₇, hparse⟩ := (take_uint32_bind_iff hbuf hat₆ _ _).mp hparse
    obtain ⟨rfl, hfields⟩ := (finish_iff hat₇ _ _).mp hparse
    cases hfields
    rw [eq_to_uint32 hid, eq_to_uint32 htopic, eq_to_uint32 hpref] at hsplit
    exact ⟨by simp [hsplit, subscribe_payload], hid ▸ id_len.toNat_lt, htopic ▸ topic_len.toNat_lt,
      hpref ▸ pref_len.toNat_lt⟩
  · rintro ⟨hsplit, hid, htopic, hpref⟩
    have hstart : Remaining buf 0 (le32 pid ++ (le32 (to_uint32 client_id.length) ++ (client_id ++
        (le32 (to_uint32 topic.length) ++ (topic ++ (le32 (to_uint32 pref.length) ++
          (pref ++ (le32 offset ++ [])))))))) := by
      simpa [subscribe_payload, hsplit] using Remaining.start buf
    have hat₀ : Remaining buf (0 + 4) _ := hstart.advance
    have hat₁ : Remaining buf (0 + 4 + 4) _ := hat₀.advance
    have hat₃ : Remaining buf (0 + 4 + 4 + client_id.length + 4) _ := hat₁.advance.advance
    have hat₅ : Remaining buf (0 + 4 + 4 + client_id.length + 4 + topic.length + 4) _ := hat₃.advance.advance
    have hat₇ : Remaining buf (0 + 4 + 4 + client_id.length + 4 + topic.length + 4 + pref.length + 4) [] :=
      hat₅.advance.advance
    refine ⟨pid, _, by simp [hsplit, subscribe_payload], hat₀, ?_⟩
    refine (take_uint32_bind_iff hbuf hat₀ _ _).mpr ⟨_, _, rfl, hat₁, ?_⟩
    refine (take_bytes_bind_iff hbuf hat₁ _ _ _).mpr ⟨_, _, rfl, (to_uint32_toNat hid).symm, hat₁.advance, ?_⟩
    refine (take_uint32_bind_iff hbuf hat₁.advance _ _).mpr ⟨_, _, rfl, hat₃, ?_⟩
    refine (take_bytes_bind_iff hbuf hat₃ _ _ _).mpr ⟨_, _, rfl, (to_uint32_toNat htopic).symm, hat₃.advance, ?_⟩
    refine (take_uint32_bind_iff hbuf hat₃.advance _ _).mpr ⟨_, _, rfl, hat₅, ?_⟩
    refine (take_bytes_bind_iff hbuf hat₅ _ _ _).mpr ⟨_, _, rfl, (to_uint32_toNat hpref).symm, hat₅.advance, ?_⟩
    exact (take_uint32_bind_iff hbuf hat₅.advance _ _).mpr
      ⟨offset, [], rfl, hat₇, (finish_iff hat₇ _ _).mpr ⟨rfl, rfl⟩⟩

/-- `parse_produce` accepts exactly the payloads of PRODUCE requests that keep to the
limit. All three fields lie in a payload whose length fits in 32 bits, so the
sum it compares cannot wrap. -/
theorem parse_produce_iff {buf : Bytes} (hbuf : buf.length < 2 ^ 32) (topic key val : Bytes) :
    parse_produce buf = .ok (topic, key, val) ↔
      buf = produce_payload topic key val ∧ key.length + val.length ≤ MAX_PAYLOAD_SIZE := by
  have hsize : buf.length ≤ 2 ^ 63 := by omega
  have hlength : (produce_payload topic key val).length = 12 + topic.length + key.length + val.length := by
    simp [produce_payload]
    omega
  rw [parse_produce, take_uint32_bind_iff hsize (.start buf)]
  constructor
  · rintro ⟨topic_len, rest₁, hsplit, hat₁, hparse⟩
    obtain ⟨out_topic, rest₂, rfl, htopic, hat₂, hparse⟩ := (take_bytes_bind_iff hsize hat₁ _ _ _).mp hparse
    obtain ⟨key_len, rest₃, rfl, hat₃, hparse⟩ := (take_uint32_bind_iff hsize hat₂ _ _).mp hparse
    obtain ⟨out_key, rest₄, rfl, hkey, hat₄, hparse⟩ := (take_bytes_bind_iff hsize hat₃ _ _ _).mp hparse
    obtain ⟨val_len, rest₅, rfl, hat₅, hparse⟩ := (take_uint32_bind_iff hsize hat₄ _ _).mp hparse
    obtain ⟨out_val, rest₆, rfl, hval, hat₆, hparse⟩ := (take_bytes_bind_iff hsize hat₅ _ _ _).mp hparse
    obtain ⟨rfl, hlimit, hfields⟩ := (finish_limit_iff hat₆ _ _ _).mp hparse
    cases hfields
    have hwhole := congrArg List.length hsplit
    simp only [List.length_append, le32_length, List.length_nil] at hwhole
    rw [UInt32.toNat_add, ← hkey, ← hval, Nat.mod_eq_of_lt (by omega)] at hlimit
    rw [eq_to_uint32 htopic, eq_to_uint32 hkey, eq_to_uint32 hval] at hsplit
    exact ⟨by simp [hsplit, produce_payload], hlimit⟩
  · rintro ⟨hsplit, hlimit⟩
    have hwhole : buf.length = 12 + topic.length + key.length + val.length := by rw [hsplit, hlength]
    have htopic : (to_uint32 topic.length).toNat = topic.length := to_uint32_toNat (by omega)
    have hkey : (to_uint32 key.length).toNat = key.length := to_uint32_toNat (by omega)
    have hval : (to_uint32 val.length).toNat = val.length := to_uint32_toNat (by omega)
    have hstart : Remaining buf 0 (le32 (to_uint32 topic.length) ++ (topic ++ (le32 (to_uint32 key.length) ++
        (key ++ (le32 (to_uint32 val.length) ++ (val ++ [])))))) := by
      simpa [produce_payload, hsplit] using Remaining.start buf
    have hat₁ : Remaining buf (0 + 4) _ := hstart.advance
    have hat₃ : Remaining buf (0 + 4 + topic.length + 4) _ := hat₁.advance.advance
    have hat₅ : Remaining buf (0 + 4 + topic.length + 4 + key.length + 4) _ := hat₃.advance.advance
    have hsum : (to_uint32 key.length + to_uint32 val.length).toNat ≤ MAX_PAYLOAD_SIZE := by
      rw [UInt32.toNat_add, hkey, hval, Nat.mod_eq_of_lt (by omega)]
      exact hlimit
    refine ⟨to_uint32 topic.length, _, by simp [hsplit, produce_payload], hat₁, ?_⟩
    refine (take_bytes_bind_iff hsize hat₁ _ _ _).mpr ⟨_, _, rfl, htopic.symm, hat₁.advance, ?_⟩
    refine (take_uint32_bind_iff hsize hat₁.advance _ _).mpr ⟨_, _, rfl, hat₃, ?_⟩
    refine (take_bytes_bind_iff hsize hat₃ _ _ _).mpr ⟨_, _, rfl, hkey.symm, hat₃.advance, ?_⟩
    refine (take_uint32_bind_iff hsize hat₃.advance _ _).mpr ⟨_, _, rfl, hat₅, ?_⟩
    refine (take_bytes_bind_iff hsize hat₅ _ _ _).mpr ⟨_, _, rfl, hval.symm, hat₅.advance, ?_⟩
    exact (finish_limit_iff hat₅.advance _ _ _).mpr ⟨rfl, hsum, rfl⟩

/-- CREATE, INFO and CONNECT accept every payload with room for a pid. -/
theorem parse_pid_and_rest_iff {buf : Bytes} (pid : UInt32) (name : Bytes) :
    parse_pid_and_rest buf = .ok (pid, name) ↔ buf = named_payload pid name := by
  rw [parse_pid_and_rest, named_payload]
  by_cases hshort : buf.length < 4
  · rw [if_pos hshort]
    constructor
    · intro hparse
      cases hparse
    · rintro rfl
      rw [List.length_append, le32_length] at hshort
      omega
  · have htake : (buf.drop 4).take (buf.length - 4) = buf.drop 4 := List.take_of_length_le (by simp)
    have hparse : (do
        let out_pid ← read_at buf 0
        let out_rest ← assign_from buf 4 (buf.length - 4)
        Except.ok (out_pid, out_rest) : Parse _) = .ok (read_uint32_le buf, buf.drop 4) := by
      rw [read_at, assign_from, if_pos (by omega), if_pos (by omega), htake]
      rfl
    rw [if_neg hshort, hparse]
    constructor
    · intro hfields
      cases hfields
      exact (le32_read_append_drop (by omega)).symm
    · rintro rfl
      rw [read_le32_append, List.drop_left' (le32_length pid)]

/-- LIST accepts exactly a pid. -/
theorem parse_list_iff {buf : Bytes} (pid : UInt32) : parse_list buf = .ok pid ↔ buf = le32 pid := by
  rw [parse_list]
  by_cases hlength : buf.length = 4
  · have hread : le32 (read_uint32_le buf) = buf := by
      have hsplit := le32_read_append_drop (show 4 ≤ buf.length by omega)
      rwa [List.drop_of_length_le (by omega), List.append_nil] at hsplit
    rw [if_neg (by omega), read_at, if_pos (by omega), List.drop_zero]
    constructor
    · intro hfields
      cases hfields
      exact hread.symm
    · rintro rfl
      have hpid := read_le32_append pid []
      rw [List.append_nil] at hpid
      rw [hpid]
  · rw [if_pos hlength]
    constructor
    · intro hparse
      cases hparse
    · rintro rfl
      exact absurd (le32_length pid) hlength

end Request

end treenity.protocol

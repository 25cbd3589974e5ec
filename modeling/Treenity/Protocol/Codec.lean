import Treenity.Protocol.Frame

namespace treenity.protocol

/-- A frame determines its payload. -/
theorem frame_inj {action : UInt8} {payload payload' : Bytes} :
    frame action payload = frame action payload' ↔ payload = payload' := by
  constructor
  · intro hframe
    have hlength := congrArg List.length hframe
    rw [frame_length, frame_length] at hlength
    have htail := List.append_inj_right' (List.cons.inj hframe).2 (by omega)
    exact htail
  · rintro rfl
    rfl

namespace Request

/-- The eight decoders are the inverses of the eight encoders: on a payload whose length
fits the header, a decoder delivers some fields exactly when their encoding is the
header of that kind and length followed by that payload. -/
theorem parse_iff_serialize {payload : Bytes} (hpayload : payload.length < 2 ^ 32) :
    (∀ pid topic, parse_create payload = .ok (pid, topic) ↔
      serialize_create pid topic = frame CommandType.CREATE.code payload) ∧
    (∀ pid, parse_list payload = .ok pid ↔ serialize_list pid = frame CommandType.LIST.code payload) ∧
    (∀ pid client_id, parse_info payload = .ok (pid, client_id) ↔
      serialize_info pid client_id = frame CommandType.INFO.code payload) ∧
    (∀ pid topic, parse_connect payload = .ok (pid, topic) ↔
      serialize_connect pid topic = frame CommandType.CONNECT.code payload) ∧
    (∀ topic key val, parse_produce payload = .ok (topic, key, val) ↔
      serialize_produce topic key val = frame CommandType.PRODUCE.code payload ∧
        key.length + val.length ≤ MAX_PAYLOAD_SIZE) ∧
    (∀ pid client_id topic pref offset,
      parse_subscribe payload = .ok ⟨pid, client_id, topic, pref, offset⟩ ↔
        serialize_subscribe pid client_id topic pref offset = frame CommandType.SUBSCRIBE.code payload) ∧
    (∀ client_id next_offset, parse_ack payload = .ok (client_id, next_offset) ↔
      serialize_ack client_id next_offset = frame CommandType.ACK.code payload) ∧
    (∀ client_id, parse_disconnect payload = .ok client_id ↔
      serialize_disconnect client_id = frame CommandType.DISCONNECT.code payload) := by
  have hsize : payload.length ≤ 2 ^ 63 := by omega
  refine ⟨?_, ?_, ?_, ?_, ?_, ?_, ?_, ?_⟩
  · intro pid topic
    rw [serialize_create_eq, frame_inj, parse_create, parse_pid_and_rest_iff]
    exact eq_comm
  · intro pid
    rw [serialize_list_eq, frame_inj, parse_list_iff]
    exact eq_comm
  · intro pid client_id
    rw [serialize_info_eq, frame_inj, parse_info, parse_pid_and_rest_iff]
    exact eq_comm
  · intro pid topic
    rw [serialize_connect_eq, frame_inj, parse_connect, parse_pid_and_rest_iff]
    exact eq_comm
  · intro topic key val
    rw [serialize_produce_eq, frame_inj, parse_produce_iff hpayload, eq_comm]
  · intro pid client_id topic pref offset
    rw [serialize_subscribe_eq, frame_inj, parse_subscribe_iff hsize, eq_comm]
    -- Fields that lie in the payload are shorter than it.
    apply and_iff_left_of_imp
    rintro rfl
    have hlength := subscribe_payload_length ⟨pid, client_id, topic, pref, offset⟩
    exact ⟨by omega, by omega, by omega⟩
  · intro client_id next_offset
    rw [serialize_ack_eq, frame_inj, parse_ack_iff hsize, eq_comm]
    apply and_iff_left_of_imp
    rintro rfl
    have hlength : (ack_payload client_id next_offset).length = 8 + client_id.length := by
      simp [ack_payload]
      omega
    omega
  · intro client_id
    rw [serialize_disconnect_eq, frame_inj, parse_disconnect_iff hsize, eq_comm]
    apply and_iff_left_of_imp
    rintro rfl
    have hlength : (disconnect_payload client_id).length = 4 + client_id.length := by
      simp [disconnect_payload]
    omega

/-- Read at the payload of a PRODUCE request for `t` with key `k` and value `v`. -/
theorem parse_iff_serialize_produce :
    parse_produce (produce_payload [116] [107] [118]) = .ok ([116], [107], [118]) :=
  ((parse_iff_serialize (by decide)).2.2.2.2.1 _ _ _).mpr ⟨by decide, by decide⟩

end Request

end treenity.protocol

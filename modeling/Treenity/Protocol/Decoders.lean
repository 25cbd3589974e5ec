import Treenity.Protocol.Delivery

namespace treenity.protocol

/-- `buf[index]`. -/
def byte_at (buf : Bytes) (index : Nat) : Parse UInt8 :=
  if index < buf.length then .ok (buf.getD index 0) else .error .out_of_bounds

namespace Response

/-- The fields `out_status` and `out_payload`. The status is the byte as it came: the cast to
`StatusCode` keeps one that is not declared. -/
def parse_response (buf : Bytes) : Parse (UInt8 × Bytes) :=
  if buf.length < 5 then .error .rejected
  else do
    let out_status ← byte_at buf 0
    let payload_len ← read_at buf 1
    if buf.length - 5 ≠ payload_len.toNat then .error .rejected
    else do
      let out_payload ← assign_from buf 5 payload_len.toNat
      .ok (out_status, out_payload)

/-- A buffer that holds a header is rejected for its declared length or else accepted. -/
theorem parse_response_eq {buf : Bytes} (hbuf : 5 ≤ buf.length) :
    parse_response buf =
      if buf.length - 5 = (read_uint32_le (buf.drop 1)).toNat then .ok (buf.getD 0 0, buf.drop 5)
      else .error .rejected := by
  have hstatus : byte_at buf 0 = .ok (buf.getD 0 0) := if_pos (by omega)
  have hheader : read_at buf 1 = .ok (read_uint32_le (buf.drop 1)) := if_pos hbuf
  rw [parse_response, if_neg (not_lt.mpr hbuf), hstatus, hheader]
  by_cases hlen : buf.length - 5 = (read_uint32_le (buf.drop 1)).toNat
  · have hpayload : assign_from buf 5 (read_uint32_le (buf.drop 1)).toNat = .ok (buf.drop 5) := by
      rw [assign_from, if_pos (by omega), List.take_of_length_le (by rw [List.length_drop]; omega)]
    rw [if_pos hlen]
    show (if _ then _ else _) = _
    rw [if_neg (not_not_intro hlen), hpayload]
    rfl
  · rw [if_neg hlen]
    exact if_pos hlen

theorem parse_response_iff {buf : Bytes} (hbuf : 5 ≤ buf.length) (status : UInt8) (payload : Bytes) :
    parse_response buf = .ok (status, payload) ↔
      buf.length - 5 = (read_uint32_le (buf.drop 1)).toNat ∧ buf.getD 0 0 = status ∧ buf.drop 5 = payload := by
  rw [parse_response_eq hbuf]
  split
  · rename_i hlen
    simp [hlen]
  · rename_i hlen
    exact ⟨nofun, fun hparts => absurd hparts.1 hlen⟩

/-- The header decoder sees nothing of a buffer but the five bytes of the header. -/
theorem parse_response_header_take {buf : Bytes} (hbuf : 5 ≤ buf.length) :
    parse_response_header (buf.take 5) =
      if buf.getD 0 0 > 3 then none
      else some ⟨StatusCode.of_code (buf.getD 0 0), read_uint32_le (buf.drop 1)⟩ := by
  obtain _ | ⟨status, _ | ⟨b₀, _ | ⟨b₁, _ | ⟨b₂, _ | ⟨b₃, rest⟩⟩⟩⟩⟩ := buf <;> simp at hbuf
  rfl

theorem StatusCode.code_of_code {code : UInt8} (hcode : ¬code > 3) : (StatusCode.of_code code).code = code := by
  have hle : code.toNat ≤ 3 := by simpa [UInt8.lt_iff_toNat_lt] using hcode
  unfold StatusCode.of_code
  split
  · simp_all [StatusCode.code]
  · split
    · simp_all [StatusCode.code]
    · split
      · simp_all [StatusCode.code]
      · rename_i hzero hone htwo
        rw [StatusCode.code]
        grind

/-- The header decoder accepts the first five bytes, with this status and with the length of
the rest, and the rest is the payload. -/
def HeaderAccepts (buf : Bytes) (status : UInt8) (payload : Bytes) : Prop :=
  ∃ header, parse_response_header (buf.take 5) = some header ∧ header.status_code.code = status ∧
    header.payload_len.toNat = buf.length - 5 ∧ payload = buf.drop 5

/-- What the two decoders should have in common on a buffer. -/
structure DecodersAgree (buf : Bytes) : Prop where
  accept : ∀ status payload, parse_response buf = .ok (status, payload) ↔ HeaderAccepts buf status payload
  encoded : ∀ status payload, parse_response buf = .ok (status, payload) →
    ∃ declared : StatusCode, declared.code = status ∧ buf = serialize_response declared payload

/-- A buffer with a declared status whose length is right is the encoding of its parts. -/
theorem serialize_response_parts {buf : Bytes} (hbuf : 5 ≤ buf.length) (hstatus : ¬buf.getD 0 0 > 3)
    (hlen : buf.length - 5 = (read_uint32_le (buf.drop 1)).toNat) :
    buf = serialize_response (StatusCode.of_code (buf.getD 0 0)) (buf.drop 5) := by
  have hpayload : (buf.drop 5).length = (read_uint32_le (buf.drop 1)).toNat := by rw [List.length_drop, hlen]
  have hrest : le32 (read_uint32_le (buf.drop 1)) ++ (buf.drop 1).drop 4 = buf.drop 1 :=
    le32_read_append_drop (by rw [List.length_drop]; omega)
  rw [serialize_response, ← eq_to_uint32 hpayload, StatusCode.code_of_code hstatus, write_uint32_le_eq,
    List.append_assoc, List.singleton_append]
  rw [List.drop_drop] at hrest
  rw [hrest]
  cases buf with
  | nil => simp at hbuf
  | cons status rest => rfl

/-- The two decoders agree on a buffer unless its status byte is not declared and its length
is right: `parse_response` lacks the check of the status that `parse_response_header` has. -/
theorem decoders_agree_iff {buf : Bytes} (hbuf : 5 ≤ buf.length) :
    DecodersAgree buf ↔
      buf.getD 0 0 ≤ 3 ∨ (read_uint32_le (buf.drop 1)).toNat ≠ buf.length - 5 := by
  constructor
  · intro hagree
    by_contra hneither
    simp only [not_or, UInt8.not_le, not_not] at hneither
    obtain ⟨hstatus, hlen⟩ := hneither
    obtain ⟨header, hheader, _⟩ :=
      (hagree.accept _ _).mp ((parse_response_iff hbuf _ _).mpr ⟨hlen.symm, rfl, rfl⟩)
    rw [parse_response_header_take hbuf, if_pos hstatus] at hheader
    cases hheader
  · intro hcondition
    have hdeclared : buf.length - 5 = (read_uint32_le (buf.drop 1)).toNat → ¬buf.getD 0 0 > 3 := by
      intro hlen
      rcases hcondition with hstatus | hother
      · exact UInt8.not_lt.mpr hstatus
      · exact absurd hlen.symm hother
    refine ⟨fun status payload => ?_, fun status payload hparse => ?_⟩
    · rw [parse_response_iff hbuf, HeaderAccepts, parse_response_header_take hbuf]
      constructor
      · rintro ⟨hlen, hstatus, hpayload⟩
        refine ⟨_, if_neg (hdeclared hlen), ?_, hlen.symm, hpayload.symm⟩
        exact (StatusCode.code_of_code (hdeclared hlen)).trans hstatus
      · rintro ⟨header, hheader, hstatus, hlen, hpayload⟩
        split at hheader
        · cases hheader
        · rename_i hcode
          obtain rfl := Option.some.inj hheader
          exact ⟨hlen.symm, (StatusCode.code_of_code hcode).symm.trans hstatus, hpayload.symm⟩
    · obtain ⟨hlen, rfl, rfl⟩ := (parse_response_iff hbuf _ _).mp hparse
      exact ⟨_, StatusCode.code_of_code (hdeclared hlen), serialize_response_parts hbuf (hdeclared hlen) hlen⟩

/-- A status byte of 4 with no payload: one decoder accepts it and the other does not. -/
theorem decoders_disagree :
    parse_response [4, 0, 0, 0, 0] = .ok (4, []) ∧ parse_response_header [4, 0, 0, 0, 0] = none ∧
      ¬∀ buf : Bytes, 5 ≤ buf.length → DecodersAgree buf := by
  refine ⟨by decide, by decide, fun hall => ?_⟩
  obtain ⟨header, hheader, _⟩ := ((hall [4, 0, 0, 0, 0] (by decide)).accept 4 []).mp (by decide)
  cases hheader

/-- A response with a payload of two bytes. -/
theorem decoders_agree_declared : DecodersAgree [2, 2, 0, 0, 0, 110, 111] :=
  (decoders_agree_iff (by decide)).mpr (.inl (by decide))

end Response

end treenity.protocol

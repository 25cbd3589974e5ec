import Treenity.Protocol.Decoders

namespace treenity.protocol

/-- The parser part `x` stays inside its buffer, and what it delivers has the property `P`. -/
def InBounds {α : Type} (x : Parse α) (P : α → Prop) : Prop :=
  x ≠ .error .out_of_bounds ∧ ∀ a, x = .ok a → P a

namespace InBounds

variable {α β : Type} {P : α → Prop} {Q : β → Prop}

theorem ok {a : α} (ha : P a) : InBounds (.ok a) P :=
  ⟨nofun, fun _ hok => Except.ok.inj hok ▸ ha⟩

theorem rejected : InBounds (.error .rejected) P := ⟨nofun, nofun⟩

theorem bind {x : Parse α} {f : α → Parse β} (hx : InBounds x P) (hf : ∀ a, P a → InBounds (f a) Q) :
    InBounds (x >>= f) Q := by
  cases x with
  | error e =>
    cases e with
    | rejected => exact rejected
    | out_of_bounds => exact absurd rfl hx.1
  | ok a => exact hf a (hx.2 a rfl)

theorem ite {c : Prop} [Decidable c] {x y : Parse α} (hx : c → InBounds x P) (hy : ¬c → InBounds y P) :
    InBounds (if c then x else y) P := by
  split
  · exact hx ‹c›
  · exact hy ‹¬c›

/-- The guarded step for a number: the cursor stays within the buffer. -/
theorem take_uint32 {buf : Bytes} {offset : Nat} (hbuf : buf.length ≤ 2 ^ 63) (hoffset : offset ≤ buf.length) :
    InBounds (protocol.take_uint32 buf offset) fun taken => taken.2 ≤ buf.length := by
  rw [take_uint32_eq hbuf hoffset]
  exact ite (fun hfits => ok hfits) fun _ => rejected

theorem take_bytes {buf : Bytes} {offset : Nat} (count : UInt32) (hbuf : buf.length ≤ 2 ^ 63)
    (hoffset : offset ≤ buf.length) :
    InBounds (protocol.take_bytes buf offset count) fun taken => taken.2 ≤ buf.length := by
  rw [take_bytes_eq count hbuf hoffset]
  exact ite (fun hfits => ok hfits) fun _ => rejected

theorem read_at {buf : Bytes} {offset : Nat} (hfits : offset + 4 ≤ buf.length) :
    InBounds (protocol.read_at buf offset) fun _ => True := by
  rw [protocol.read_at, if_pos hfits]
  exact ok trivial

theorem byte_at {buf : Bytes} {index : Nat} (hinside : index < buf.length) :
    InBounds (protocol.byte_at buf index) fun _ => True := by
  rw [protocol.byte_at, if_pos hinside]
  exact ok trivial

theorem assign_from {buf : Bytes} {offset count : Nat} (hfits : offset + count ≤ buf.length) :
    InBounds (protocol.assign_from buf offset count) fun _ => True := by
  rw [protocol.assign_from, if_pos hfits]
  exact ok trivial

end InBounds

section Parsers

variable {buf : Bytes}

theorem parse_pid_and_rest_in_bounds : InBounds (Request.parse_pid_and_rest buf) fun _ => True := by
  apply InBounds.ite
  · exact fun _ => .rejected
  · intro hlen
    refine (InBounds.read_at (by omega)).bind fun _ _ => ?_
    exact (InBounds.assign_from (by omega)).bind fun _ _ => .ok trivial

theorem parse_list_in_bounds : InBounds (Request.parse_list buf) fun _ => True := by
  apply InBounds.ite
  · exact fun _ => .rejected
  · exact fun hlen => .read_at (by omega)

theorem parse_produce_in_bounds (hbuf : buf.length ≤ 2 ^ 63) :
    InBounds (Request.parse_produce buf) fun _ => True := by
  refine (InBounds.take_uint32 hbuf (Nat.zero_le _)).bind fun _ htopic_len => ?_
  refine (InBounds.take_bytes _ hbuf htopic_len).bind fun _ htopic => ?_
  refine (InBounds.take_uint32 hbuf htopic).bind fun _ hkey_len => ?_
  refine (InBounds.take_bytes _ hbuf hkey_len).bind fun _ hkey => ?_
  refine (InBounds.take_uint32 hbuf hkey).bind fun _ hval_len => ?_
  refine (InBounds.take_bytes _ hbuf hval_len).bind fun _ _ => ?_
  exact .ite (fun _ => .rejected) fun _ => .ite (fun _ => .rejected) fun _ => .ok trivial

theorem parse_subscribe_in_bounds (hbuf : buf.length ≤ 2 ^ 63) :
    InBounds (Request.parse_subscribe buf) fun _ => True := by
  refine (InBounds.take_uint32 hbuf (Nat.zero_le _)).bind fun _ hpid => ?_
  refine (InBounds.take_uint32 hbuf hpid).bind fun _ hid_len => ?_
  refine (InBounds.take_bytes _ hbuf hid_len).bind fun _ hid => ?_
  refine (InBounds.take_uint32 hbuf hid).bind fun _ htopic_len => ?_
  refine (InBounds.take_bytes _ hbuf htopic_len).bind fun _ htopic => ?_
  refine (InBounds.take_uint32 hbuf htopic).bind fun _ hpref_len => ?_
  refine (InBounds.take_bytes _ hbuf hpref_len).bind fun _ hpref => ?_
  refine (InBounds.take_uint32 hbuf hpref).bind fun _ _ => ?_
  exact .ite (fun _ => .ok trivial) fun _ => .rejected

theorem parse_ack_in_bounds (hbuf : buf.length ≤ 2 ^ 63) : InBounds (Request.parse_ack buf) fun _ => True := by
  refine (InBounds.take_uint32 hbuf (Nat.zero_le _)).bind fun _ hid_len => ?_
  refine (InBounds.take_bytes _ hbuf hid_len).bind fun _ hid => ?_
  refine (InBounds.take_uint32 hbuf hid).bind fun _ _ => ?_
  exact .ite (fun _ => .ok trivial) fun _ => .rejected

theorem parse_disconnect_in_bounds (hbuf : buf.length ≤ 2 ^ 63) :
    InBounds (Request.parse_disconnect buf) fun _ => True := by
  refine (InBounds.take_uint32 hbuf (Nat.zero_le _)).bind fun _ hid_len => ?_
  refine (InBounds.take_bytes _ hbuf hid_len).bind fun _ _ => ?_
  exact .ite (fun _ => .ok trivial) fun _ => .rejected

theorem parse_delivery_in_bounds (hbuf : buf.length ≤ 2 ^ 63) :
    InBounds (Response.parse_delivery buf) fun _ => True := by
  refine (InBounds.take_uint32 hbuf (Nat.zero_le _)).bind fun _ hoffset => ?_
  refine (InBounds.take_uint32 hbuf hoffset).bind fun _ hkey_len => ?_
  refine (InBounds.take_uint32 hbuf hkey_len).bind fun _ hval_len => ?_
  refine .ite (fun _ => .rejected) fun _ => ?_
  refine (InBounds.take_bytes _ hbuf hval_len).bind fun _ hkey => ?_
  refine (InBounds.take_bytes _ hbuf hkey).bind fun _ _ => ?_
  exact .ite (fun _ => .ok trivial) fun _ => .rejected

/-- Only this parser subtracts from the length, after it has checked that it can. -/
theorem parse_response_in_bounds : InBounds (Response.parse_response buf) fun _ => True := by
  refine .ite (fun _ => .rejected) fun hlen => ?_
  refine (InBounds.byte_at (by omega)).bind fun _ _ => ?_
  refine (InBounds.read_at (by omega)).bind fun payload_len _ => ?_
  refine .ite (fun _ => .rejected) fun hpayload => ?_
  exact (InBounds.assign_from (by omega)).bind fun _ _ => .ok trivial

end Parsers

/-- None of the ten parsers touches a byte past the end of its buffer, whatever lengths the
buffer declares and wherever the parser stops. -/
theorem parsers_in_bounds {buf : Bytes} (hbuf : buf.length ≤ 2 ^ 63) :
    Request.parse_create buf ≠ .error .out_of_bounds ∧ Request.parse_list buf ≠ .error .out_of_bounds ∧
    Request.parse_info buf ≠ .error .out_of_bounds ∧ Request.parse_connect buf ≠ .error .out_of_bounds ∧
    Request.parse_produce buf ≠ .error .out_of_bounds ∧ Request.parse_subscribe buf ≠ .error .out_of_bounds ∧
    Request.parse_ack buf ≠ .error .out_of_bounds ∧ Request.parse_disconnect buf ≠ .error .out_of_bounds ∧
    Response.parse_delivery buf ≠ .error .out_of_bounds ∧ Response.parse_response buf ≠ .error .out_of_bounds :=
  ⟨parse_pid_and_rest_in_bounds.1, parse_list_in_bounds.1, parse_pid_and_rest_in_bounds.1,
    parse_pid_and_rest_in_bounds.1, (parse_produce_in_bounds hbuf).1, (parse_subscribe_in_bounds hbuf).1,
    (parse_ack_in_bounds hbuf).1, (parse_disconnect_in_bounds hbuf).1, (parse_delivery_in_bounds hbuf).1,
    parse_response_in_bounds.1⟩

/-- A buffer that declares a topic of the largest length is rejected without being read past. -/
theorem parsers_in_bounds_overdeclared :
    Request.parse_produce [255, 255, 255, 255, 7] = .error .rejected ∧
      Request.parse_produce [255, 255, 255, 255, 7] ≠ .error .out_of_bounds := by
  have hbuf : ([255, 255, 255, 255, 7] : Bytes).length ≤ 2 ^ 63 := by decide
  exact ⟨by decide, (parsers_in_bounds hbuf).2.2.2.2.1⟩

end treenity.protocol

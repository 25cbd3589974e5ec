import Treenity.Client.Command
import Treenity.Protocol.Response
import Treenity.Topic.State

open treenity.protocol treenity.server

namespace treenity.client

/-- The SUBSCRIBE request of `execute_subscriber_command`. -/
def subscribe_request (client_pid : UInt32) (command : Command) : Request.Subscribe where
  pid := client_pid
  client_id := command.subscriber
  topic := command.topic
  pref := command.pref
  offset := if command.has_offset then command.offset else OFFSET_UNSET

/-- The handshake on the bytes in the FIFO of the process: whether it goes on to the
loop, and the bytes that are left. `none` is a process that still waits for bytes. -/
def handshake (pipe : Bytes) : Option (Bool × Bytes) :=
  if pipe.length < 5 then none
  else
    match parse_response_header pipe with
    | none => some (false, pipe.drop 5)
    | some response_hdr =>
      some (decide (response_hdr.status_code = .SUCCESS), pipe.drop (5 + response_hdr.payload_len.toNat))

/-- One turn of the loop on the bytes in the FIFO: the message that is read, or
`none` for a process that returns. -/
def read_delivery (pipe : Bytes) : Option (Option Message × Bytes) :=
  if pipe.length < 12 then none
  else
    let offset := read_uint32_le pipe
    let key_len := read_uint32_le (pipe.drop 4)
    let val_len := read_uint32_le (pipe.drop 8)
    let left := pipe.drop 12
    if Response.is_shutdown offset then some (none, left)
    else if (key_len + val_len).toNat > MAX_PAYLOAD_SIZE then some (none, left)
    else if left.length < key_len.toNat + val_len.toNat then none
    else
      let key := left.take key_len.toNat
      let value := (left.drop key_len.toNat).take val_len.toNat
      some (some ⟨offset, key, value⟩, left.drop (key_len.toNat + val_len.toNat))

/-- What the loop writes: an ACK for each message it reads, and a DISCONNECT when
`shutdown_requested` is true at the start of the turn after `turns` others. -/
def listen (subscriber : Bytes) : Nat → Bytes → List Bytes
  | 0, _ => [Request.serialize_disconnect subscriber]
  | turns + 1, pipe =>
    match read_delivery pipe with
    | some (some msg, rest) => Request.serialize_ack subscriber (msg.offset + 1) :: listen subscriber turns rest
    | _ => []

/-- The writes to the server FIFO; `pipe` is what the process gets to read. -/
def execute_subscriber_command (client_pid : UInt32) (command : Command) (pipe : Bytes) (turns : Nat) :
    List Bytes :=
  let requested_offset := if command.has_offset then command.offset else OFFSET_UNSET
  Request.serialize_subscribe client_pid command.subscriber command.topic command.pref requested_offset ::
    match handshake pipe with
    | some (true, rest) => listen command.subscriber turns rest
    | _ => []

/-- The handshake reads any answer without a payload. -/
theorem handshake_serialize_response (status : StatusCode) (pipe : Bytes) :
    handshake (Response.serialize_response status [] ++ pipe) =
      some (decide (status = .SUCCESS), pipe) := by
  have hcode : ¬ status.code > 3 := by cases status <;> decide
  have hheader : parse_response_header (Response.serialize_response status [] ++ pipe) = some ⟨status, 0⟩ := by
    have hlen := read_le32_append 0 pipe
    simp only [parse_response_header, Response.serialize_response, write_uint32_le_eq]
    simp only [List.cons_append, List.nil_append, List.getD_cons_zero, hcode, if_false,
      StatusCode.of_code_code, List.drop_succ_cons, List.drop_zero, List.append_nil]
    exact congrArg (fun len => some (ManagementResponseHeader.mk status len)) hlen
  have hlength : ¬ (Response.serialize_response status [] ++ pipe).length < 5 := by
    simp [Response.serialize_response, write_uint32_le_eq]
  rw [handshake, if_neg hlength, hheader]
  rfl

/-- A delivery frame is read back as the message it was made of. -/
theorem read_delivery_frame {msg : Message} (hlimit : msg.key.length + msg.value.length ≤ MAX_PAYLOAD_SIZE)
    (hoffset : msg.offset ≠ SHUTDOWN_OFFSET) (pipe : Bytes) :
    read_delivery (msg.frame ++ pipe) = some (some msg, pipe) := by
  obtain ⟨offset, key, value⟩ := msg
  have hlimit : key.length + value.length ≤ 1024 := hlimit
  have hframe : Message.frame ⟨offset, key, value⟩ ++ pipe =
      le32 offset ++ (le32 (to_uint32 key.length) ++ (le32 (to_uint32 value.length) ++ (key ++ (value ++ pipe)))) := by
    simp [Message.frame, Response.serialize_delivery, write_uint32_le_eq]
  have hkey : (to_uint32 key.length).toNat = key.length := to_uint32_toNat (by omega)
  have hvalue : (to_uint32 value.length).toNat = value.length := to_uint32_toNat (by omega)
  have hsum : (to_uint32 key.length + to_uint32 value.length).toNat = key.length + value.length := by
    rw [UInt32.toNat_add, hkey, hvalue]
    exact Nat.mod_eq_of_lt (by omega)
  have hfour : ∀ (val : UInt32) (rest : Bytes), (le32 val ++ rest).drop 4 = rest :=
    fun val rest => List.drop_left' (le32_length val)
  have hdrop8 : ∀ pipe : Bytes, pipe.drop 8 = (pipe.drop 4).drop 4 := fun pipe => by rw [List.drop_drop]
  have hdrop12 : ∀ pipe : Bytes, pipe.drop 12 = ((pipe.drop 4).drop 4).drop 4 := fun pipe => by
    rw [List.drop_drop, List.drop_drop]
  have hshort : ¬ (Message.frame ⟨offset, key, value⟩ ++ pipe).length < 12 := by
    rw [hframe]
    simp
    omega
  have hshutdown : Response.is_shutdown offset = false := by simpa [Response.is_shutdown] using hoffset
  rw [read_delivery, if_neg hshort, hframe]
  simp only [hdrop8, hdrop12, hfour, read_le32_append, hshutdown, hsum, hkey, hvalue, Bool.false_eq_true, if_false]
  rw [if_neg (by simp only [MAX_PAYLOAD_SIZE]; omega), if_neg (by simp), List.drop_left, List.take_left,
    List.take_left, ← List.drop_drop, List.drop_left, List.drop_left]

/-- A turn of the loop takes bytes from the front. -/
theorem read_delivery_suffix {pipe left : Bytes} {read : Option Message} (hread : read_delivery pipe = some (read, left)) :
    left <:+ pipe := by
  unfold read_delivery at hread
  split at hread
  · cases hread
  · dsimp only at hread
    split at hread
    · cases hread
      exact List.drop_suffix _ _
    · split at hread
      · cases hread
        exact List.drop_suffix _ _
      · split at hread
        · cases hread
        · cases hread
          exact (List.drop_suffix _ _).trans (List.drop_suffix _ _)

theorem handshake_suffix {pipe left : Bytes} {success : Bool} (hread : handshake pipe = some (success, left)) :
    left <:+ pipe := by
  unfold handshake at hread
  split at hread
  · cases hread
  · split at hread
    · cases hread
      exact List.drop_suffix _ _
    · cases hread
      exact List.drop_suffix _ _

/-- What a process reads next of the frames in its FIFO. -/
theorem read_delivery_frames {unread : List Message}
    (hreadable : ∀ msg ∈ unread, msg.key.length + msg.value.length ≤ MAX_PAYLOAD_SIZE ∧ msg.offset ≠ SHUTDOWN_OFFSET)
    {read : Option Message} {left : Bytes}
    (hread : read_delivery (unread.flatMap Message.frame) = some (read, left)) :
    ∃ msg rest, unread = msg :: rest ∧ read = some msg ∧ left = rest.flatMap Message.frame := by
  cases unread with
  | nil => cases hread
  | cons msg rest =>
    obtain ⟨hlimit, hoffset⟩ := hreadable msg List.mem_cons_self
    rw [List.flatMap_cons, read_delivery_frame hlimit hoffset] at hread
    obtain ⟨rfl, rfl⟩ := Prod.mk.inj (Option.some.inj hread)
    exact ⟨msg, rest, rfl, rfl, rfl⟩

end treenity.client

import Treenity.Client.Subscriber
import Treenity.Protocol.Delivery

open treenity.protocol treenity.server

namespace treenity.client

/-- How the loop of `execute_subscriber_command` stands: it polls for more bytes, or it
returned 0 at the sentinel, or it returned 3. -/
inductive LoopState where
  | polling
  | shutdown
  | failed
  deriving DecidableEq

/-- The messages of `turns` turns of the loop on the bytes in the FIFO, how the loop
stands after them, and the bytes it has left. A frame that stays incomplete runs
into the time limit of `read_exact`. -/
def receive_loop : Nat → Bytes → List Message × LoopState × Bytes
  | 0, pipe => ([], .polling, pipe)
  | turns + 1, pipe =>
    match read_delivery pipe with
    | none => ([], if pipe = [] then .polling else .failed, pipe)
    | some (none, left) => ([], if Response.is_shutdown (read_uint32_le pipe) then .shutdown else .failed, left)
    | some (some msg, left) =>
      let (msgs, state, rest) := receive_loop turns left
      (msg :: msgs, state, rest)

/-- The three numbers in front of a frame, and what follows them. -/
theorem header_split {pipe : Bytes} (hpipe : 12 ≤ pipe.length) :
    pipe = le32 (read_uint32_le pipe) ++ (le32 (read_uint32_le (pipe.drop 4)) ++
      (le32 (read_uint32_le (pipe.drop 8)) ++ pipe.drop 12)) := by
  have hthird := le32_read_append_drop (show 4 ≤ (pipe.drop 8).length by rw [List.length_drop]; omega)
  have hsecond := le32_read_append_drop (show 4 ≤ (pipe.drop 4).length by rw [List.length_drop]; omega)
  have hfirst := le32_read_append_drop (show 4 ≤ pipe.length by omega)
  rw [List.drop_drop] at hthird hsecond
  rw [hthird, hsecond, hfirst]

/-- A turn of the loop accepts exactly the frames of messages that keep to the limit,
and leaves what follows them. -/
theorem read_delivery_iff {pipe : Bytes} (hpipe : pipe.length < 2 ^ 32) (msg : Message) (rest : Bytes) :
    read_delivery pipe = some (some msg, rest) ↔
      pipe = msg.frame ++ rest ∧ msg.key.length + msg.value.length ≤ MAX_PAYLOAD_SIZE ∧
        msg.offset ≠ SHUTDOWN_OFFSET := by
  constructor
  · intro hread
    unfold read_delivery at hread
    split at hread
    · cases hread
    · rename_i hheader
      have hsplit := header_split (not_lt.mp hheader)
      have hlength := congrArg List.length hsplit
      generalize read_uint32_le pipe = offset at hread hsplit
      generalize read_uint32_le (pipe.drop 4) = key_len at hread hsplit
      generalize read_uint32_le (pipe.drop 8) = val_len at hread hsplit
      generalize pipe.drop 12 = left at hread hsplit hlength
      simp only [List.length_append, le32_length] at hlength
      dsimp only at hread
      split at hread
      · cases hread
      · rename_i hrunning
        split at hread
        · cases hread
        · rename_i hlimit
          split at hread
          · cases hread
          · rename_i hcomplete
            obtain ⟨rfl, rfl⟩ : Message.mk offset (left.take key_len.toNat)
                ((left.drop key_len.toNat).take val_len.toNat) = msg ∧
                left.drop (key_len.toNat + val_len.toNat) = rest := by simpa using hread
            have hkey : (left.take key_len.toNat).length = key_len.toNat := by
              rw [List.length_take]
              omega
            have hvalue : ((left.drop key_len.toNat).take val_len.toNat).length = val_len.toNat := by
              rw [List.length_take, List.length_drop]
              omega
            refine ⟨?_, ?_, by simpa [Response.is_shutdown] using hrunning⟩
            · rw [Message.frame, Response.serialize_delivery_eq, ← eq_to_uint32 hkey, ← eq_to_uint32 hvalue]
              simp only [List.append_assoc]
              rw [← List.drop_drop, List.take_append_drop, List.take_append_drop]
              exact hsplit
            · rw [eq_to_uint32 hkey, eq_to_uint32 hvalue] at hlimit
              exact (Response.limit_iff (by dsimp only; omega)).mp (not_lt.mp hlimit)
  · rintro ⟨rfl, hlimit, hoffset⟩
    exact read_delivery_frame hlimit hoffset rest

/-- The sentinel ends a turn, whatever follows it. -/
theorem read_delivery_shutdown (pipe : Bytes) :
    read_delivery (Response.serialize_shutdown ++ pipe) = some (none, pipe) := by
  have hlength : Response.serialize_shutdown.length = 12 := Response.serialize_delivery_length _ _ _
  have hoffset : Response.is_shutdown (read_uint32_le (Response.serialize_shutdown ++ pipe)) = true := by
    rw [Response.serialize_shutdown, Response.serialize_delivery_eq, List.append_assoc, read_le32_append,
      Response.is_shutdown, beq_self_eq_true]
  rw [read_delivery, if_neg (by rw [List.length_append]; omega)]
  dsimp only
  rw [if_pos hoffset, List.drop_left' hlength]

/-- The loop reads the frames it gets as the messages they were made of. -/
theorem receive_loop_frames {msgs : List Message}
    (hmsgs : ∀ msg ∈ msgs, msg.offset ≠ SHUTDOWN_OFFSET ∧ msg.key.length + msg.value.length ≤ MAX_PAYLOAD_SIZE)
    (turns : Nat) (pipe : Bytes) :
    receive_loop (msgs.length + turns) (msgs.flatMap Message.frame ++ pipe) =
      (msgs ++ (receive_loop turns pipe).1, (receive_loop turns pipe).2) := by
  induction msgs with
  | nil => simp
  | cons msg msgs ih =>
    obtain ⟨hoffset, hlimit⟩ := hmsgs msg List.mem_cons_self
    have htail := ih fun m hm => hmsgs m (List.mem_cons_of_mem _ hm)
    rw [List.length_cons, Nat.succ_add, receive_loop, List.flatMap_cons, List.append_assoc,
      read_delivery_frame hlimit hoffset]
    dsimp only
    rw [htail]
    rfl

/-- Encoder, buffer decoder and loop agree. The loop reads a list of frames as the list of
messages and stops at the sentinel with what follows it unread; and on a single
buffer `parse_delivery` and one turn of the loop accept the frames of messages
that keep to the limit, and nothing else, with the same fields. -/
theorem delivery_decoders_agree :
    (∀ msgs : List Message,
      (∀ msg ∈ msgs, msg.offset ≠ SHUTDOWN_OFFSET ∧ msg.key.length + msg.value.length ≤ MAX_PAYLOAD_SIZE) →
      ∀ turns, msgs.length < turns →
        receive_loop turns (msgs.flatMap Message.frame) = (msgs, .polling, []) ∧
        ∀ rest, receive_loop turns (msgs.flatMap Message.frame ++ Response.serialize_shutdown ++ rest) =
          (msgs, .shutdown, rest)) ∧
    (∀ buf : Bytes, buf.length < 2 ^ 32 → read_uint32_le buf ≠ SHUTDOWN_OFFSET → ∀ offset key val,
      (Response.parse_delivery buf = .ok (offset, key, val) ↔
        buf = Response.serialize_delivery offset key val ∧ key.length + val.length ≤ MAX_PAYLOAD_SIZE) ∧
      (Response.parse_delivery buf = .ok (offset, key, val) ↔
        read_delivery buf = some (some ⟨offset, key, val⟩, []))) := by
  constructor
  · intro msgs hmsgs turns hturns
    obtain ⟨spare, rfl⟩ : ∃ spare, turns = msgs.length + (spare + 1) := ⟨turns - msgs.length - 1, by omega⟩
    constructor
    · have hframes := receive_loop_frames hmsgs (spare + 1) []
      rw [List.append_nil] at hframes
      rw [hframes]
      simp [receive_loop, read_delivery]
    · intro rest
      rw [List.append_assoc, receive_loop_frames hmsgs, receive_loop, read_delivery_shutdown]
      simp [Response.serialize_shutdown, Response.serialize_delivery_eq, read_le32_append, Response.is_shutdown]
  · intro buf hbuf hsentinel offset key val
    have hparse := Response.parse_delivery_iff hbuf hsentinel offset key val
    refine ⟨hparse, hparse.trans ?_⟩
    rw [read_delivery_iff hbuf, List.append_nil]
    constructor
    · rintro ⟨rfl, hlimit⟩
      refine ⟨rfl, hlimit, ?_⟩
      rwa [Response.serialize_delivery_eq, read_le32_append] at hsentinel
    · rintro ⟨hframe, hlimit, _⟩
      exact ⟨hframe, hlimit⟩

/-- Two messages and the sentinel, read in three turns. -/
theorem delivery_decoders_agree_two :
    receive_loop 3 ([⟨0, [97], [98]⟩, ⟨1, [], []⟩].flatMap Message.frame ++ Response.serialize_shutdown ++ []) =
      ([⟨0, [97], [98]⟩, ⟨1, [], []⟩], .shutdown, []) :=
  (delivery_decoders_agree.1 _ (by decide) 3 (by decide)).2 []

end treenity.client

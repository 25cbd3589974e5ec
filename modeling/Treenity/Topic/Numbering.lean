import Treenity.Topic.State

open treenity.protocol treenity.data_structures

namespace treenity.server

namespace Topic

variable {H : StdHash}

/-- A sequence of calls of `append_message`, with their keys and values. -/
def append_messages (self : Topic H) (pairs : List (Bytes × Bytes)) : Topic H :=
  pairs.foldl (fun topic (key, value) => topic.append_message key value) self

/-- Each message is stored at the end, with the low 32 bits of its position. -/
theorem append_messages_messages (self : Topic H) (pairs : List (Bytes × Bytes)) :
    (self.append_messages pairs).messages = self.messages ++
      pairs.mapIdx fun i (key, value) => ⟨to_uint32 (self.messages.length + i), key, value⟩ := by
  induction pairs generalizing self with
  | nil => simp [append_messages]
  | cons pair rest ih =>
    obtain ⟨key, value⟩ := pair
    have hnext := ih (self.append_message key value)
    rw [append_messages, List.foldl_cons]
    rw [append_messages] at hnext
    rw [hnext, List.mapIdx_cons, append_message]
    simp [Nat.add_comm, Nat.add_left_comm]

theorem append_messages_length (self : Topic H) (pairs : List (Bytes × Bytes)) :
    (self.append_messages pairs).messages.length = self.messages.length + pairs.length := by
  rw [append_messages_messages, List.length_append, List.length_mapIdx]

theorem append_messages_subscribers (self : Topic H) (pairs : List (Bytes × Bytes)) :
    (self.append_messages pairs).subscribers = self.subscribers := by
  induction pairs generalizing self with
  | nil => rfl
  | cons pair rest ih => exact ih (self.append_message pair.1 pair.2)

/-- In a log that starts empty the offset of a message is its position, cut to 32 bits. -/
theorem new_append_messages_getElem? (topic_name : Bytes) (pairs : List (Bytes × Bytes)) (i : Nat) :
    (((new topic_name : Topic H).append_messages pairs).messages[i]?).map Message.offset =
      (pairs[i]?).map fun _ => to_uint32 i := by
  have hmessages : ((new topic_name : Topic H).append_messages pairs).messages =
      pairs.mapIdx fun i (key, value) => ⟨to_uint32 i, key, value⟩ := by
    simp [append_messages_messages, new]
  rw [hmessages, List.getElem?_mapIdx]
  cases pairs[i]? <;> rfl

/-- What readers rely on in the offsets of a log: they count up from zero, the subscriber
takes no frame of a message for the sentinel, and the ACK of none wraps to zero. -/
structure Distinguished (log : List Message) : Prop where
  first : ∀ msg, log.head? = some msg → msg.offset = 0
  increasing : (log.map Message.offset).Pairwise (· < ·)
  no_sentinel : ∀ msg ∈ log, msg.offset ≠ SHUTDOWN_OFFSET
  not_taken : ∀ msg ∈ log, ∀ rest, Response.is_shutdown (read_uint32_le (msg.frame ++ rest)) = false
  no_wrap : ∀ msg ∈ log, msg.offset + 1 ≠ 0

/-- The subscriber reads the offset of a message at the start of its frame. -/
theorem read_frame_offset (msg : Message) (rest : Bytes) : read_uint32_le (msg.frame ++ rest) = msg.offset := by
  have hframe : msg.frame ++ rest = le32 msg.offset ++
      (le32 (to_uint32 msg.key.length) ++ le32 (to_uint32 msg.value.length) ++ msg.key ++ msg.value ++ rest) := by
    simp [Message.frame, Response.serialize_delivery, write_uint32_le_eq]
  rw [hframe, read_le32_append]

/-- The last two conditions ask no more than the one on the sentinel. -/
theorem distinguished_of_offsets {log : List Message} (hfirst : ∀ msg, log.head? = some msg → msg.offset = 0)
    (hincreasing : (log.map Message.offset).Pairwise (· < ·)) (hsentinel : ∀ msg ∈ log, msg.offset ≠ SHUTDOWN_OFFSET) :
    Distinguished log := by
  refine ⟨hfirst, hincreasing, hsentinel, ?_, ?_⟩
  · intro msg hmsg rest
    rw [read_frame_offset, Response.is_shutdown, beq_eq_false_iff_ne]
    exact hsentinel msg hmsg
  · intro msg hmsg hzero
    apply hsentinel msg hmsg
    have hnat := congrArg UInt32.toNat hzero
    have hbound := msg.offset.toNat_lt
    rw [UInt32.toNat_add, UInt32.toNat_one, UInt32.toNat_zero] at hnat
    apply UInt32.toNat_inj.mp
    rw [show SHUTDOWN_OFFSET.toNat = 2 ^ 32 - 1 from rfl]
    omega

/-- From 2^32 messages on, one has the offset of the sentinel. -/
theorem sentinel_stored (topic_name : Bytes) {pairs : List (Bytes × Bytes)} (hlength : 2 ^ 32 ≤ pairs.length) :
    ∃ msg ∈ ((new topic_name : Topic H).append_messages pairs).messages, msg.offset = SHUTDOWN_OFFSET := by
  have hoffset := new_append_messages_getElem? (H := H) topic_name pairs (2 ^ 32 - 1)
  have hinside : 2 ^ 32 - 1 < pairs.length := by omega
  rw [List.getElem?_eq_getElem hinside, Option.map_some] at hoffset
  obtain ⟨msg, hmsg, hlast⟩ := Option.map_eq_some_iff.mp hoffset
  exact ⟨msg, List.mem_of_getElem? hmsg, hlast⟩

/-- Below that each message carries its position. -/
theorem offset_eq_position (topic_name : Bytes) {pairs : List (Bytes × Bytes)} (hlength : pairs.length < 2 ^ 32)
    {i : Nat} {msg : Message} (hmsg : ((new topic_name : Topic H).append_messages pairs).messages[i]? = some msg) :
    msg.offset.toNat = i ∧ i < pairs.length := by
  have hoffset := new_append_messages_getElem? (H := H) topic_name pairs i
  rw [hmsg, Option.map_some] at hoffset
  obtain ⟨pair, hpair, heq⟩ := Option.map_eq_some_iff.mp hoffset.symm
  obtain ⟨hinside, _⟩ := List.getElem?_eq_some_iff.mp hpair
  rw [← heq, to_uint32_toNat (by omega)]
  exact ⟨rfl, hinside⟩

/-- The offsets of any sequence of messages are as readers rely on exactly while there are
fewer than 2^32 of them. -/
theorem append_messages_distinguished_iff (topic_name : Bytes) (pairs : List (Bytes × Bytes)) :
    Distinguished ((new topic_name : Topic H).append_messages pairs).messages ↔ pairs.length < 2 ^ 32 := by
  constructor
  · intro hdistinguished
    by_contra hlong
    obtain ⟨msg, hmsg, hoffset⟩ := sentinel_stored (H := H) topic_name (not_lt.mp hlong)
    exact hdistinguished.no_sentinel msg hmsg hoffset
  · intro hlength
    have hposition : ∀ i msg, ((new topic_name : Topic H).append_messages pairs).messages[i]? = some msg →
        msg.offset.toNat = i ∧ i < pairs.length := fun _ _ => offset_eq_position topic_name hlength
    refine distinguished_of_offsets ?_ ?_ ?_
    · intro msg hhead
      rw [List.head?_eq_getElem?] at hhead
      exact UInt32.toNat_inj.mp (hposition 0 msg hhead).1
    · rw [List.pairwise_map, List.pairwise_iff_getElem]
      intro i j hi hj hlt
      rw [UInt32.lt_iff_toNat_lt, (hposition i _ (List.getElem?_eq_getElem hi)).1,
        (hposition j _ (List.getElem?_eq_getElem hj)).1]
      exact hlt
    · intro msg hmsg hshutdown
      obtain ⟨i, hi⟩ := List.mem_iff_getElem?.mp hmsg
      obtain ⟨hvalue, hinside⟩ := hposition i msg hi
      rw [hshutdown, show SHUTDOWN_OFFSET.toNat = 2 ^ 32 - 1 from rfl] at hvalue
      omega

/-- After 2^32 messages without key and value. -/
theorem append_messages_sentinel :
    ¬ Distinguished ((new [116] : Topic ⟨List.length, UInt8.toNat, UInt32.toNat⟩).append_messages
      (List.replicate (2 ^ 32) ([], []))).messages := by
  intro hdistinguished
  obtain ⟨msg, hmsg, hoffset⟩ := sentinel_stored (H := ⟨List.length, UInt8.toNat, UInt32.toNat⟩) [116]
    (List.length_replicate (n := 2 ^ 32) (a := (([], []) : Bytes × Bytes))).ge
  exact hdistinguished.no_sentinel msg hmsg hoffset

end Topic

end treenity.server

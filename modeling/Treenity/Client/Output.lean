import Treenity.Client.Text
import Treenity.Foundation.Ostream

open treenity.protocol treenity.foundation treenity.server treenity.ipc

namespace treenity.client

-- What `std::cout` hands on at once in a write.
variable (passes : Bytes → Bytes → Nat)

/-- The writes of `write_raw_message`. -/
def raw_writes (offset : UInt32) (message : Message) : List Bytes :=
  [le32 offset, le32 (to_uint32 message.key.length), message.key, le32 (to_uint32 message.value.length),
    message.value]

/-- `write_raw_message` on a stream: it returns `false` at the first write after which
the stream is not good. -/
def write_raw_message_to (output : Ostream UInt8) (offset : UInt32) (message : Message) : Bool × Ostream UInt8 :=
  if !can_encode_size message.key.length || !can_encode_size message.value.length then (false, output)
  else output.write_checked passes (raw_writes offset message)

/-- The output of a turn of the loop, and whether the turn goes on to the ACK. Nobody looks at
the stream after the text and after the flush. -/
def output_message (raw : Bool) (message : Message) (cout : Ostream UInt8) : Bool × Ostream UInt8 :=
  if raw then
    if (write_raw_message_to passes cout message.offset message).1 then
      (true, (write_raw_message_to passes cout message.offset message).2.flush)
    else (false, (write_raw_message_to passes cout message.offset message).2)
  else (true, (cout.write passes (format_text_message message)).flush)

/-- `turns` turns of the loop: the ACK frames it writes, each with the message it is for, and
the standard output after them. -/
def output_loop (raw : Bool) (subscriber : Bytes) :
    Nat → Bytes → Ostream UInt8 → List (Message × Bytes) × Ostream UInt8
  | 0, _, cout => ([], cout)
  | turns + 1, pipe, cout =>
    match read_delivery pipe with
    | some (some msg, rest) =>
      if (output_message passes raw msg cout).1 then
        let rest := output_loop raw subscriber turns rest (output_message passes raw msg cout).2
        ((msg, Request.serialize_ack subscriber (msg.offset + 1)) :: rest.1, rest.2)
      else ([], (output_message passes raw msg cout).2)
    | _ => ([], cout)

/-- What a turn writes to the standard output. -/
def output_writes (raw : Bool) (message : Message) : List Bytes :=
  if raw then raw_writes message.offset message else [format_text_message message]

/-- The bytes of a message on the standard output. -/
def printed (raw : Bool) (message : Message) : Bytes := (output_writes raw message).flatten

/-- The sizes in front of the key and the value can be encoded. -/
def can_encode (message : Message) : Bool :=
  can_encode_size message.key.length && can_encode_size message.value.length

/-- What a subscriber with the standard output `cout` acknowledges was written and flushed. -/
def AcksOutput (raw : Bool) (subscriber : Bytes) (turns : Nat) (pipe : Bytes) (cout : Ostream UInt8) : Prop :=
  cout.output ++ (output_loop passes raw subscriber turns pipe cout).1.flatMap (fun ack => printed raw ack.1) <+:
    (output_loop passes raw subscriber turns pipe cout).2.output

/-- The output takes all messages, or a raw subscriber stops: after messages that the output
takes comes one whose sizes cannot be encoded, or the output fails within the bytes that the
writes of the message hand on before the flush. -/
def FailureNoticed (raw : Bool) (room : Nat) (msgs : List Message) : Prop :=
  (msgs.flatMap (printed raw)).length ≤ room ∨
    raw = true ∧ ∃ earlier msg later, msgs = earlier ++ msg :: later ∧
      (earlier.flatMap (printed raw)).length ≤ room ∧
      (can_encode msg = false ∨
        room < (earlier.flatMap (printed raw)).length + Ostream.handed passes [] (output_writes raw msg))

variable {passes}

theorem write_raw_message_to_eq (output : Ostream UInt8) (message : Message) :
    write_raw_message_to passes output message.offset message =
      if can_encode message then output.write_checked passes (output_writes true message)
      else (false, output) := by
  rw [write_raw_message_to, output_writes, if_pos rfl, can_encode]
  cases can_encode_size message.key.length <;> cases can_encode_size message.value.length <;> rfl

/-- Where every write succeeds, that is the whole record. -/
theorem write_raw_message_printed (message : Message) :
    write_raw_message message.offset message =
      if can_encode message then some (printed true message) else none := by
  rw [write_raw_message, can_encode, printed, output_writes, if_pos rfl]
  cases can_encode_size message.key.length <;> cases can_encode_size message.value.length <;> simp [raw_writes]

/-- A raw message is not acknowledged when its sizes cannot be encoded or its writes are
noticed to fail. -/
theorem output_message_stops {msg : Message} {cout : Ostream UInt8} (hgood : cout.good = true)
    (hbuffer : cout.buffer = [])
    (hstops : can_encode msg = false ∨ cout.room < Ostream.handed passes [] (output_writes true msg)) :
    (output_message passes true msg cout).1 = false := by
  have hwrite : (write_raw_message_to passes cout msg.offset msg).1 = false := by
    rw [write_raw_message_to_eq]
    split
    · have hhanded := hstops.resolve_left (by simp [*])
      rw [← hbuffer] at hhanded
      exact (Ostream.write_checked_stops hgood hhanded).1
    · rfl
  rw [output_message, if_pos rfl, if_neg (by simp [hwrite])]

/-- Any other message is. -/
theorem output_message_goes_on {raw : Bool} {msg : Message} {cout : Ostream UInt8} (hgood : cout.good = true)
    (hbuffer : cout.buffer = [])
    (hstops : ¬ (raw = true ∧
      (can_encode msg = false ∨ cout.room < Ostream.handed passes [] (output_writes raw msg)))) :
    output_message passes raw msg cout = (true, (cout.write_checked passes (output_writes raw msg)).2.flush) := by
  unfold output_message
  cases raw with
  | true =>
    rw [not_and, not_or, Bool.not_eq_false, Nat.not_lt] at hstops
    obtain ⟨hencode, hhanded⟩ := hstops rfl
    rw [← hbuffer] at hhanded
    obtain ⟨_, _, _, _, hwrites⟩ := Ostream.write_checked_taken hgood hhanded
    rw [if_pos rfl, write_raw_message_to_eq, if_pos hencode, if_pos (by rw [hwrites])]
  | false => rw [if_neg Bool.false_ne_true, Ostream.write_eq, output_writes, if_neg Bool.false_ne_true]

/-- Nothing is output once the stream is bad. -/
theorem output_message_bad {cout : Ostream UInt8} (hbad : cout.good = false) (raw : Bool) (msg : Message) :
    (output_message passes raw msg cout).2 = cout := by
  unfold output_message
  cases raw with
  | true =>
    rw [if_pos rfl, write_raw_message_to_eq]
    split <;> split <;> simp [Ostream.write_checked_bad hbad, Ostream.flush_bad hbad]
  | false => simp [Ostream.write_bad hbad, Ostream.flush_bad hbad]

theorem output_message_extends (raw : Bool) (msg : Message) (cout : Ostream UInt8) :
    cout.output <+: (output_message passes raw msg cout).2.output := by
  unfold output_message
  cases raw with
  | true =>
    rw [if_pos rfl, write_raw_message_to_eq]
    have hwrites := cout.write_checked_extends passes (output_writes true msg)
    split
    · split
      · exact hwrites.trans (Ostream.flush_extends _)
      · exact hwrites
    · split
      · exact Ostream.flush_extends _
      · exact List.prefix_refl _
  | false => exact (cout.write_extends passes _).trans (Ostream.flush_extends _)

theorem output_loop_bad {cout : Ostream UInt8} (hbad : cout.good = false) (raw : Bool) (subscriber : Bytes)
    (turns : Nat) (pipe : Bytes) : (output_loop passes raw subscriber turns pipe cout).2 = cout := by
  induction turns generalizing pipe with
  | zero => rfl
  | succ turns ih =>
    unfold output_loop
    split
    · split
      · rw [output_message_bad hbad]
        exact ih _
      · exact output_message_bad hbad raw _
    · rfl

/-- The writes of a message hand on no more than its bytes. -/
theorem handed_printed (passes : Bytes → Bytes → Nat) (raw : Bool) (msg : Message) :
    Ostream.handed passes [] (output_writes raw msg) ≤ (printed raw msg).length := by
  simpa [printed] using Ostream.handed_le passes [] (output_writes raw msg)

theorem FailureNoticed.cons_taken {raw : Bool} {room : Nat} {msg : Message} {msgs : List Message}
    (hroom : (printed raw msg).length ≤ room) (hencode : raw = true → can_encode msg = true) :
    FailureNoticed passes raw room (msg :: msgs) ↔
      FailureNoticed passes raw (room - (printed raw msg).length) msgs := by
  unfold FailureNoticed
  rw [List.flatMap_cons, List.length_append]
  constructor
  · rintro (hall | ⟨rfl, earlier, last, later, hsplit, hearlier, hlast⟩)
    · exact .inl (by omega)
    · cases earlier with
      | nil =>
        obtain ⟨rfl, rfl⟩ := List.cons.inj hsplit
        have hle := handed_printed passes true msg
        rcases hlast with hlast | hlast
        · rw [hencode rfl] at hlast
          cases hlast
        · rw [List.flatMap_nil, List.length_nil] at hlast
          omega
      | cons first earlier =>
        obtain ⟨rfl, rfl⟩ := List.cons.inj hsplit
        rw [List.flatMap_cons, List.length_append] at hearlier hlast
        refine .inr ⟨rfl, earlier, last, later, rfl, by omega, hlast.imp_right fun hlast => by omega⟩
  · rintro (hall | ⟨rfl, earlier, last, later, rfl, hearlier, hlast⟩)
    · exact .inl (by omega)
    · refine .inr ⟨rfl, msg :: earlier, last, later, rfl, ?_, hlast.imp_right fun hlast => ?_⟩
      · rw [List.flatMap_cons, List.length_append]
        omega
      · rw [List.flatMap_cons, List.length_append]
        omega

theorem FailureNoticed.cons_lost {raw : Bool} {room : Nat} {msg : Message} {msgs : List Message}
    (hroom : room < (printed raw msg).length) :
    FailureNoticed passes raw room (msg :: msgs) ↔
      raw = true ∧ (can_encode msg = false ∨ room < Ostream.handed passes [] (output_writes raw msg)) := by
  unfold FailureNoticed
  constructor
  · rintro (hall | ⟨hraw, earlier, last, later, hsplit, hearlier, hlast⟩)
    · rw [List.flatMap_cons, List.length_append] at hall
      omega
    · cases earlier with
      | nil =>
        obtain ⟨rfl, rfl⟩ := List.cons.inj hsplit
        exact ⟨hraw, by simpa using hlast⟩
      | cons first earlier =>
        obtain ⟨rfl, rfl⟩ := List.cons.inj hsplit
        rw [List.flatMap_cons, List.length_append] at hearlier
        omega
  · rintro ⟨hraw, hlast⟩
    exact .inr ⟨hraw, [], msg, msgs, rfl, Nat.zero_le _, by simpa using hlast⟩

/-- From a stream with an empty buffer on, the loop acknowledges only what is output exactly when a
failure is noticed. -/
theorem acks_output_iff (raw : Bool) (subscriber : Bytes) (turns : Nat) (pipe : Bytes) {cout : Ostream UInt8}
    (hgood : cout.good = true) (hbuffer : cout.buffer = []) :
    AcksOutput passes raw subscriber turns pipe cout ↔
      FailureNoticed passes raw cout.room (receive_loop turns pipe).1 := by
  induction turns generalizing pipe cout with
  | zero => simp [AcksOutput, output_loop, FailureNoticed, receive_loop]
  | succ turns ih =>
    unfold AcksOutput output_loop receive_loop
    rcases read_delivery pipe with _ | ⟨_ | msg, left⟩
    · simp [FailureNoticed]
    · simp [FailureNoticed]
    · dsimp only
      by_cases hstops : raw = true ∧
          (can_encode msg = false ∨ cout.room < Ostream.handed passes [] (output_writes raw msg))
      · obtain ⟨rfl, hstops⟩ := hstops
        have hno := output_message_stops hgood hbuffer hstops
        rw [if_neg (by simp [hno]), List.flatMap_nil, List.append_nil]
        refine iff_of_true (output_message_extends true msg cout) (.inr ⟨rfl, [], msg, _, rfl, Nat.zero_le _, ?_⟩)
        simpa using hstops
      · rw [output_message_goes_on hgood hbuffer hstops, if_pos rfl]
        dsimp only
        by_cases hroom : (printed raw msg).length ≤ cout.room
        · have hencode : raw = true → can_encode msg = true := by
            intro hraw
            simpa using (not_or.mp (not_and.mp hstops hraw)).1
          have htail := @ih left
            ⟨cout.room - (printed raw msg).length, true, [], cout.output ++ printed raw msg⟩ rfl rfl
          rw [AcksOutput, List.append_assoc] at htail
          rw [(Ostream.flushed_taken hgood hbuffer hroom).2, FailureNoticed.cons_taken hroom hencode]
          exact htail
        · rw [FailureNoticed.cons_lost (Nat.lt_of_not_le hroom)]
          have hlost := Ostream.flushed_lost passes hgood hbuffer (Nat.lt_of_not_le hroom)
          rw [output_loop_bad hlost.2.1]
          refine iff_of_false (fun houtput => ?_) hstops
          have hle := houtput.length_le
          rw [List.flatMap_cons, List.length_append, List.length_append, hlost.2.2] at hle
          dsimp only at hle
          omega

/-- A subscriber that starts on an empty standard output acknowledges only messages that were
written and flushed exactly when every failure is noticed. -/
theorem acknowledged_output_iff (passes : Bytes → Bytes → Nat) (raw : Bool) (subscriber : Bytes) (turns : Nat)
    (pipe : Bytes) (room : Nat) :
    AcksOutput passes raw subscriber turns pipe (.start room) ↔
      FailureNoticed passes raw room (receive_loop turns pipe).1 :=
  acks_output_iff raw subscriber turns pipe rfl rfl

/-- A standard output that keeps up to 4096 bytes for the flush. -/
def buffered (buffer chunk : Bytes) : Nat :=
  if (buffer ++ chunk).length ≤ 4096 then 0 else (buffer ++ chunk).length

/-- A message on a standard output that takes nothing is acknowledged in both modes. -/
theorem acknowledged_output_full :
    ¬ AcksOutput buffered false (ascii "s") 1 (Message.frame ⟨0, [107], [118]⟩) (.start 0) ∧
      ¬ AcksOutput buffered true (ascii "s") 1 (Message.frame ⟨0, [107], [118]⟩) (.start 0) := by
  unfold AcksOutput
  decide +kernel

/-- On a stream that keeps whole messages for the flush, the check of the raw mode makes
no difference. -/
theorem acks_output_kept {size : Nat}
    (hkeeps : ∀ buffer chunk : Bytes, (buffer ++ chunk).length ≤ size → passes buffer chunk = 0) {raw : Bool}
    {turns : Nat} {pipe : Bytes}
    (hmsgs : ∀ msg ∈ (receive_loop turns pipe).1, can_encode msg = true ∧ (printed raw msg).length ≤ size)
    (subscriber : Bytes) (room : Nat) :
    AcksOutput passes raw subscriber turns pipe (.start room) ↔
      ((receive_loop turns pipe).1.flatMap (printed raw)).length ≤ room := by
  rw [acks_output_iff raw subscriber turns pipe rfl rfl]
  refine ⟨fun hnoticed => ?_, fun hall => .inl hall⟩
  rcases hnoticed with hall | ⟨rfl, earlier, msg, later, hsplit, hearlier, hlast⟩
  · exact hall
  · obtain ⟨hencode, hsize⟩ := hmsgs msg (by simp [hsplit])
    have hhanded : Ostream.handed passes [] (output_writes true msg) = 0 :=
      Ostream.handed_kept hkeeps (by simpa [printed] using hsize)
    rw [hencode, hhanded] at hlast
    rcases hlast with hlast | hlast
    · cases hlast
    · exact absurd hearlier (by simpa using hlast)

/-- The ACKs are the first that a subscriber writes whose output never fails. -/
theorem output_loop_listens (raw : Bool) (subscriber : Bytes) (turns : Nat) (pipe : Bytes) (cout : Ostream UInt8) :
    (output_loop passes raw subscriber turns pipe cout).1.map Prod.snd <+: listen subscriber turns pipe := by
  induction turns generalizing pipe cout with
  | zero => exact List.nil_prefix
  | succ turns ih =>
    unfold output_loop listen
    rcases read_delivery pipe with _ | ⟨_ | msg, left⟩
    · exact List.nil_prefix
    · exact List.nil_prefix
    · dsimp only
      split
      · rw [List.map_cons]
        exact (List.prefix_cons_inj _).mpr (ih left _)
      · exact List.nil_prefix

end treenity.client

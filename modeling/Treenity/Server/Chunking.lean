import Treenity.Server.Framing

open treenity.protocol

namespace treenity.server

/-- The bytes of a list of requests. -/
def stream (frames : List (UInt8 × Bytes)) : Bytes := frames.flatMap (fun f => frame f.1 f.2)

theorem stream_eq_nil {frames : List (UInt8 × Bytes)} (hstream : stream frames = []) : frames = [] := by
  cases frames with
  | nil => rfl
  | cons f rest => simp [stream, frame] at hstream

/-- A frame whose length field holds the length of its payload. -/
def Fitting (f : UInt8 × Bytes) : Prop := f.2.length + 5 < 2 ^ 32

/-- The handler run on a list of requests, one after the other. -/
def Server.handle_all {H : StdHash} (kernel : Nat → Kernel) : Nat → Server H → List (UInt8 × Bytes) → Server H
  | _, self, [] => self
  | n, self, f :: rest => handle_all kernel (n + 1) (self.handle_request f.1 f.2 (kernel n)).1 rest

/-- What a call hands to the handler. -/
def Call.request (self : Call) : UInt8 × Bytes := (self.action, self.payload)

theorem declared_frame {action : UInt8} {payload : Bytes} (hfitting : Fitting (action, payload)) :
    declared (frame action payload) = payload.length := by
  have hlength : payload.length < 2 ^ 32 := by
    have hsum : payload.length + 5 < 2 ^ 32 := hfitting
    omega
  rw [declared, frame, List.drop_one, List.tail_cons, read_le32_append, to_uint32_toNat hlength]

/-- A complete frame is dispatched with its action and payload and is all that is erased. -/
theorem next_call_frame {action : UInt8} {payload : Bytes} (hfitting : Fitting (action, payload)) (rest : Bytes) :
    ∃ call, next_call (frame action payload ++ rest) = some call ∧ call.request = (action, payload) ∧
      call.payload_len.toNat = payload.length ∧ call.erase = some rest := by
  have hframe : 5 ≤ (frame action payload).length := by simp
  have hdeclared : declared (frame action payload ++ rest) = payload.length := by
    rw [declared_append hframe, declared_frame hfitting]
  cases hnext : next_call (frame action payload ++ rest) with
  | none =>
    rcases (next_call_eq_none_iff _).mp hnext with hshort | ⟨_, hshort⟩
    · simp only [List.length_append, frame_length] at hshort
      omega
    · simp only [hdeclared, List.length_append, frame_length] at hshort
      omega
  | some call =>
    obtain ⟨_, rfl⟩ := next_call_eq_some hnext
    have hlen : (read_uint32_le ((frame action payload ++ rest).drop 1)).toNat = payload.length := hdeclared
    have hbody : (frame action payload ++ rest).drop 5 = payload ++ rest := by
      simp [frame, le32, write_uint32_le]
    refine ⟨_, rfl, ?_, hlen, ?_⟩
    · simp only [Call.request, Call.payload, hlen, hbody, List.take_left]
      rfl
    · refine (erase_eq_some_iff _ _).mpr ⟨(Call.inside_iff _).mpr ?_, ?_⟩
      · simp only [hlen, List.length_append, frame_length]
        omega
      · dsimp only
        rw [hlen, ← List.drop_drop, hbody, List.drop_left]

/-- A proper initial part of a frame makes the loop wait. -/
theorem next_call_of_part {recv_buf : Bytes} {action : UInt8} {payload : Bytes} (hfitting : Fitting (action, payload))
    (hpref : recv_buf <+: frame action payload) (hproper : recv_buf.length < 5 + payload.length) :
    next_call recv_buf = none := by
  apply (next_call_eq_none_iff recv_buf).mpr
  by_cases hshort : recv_buf.length < 5
  · exact .inl hshort
  · obtain ⟨more, hmore⟩ := hpref
    have hdeclared : declared recv_buf = payload.length := by
      rw [← declared_append (by omega) more, hmore, declared_frame hfitting]
    rw [hdeclared]
    exact .inr ⟨hfitting, hproper⟩

namespace Receiver

variable {H : StdHash}

/-- The receiver has dispatched `past`, and the frames `left` and the partial frame
`trail` are in its buffer and in what is still to be read. -/
structure Aligned (kernel : Nat → Kernel) (server : Server H) (past left : List (UInt8 × Bytes))
    (trail unread : Bytes) (receiver : Receiver H) : Prop where
  calls : receiver.calls.map Call.request = past
  lengths : ∀ call ∈ receiver.calls, call.payload_len.toNat = call.payload.length
  buffered : receiver.recv_buf ++ unread = stream left ++ trail
  defined : receiver.overrun = false
  tables : receiver.tables = Server.handle_all kernel 0 server past

theorem handle_all_append (kernel : Nat → Kernel) (n : Nat) (server : Server H)
    (past : List (UInt8 × Bytes)) (f : UInt8 × Bytes) :
    Server.handle_all kernel n server (past ++ [f]) =
      ((Server.handle_all kernel n server past).handle_request f.1 f.2 (kernel (n + past.length))).1 := by
  induction past generalizing n server with
  | nil => rfl
  | cons first rest ih =>
    rw [List.cons_append, Server.handle_all, ih, Server.handle_all, List.length_cons]
    congr 3
    omega

/-- Dispatching the first of the frames that are left. -/
theorem Aligned.advance {kernel : Nat → Kernel} {server : Server H} {past left : List (UInt8 × Bytes)}
    {f : UInt8 × Bytes} {trail unread rest : Bytes} {self : Receiver H} {call : Call}
    (haligned : Aligned kernel server past (f :: left) trail unread self) (hrequest : call.request = f)
    (hlen : call.payload_len.toNat = f.2.length) (hrest : frame f.1 f.2 ++ rest = self.recv_buf) :
    Aligned kernel server (past ++ [f]) left trail unread
      { tables := (self.tables.handle_request call.action call.payload (kernel self.calls.length)).1
        recv_buf := rest
        calls := self.calls ++ [call]
        overrun := self.overrun } := by
  obtain ⟨hcalls, hlengths, hbuffered, hdefined, htables⟩ := haligned
  have hpayload : call.payload = f.2 := congrArg Prod.snd hrequest
  have haction : call.action = f.1 := congrArg Prod.fst hrequest
  have hcount : self.calls.length = past.length := by rw [← hcalls, List.length_map]
  refine ⟨?_, ?_, ?_, hdefined, ?_⟩
  · rw [List.map_append, hcalls, List.map_singleton, hrequest]
  · intro other hother
    rcases List.mem_append.mp hother with hold | hnew
    · exact hlengths other hold
    · rw [List.mem_singleton.mp hnew, hlen, hpayload]
  · rw [← hrest, List.append_assoc, stream, List.flatMap_cons, List.append_assoc] at hbuffered
    exact List.append_cancel_left hbuffered
  · rw [handle_all_append, Nat.zero_add, htables, haction, hpayload, hcount]

/-- The frame loop dispatches the frames that are complete in the buffer and stops
inside the next one. -/
theorem Aligned.dispatch {kernel : Nat → Kernel} {server : Server H} {past left : List (UInt8 × Bytes)}
    {trail unread : Bytes} {self : Receiver H} (haligned : Aligned kernel server past left trail unread self)
    (hfitting : ∀ f ∈ left, Fitting f) {last : UInt8 × Bytes} (hlast : Fitting last)
    (htrail : trail <+: frame last.1 last.2) (hproper : trail.length < 5 + last.2.length) :
    ∃ done rest, left = done ++ rest ∧
      Aligned kernel server (past ++ done) rest trail unread (self.dispatch_frames kernel) ∧
      (unread = [] → rest = []) := by
  induction left generalizing self past with
  | nil =>
    have hbuffered := haligned.buffered
    rw [stream, List.flatMap_nil, List.nil_append] at hbuffered
    have hpart : self.recv_buf <+: trail := ⟨unread, hbuffered⟩
    have hwaits := next_call_of_part hlast (hpart.trans htrail)
      (Nat.lt_of_le_of_lt hpart.length_le hproper)
    rw [dispatch_frames_none hwaits]
    exact ⟨[], [], rfl, by rwa [List.append_nil], fun _ => rfl⟩
  | cons f left ih =>
    obtain ⟨hf, hleft⟩ := List.forall_mem_cons.mp hfitting
    have hsplit : self.recv_buf ++ unread = frame f.1 f.2 ++ (stream left ++ trail) := by
      simpa [stream] using haligned.buffered
    have hbuf : self.recv_buf <+: frame f.1 f.2 ++ (stream left ++ trail) := ⟨unread, hsplit⟩
    have hhead : frame f.1 f.2 <+: frame f.1 f.2 ++ (stream left ++ trail) := List.prefix_append _ _
    by_cases hwhole : 5 + f.2.length ≤ self.recv_buf.length
    · obtain ⟨rest, hrest⟩ := List.prefix_of_prefix_length_le hhead hbuf (by simpa using hwhole)
      obtain ⟨call, hnext, hrequest, hlen, herase⟩ := next_call_frame hf rest
      rw [hrest] at hnext
      rw [dispatch_frames_some hnext herase]
      obtain ⟨done, remaining, hsame, hdone, hend⟩ := ih (haligned.advance hrequest hlen hrest) hleft
      exact ⟨f :: done, remaining, by rw [hsame, List.cons_append], by simpa using hdone, hend⟩
    · have hpart := List.prefix_of_prefix_length_le hbuf hhead (by simp; omega)
      rw [dispatch_frames_none (next_call_of_part hf hpart (by omega))]
      refine ⟨[], f :: left, rfl, by rwa [List.append_nil], ?_⟩
      rintro rfl
      have hlength := congrArg List.length hsplit
      simp only [List.append_nil, List.length_append, frame_length] at hlength
      omega

/-- For every list of frames, every proper initial part of one more and every way
of cutting their bytes into reads: the calls of `handle_request` are the frames,
in order, with their payloads, the partial frame is what stays in `recv_buf`, and
the tables are those of the handler run on the frames one after the other. -/
theorem run_dispatches_frames (kernel : Nat → Kernel) (server : Server H) (frames : List (UInt8 × Bytes))
    (hframes : ∀ f ∈ frames, f.2.length + 5 < 2 ^ 32) (last : UInt8 × Bytes) (hlast : last.2.length + 5 < 2 ^ 32)
    (trail : Bytes) (htrail : trail <+: frame last.1 last.2) (hproper : trail ≠ frame last.1 last.2)
    (chunks : List Bytes) (hchunks : ∀ chunk ∈ chunks, 1 ≤ chunk.length ∧ chunk.length ≤ 1024)
    (hstream : chunks.flatten = stream frames ++ trail) :
    (run kernel server chunks).calls.map (fun call => (call.action, call.payload)) = frames ∧
      (∀ call ∈ (run kernel server chunks).calls, call.payload_len.toNat = call.payload.length) ∧
      (run kernel server chunks).recv_buf = trail ∧ (run kernel server chunks).overrun = false ∧
      (run kernel server chunks).tables = Server.handle_all kernel 0 server frames := by
  have hshort : trail.length < 5 + last.2.length := by
    refine Nat.lt_of_le_of_ne (by simpa using htrail.length_le) (fun heq => hproper ?_)
    exact htrail.eq_of_length (by simpa using heq)
  -- After each read the receiver is aligned with some split of the frames.
  have hreads : ∀ read unread, chunks = read ++ unread → ∃ past left, frames = past ++ left ∧
      Aligned kernel server past left trail unread.flatten (run kernel server read) ∧
      (unread.flatten = [] → left = []) := by
    intro read
    induction read using List.reverseRecOn with
    | nil =>
      intro unread hsplit
      rw [List.nil_append] at hsplit
      refine ⟨[], frames, rfl, ⟨rfl, by simp [run, start], ?_, rfl, rfl⟩, ?_⟩
      · rw [← hsplit, hstream]
        rfl
      · intro hempty
        rw [← hsplit, hstream] at hempty
        exact stream_eq_nil (List.append_eq_nil_iff.mp hempty).1
    | append_singleton read buffer ih =>
      intro unread hsplit
      obtain ⟨past, left, hsame, haligned, _⟩ := ih (buffer :: unread) (by simpa using hsplit)
      have hbuffer : buffer ≠ [] := by
        refine List.ne_nil_of_length_pos (hchunks buffer ?_).1
        rw [hsplit]
        simp
      rw [run_snoc, read_eq haligned.defined hbuffer]
      have hreceived : Aligned kernel server past left trail unread.flatten
          ((run kernel server read).received buffer) :=
        ⟨haligned.calls, haligned.lengths, by simpa [received] using haligned.buffered, haligned.defined,
          haligned.tables⟩
      obtain ⟨done, rest, hdone, hdispatched, hend⟩ := hreceived.dispatch
        (fun f hf => hframes f (by rw [hsame]; exact List.mem_append_right _ hf)) hlast htrail hshort
      exact ⟨past ++ done, rest, by rw [hsame, hdone, List.append_assoc], hdispatched, hend⟩
  obtain ⟨past, left, hsame, haligned, hend⟩ := hreads chunks [] (by simp)
  obtain rfl := hend rfl
  rw [List.append_nil] at hsame
  subst hsame
  refine ⟨haligned.calls, haligned.lengths, ?_, haligned.defined, haligned.tables⟩
  simpa [stream] using haligned.buffered

/-- An unknown action, an unparsable DISCONNECT and half of a third header, cut into
reads that end inside the frames. -/
theorem run_dispatches_two_frames :
    let server : Server ⟨List.length, UInt8.toNat, UInt32.toNat⟩ := Server.new
    let kernel : Nat → Kernel := fun _ => ⟨fun _ => false, fun _ => none⟩
    let receiver := run kernel server [[99, 1], [0, 0, 0, 7, 8, 2, 0], [0, 0, 1, 2, 6, 4]]
    receiver.calls.map (fun call => (call.action, call.payload)) = [(99, [7]), (8, [1, 2])] ∧
      receiver.recv_buf = [6, 4] := by
  intro server kernel receiver
  have hrun := run_dispatches_frames kernel server [(99, [7]), (8, [1, 2])] (by simp) (6, [1, 2, 3, 4])
    (by decide) [6, 4] (by decide) (by decide) [[99, 1], [0, 0, 0, 7, 8, 2, 0], [0, 0, 1, 2, 6, 4]]
    (by simp) (by decide)
  exact ⟨hrun.1, hrun.2.2.1⟩

end Receiver

end treenity.server

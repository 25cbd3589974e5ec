import Treenity.Server.Receive

open treenity.protocol

namespace treenity.server

/-- The payload length that a buffer of at least five bytes declares. -/
def declared (recv_buf : Bytes) : Nat := (read_uint32_le (recv_buf.drop 1)).toNat

/-- The lengths the headers of a stream declare, cut up at those lengths. -/
def declared_lengths (stream : Bytes) : List Nat :=
  if stream.length < 5 then []
  else declared stream :: declared_lengths (stream.drop (5 + declared stream))
termination_by stream.length
decreasing_by
  rw [List.length_drop]
  omega

/-- The header arithmetic of the frame loop does not wrap. -/
def Sane (payload_len : Nat) : Prop := payload_len + 5 < 2 ^ 32

theorem declared_append {recv_buf : Bytes} (hheader : 5 ≤ recv_buf.length) (more : Bytes) :
    declared (recv_buf ++ more) = declared recv_buf := by
  unfold declared
  rw [List.drop_append_of_le_length (by omega), read_uint32_le_append (by simp; omega)]

theorem declared_lengths_short {stream : Bytes} (hshort : stream.length < 5) : declared_lengths stream = [] := by
  rw [declared_lengths, if_pos hshort]

/-- Cutting off the first header of a buffer with more of the stream behind it. -/
theorem declared_lengths_append {recv_buf : Bytes} (hheader : 5 ≤ recv_buf.length) (more : Bytes) :
    declared_lengths (recv_buf ++ more) =
      declared recv_buf :: declared_lengths ((recv_buf ++ more).drop (5 + declared recv_buf)) := by
  rw [declared_lengths, if_neg (by simp; omega), declared_append hheader]

private theorem add_five_toNat (payload_len : UInt32) :
    (5 + payload_len).toNat = (5 + payload_len.toNat) % 2 ^ 32 := UInt32.toNat_add 5 payload_len

/-- The loop leaves with less than a header, or with a sane header whose payload is
still to come. A header whose arithmetic wraps never makes it wait. -/
theorem next_call_eq_none_iff (recv_buf : Bytes) :
    next_call recv_buf = none ↔
      recv_buf.length < 5 ∨ Sane (declared recv_buf) ∧ recv_buf.length < 5 + declared recv_buf := by
  unfold next_call Sane declared
  by_cases hshort : recv_buf.length < 5
  · simp [hshort]
  · have hlen := (read_uint32_le (recv_buf.drop 1)).toNat_lt
    rw [if_neg hshort]
    dsimp only
    rw [add_five_toNat]
    split
    · simp only [true_iff]
      omega
    · simp only [reduceCtorEq, false_iff]
      omega

/-- A call the loop makes describes the head of the buffer. -/
theorem next_call_eq_some {recv_buf : Bytes} {call : Call} (hnext : next_call recv_buf = some call) :
    5 ≤ recv_buf.length ∧ call = ⟨recv_buf.getD 0 0, read_uint32_le (recv_buf.drop 1), recv_buf⟩ := by
  unfold next_call at hnext
  split at hnext
  · cases hnext
  · dsimp only at hnext
    split at hnext
    · cases hnext
    · cases hnext
      exact ⟨by omega, rfl⟩

theorem erase_eq_some_iff (call : Call) (rest : Bytes) :
    call.erase = some rest ↔ call.Inside ∧ rest = call.recv_buf.drop (5 + call.payload_len.toNat) := by
  rw [Call.inside_iff, Call.erase]
  split
  · simp [*, eq_comm]
  · simp [*]

theorem erase_eq_none_iff (call : Call) : call.erase = none ↔ ¬ call.Inside := by
  rw [Call.inside_iff, Call.erase]
  split <;> simp [*]

/-- The next call lies inside the buffer when the first frame is there as a whole. -/
theorem inside_next_iff {recv_buf : Bytes} {call : Call} (hnext : next_call recv_buf = some call) :
    call.Inside ↔ 5 + declared recv_buf ≤ recv_buf.length := by
  rw [Call.inside_iff, (next_call_eq_some hnext).2]
  rfl

theorem erase_next {recv_buf : Bytes} {call : Call} (hnext : next_call recv_buf = some call) (hin : call.Inside) :
    call.erase = some (recv_buf.drop (5 + declared recv_buf)) :=
  (erase_eq_some_iff _ _).mpr ⟨hin, by rw [(next_call_eq_some hnext).2]; rfl⟩

namespace Receiver

variable {H : StdHash}

/-- Calls are only ever added. -/
theorem dispatch_frames_calls (kernel : Nat → Kernel) (self : Receiver H) :
    self.calls <+: (self.dispatch_frames kernel).calls := by
  induction hlength : self.recv_buf.length using Nat.strong_induction_on generalizing self with
  | _ length ih =>
    cases hnext : next_call self.recv_buf with
    | none => rw [dispatch_frames_none hnext]
    | some call =>
      cases herase : call.erase with
      | none =>
        rw [dispatch_frames_overrun hnext herase]
        exact List.prefix_append _ _
      | some rest =>
        rw [dispatch_frames_some hnext herase]
        obtain ⟨hheader, hcall⟩ := next_call_eq_some hnext
        obtain ⟨_, hrest⟩ := (erase_eq_some_iff call rest).mp herase
        have hbuf : call.recv_buf = self.recv_buf := by rw [hcall]
        have hshorter : rest.length < length := by
          rw [hrest, hbuf, List.length_drop]
          omega
        apply (List.prefix_append self.calls [call]).trans
        exact ih rest.length hshorter ⟨_, rest, self.calls ++ [call], self.overrun⟩ rfl

theorem read_calls (kernel : Nat → Kernel) (self : Receiver H) (buffer : Bytes) :
    self.calls <+: (self.read kernel buffer).calls := by
  unfold read
  split
  · exact List.prefix_rfl
  · exact dispatch_frames_calls kernel (self.received buffer)

/-- Over a sane stream the loop makes calls that lie inside the buffer, and what it
leaves starts a sane stream. -/
theorem dispatch_frames_sane {kernel : Nat → Kernel} {self : Receiver H} {tail : Bytes}
    (hsane : ∀ n ∈ declared_lengths (self.recv_buf ++ tail), Sane n)
    (hinside : ∀ call ∈ self.calls, call.Inside) :
    (∀ call ∈ (self.dispatch_frames kernel).calls, call.Inside) ∧
      (self.dispatch_frames kernel).overrun = self.overrun ∧
      ∀ n ∈ declared_lengths ((self.dispatch_frames kernel).recv_buf ++ tail), Sane n := by
  induction hlength : self.recv_buf.length using Nat.strong_induction_on generalizing self with
  | _ length ih =>
    cases hnext : next_call self.recv_buf with
    | none =>
      rw [dispatch_frames_none hnext]
      exact ⟨hinside, rfl, hsane⟩
    | some call =>
      obtain ⟨hheader, _⟩ := next_call_eq_some hnext
      have hfirst := hsane (declared self.recv_buf) (by
        rw [declared_lengths_append hheader]
        exact List.mem_cons_self)
      have hfits : 5 + declared self.recv_buf ≤ self.recv_buf.length := by
        have hwaits := (next_call_eq_none_iff self.recv_buf).not.mp (by simp [hnext])
        simp only [not_or, not_and, not_lt] at hwaits
        exact hwaits.2 hfirst
      have hin : call.Inside := (inside_next_iff hnext).mpr hfits
      rw [dispatch_frames_some hnext (erase_next hnext hin)]
      refine ih _ ?_ ?_ ?_ rfl
      · rw [List.length_drop]
        omega
      · intro n hn
        apply hsane n
        rw [declared_lengths_append hheader, List.drop_append_of_le_length hfits]
        exact List.mem_cons_of_mem _ hn
      · intro other hother
        rcases List.mem_append.mp hother with hold | hnew
        · exact hinside other hold
        · rw [List.mem_singleton.mp hnew]
          exact hin

/-- What a buffer can hold when the loop starts: a read after it was left waiting. -/
def Bounded (recv_buf : Bytes) : Prop :=
  recv_buf.length ≤ 1028 ∨
    5 ≤ recv_buf.length ∧ Sane (declared recv_buf) ∧ recv_buf.length < 5 + declared recv_buf + 1024

theorem bounded_of_waiting {recv_buf buffer : Bytes} (hwaiting : next_call recv_buf = none)
    (hbuffer : buffer.length ≤ 1024) : Bounded (recv_buf ++ buffer) := by
  by_cases hshort : recv_buf.length < 5
  · left
    simp only [List.length_append]
    omega
  · obtain ⟨hsane, hlength⟩ := ((next_call_eq_none_iff recv_buf).mp hwaiting).resolve_left hshort
    right
    rw [declared_append (by omega)]
    refine ⟨by simp; omega, hsane, ?_⟩
    simp only [List.length_append]
    omega

/-- If all its calls lie inside the buffer the loop has met sane headers only, and
it waits at the end. A buffer that large that a wrapping length lies inside it
never builds up. -/
theorem dispatch_frames_met {kernel : Nat → Kernel} {self : Receiver H} (hbounded : Bounded self.recv_buf)
    (hinside : ∀ call ∈ (self.dispatch_frames kernel).calls, call.Inside) :
    next_call (self.dispatch_frames kernel).recv_buf = none ∧
      (self.dispatch_frames kernel).overrun = self.overrun ∧
      ∀ tail, (∀ n ∈ declared_lengths ((self.dispatch_frames kernel).recv_buf ++ tail), Sane n) →
        ∀ n ∈ declared_lengths (self.recv_buf ++ tail), Sane n := by
  induction hlength : self.recv_buf.length using Nat.strong_induction_on generalizing self with
  | _ length ih =>
    cases hnext : next_call self.recv_buf with
    | none =>
      rw [dispatch_frames_none hnext]
      exact ⟨hnext, rfl, fun _ h => h⟩
    | some call =>
      obtain ⟨hheader, _⟩ := next_call_eq_some hnext
      have hin : call.Inside := by
        by_contra houtside
        rw [dispatch_frames_overrun hnext ((erase_eq_none_iff call).mpr houtside)] at hinside
        exact houtside (hinside call (by simp))
      have hfits : 5 + declared self.recv_buf ≤ self.recv_buf.length := (inside_next_iff hnext).mp hin
      have hsane : Sane (declared self.recv_buf) := by
        rcases hbounded with hsmall | ⟨_, hsane, _⟩
        · unfold Sane
          omega
        · exact hsane
      rw [dispatch_frames_some hnext (erase_next hnext hin)] at hinside ⊢
      have hleft : Bounded (self.recv_buf.drop (5 + declared self.recv_buf)) := by
        left
        rw [List.length_drop]
        rcases hbounded with hsmall | ⟨_, _, hlarge⟩ <;> omega
      obtain ⟨hwaiting, hoverrun, hmet⟩ := ih (self.recv_buf.drop (5 + declared self.recv_buf)).length
        (by rw [List.length_drop]; omega) hleft hinside rfl
      refine ⟨hwaiting, hoverrun, fun tail htail n hn => ?_⟩
      rw [declared_lengths_append hheader, List.drop_append_of_le_length hfits] at hn
      rcases List.mem_cons.mp hn with rfl | hrest
      · exact hsane
      · exact hmet tail htail n hrest

private theorem run_sane (kernel : Nat → Kernel) (server : Server H) (chunks : List Bytes) (tail : Bytes)
    (hsane : ∀ n ∈ declared_lengths (chunks.flatten ++ tail), Sane n) :
    (∀ call ∈ (run kernel server chunks).calls, call.Inside) ∧ (run kernel server chunks).overrun = false ∧
      ∀ n ∈ declared_lengths ((run kernel server chunks).recv_buf ++ tail), Sane n := by
  induction chunks using List.reverseRecOn generalizing tail with
  | nil => exact ⟨by simp [run, start], rfl, hsane⟩
  | append_singleton chunks buffer ih =>
    obtain ⟨hinside, hoverrun, hleft⟩ := ih (buffer ++ tail) (by simpa using hsane)
    rw [run_snoc]
    by_cases hempty : buffer = []
    · rw [hempty, List.nil_append] at hleft
      rw [read, hempty, List.isEmpty_nil, Bool.or_true, if_pos rfl]
      exact ⟨hinside, hoverrun, hleft⟩
    · rw [read_eq hoverrun hempty]
      have hbuffered : ∀ n ∈ declared_lengths (((run kernel server chunks).received buffer).recv_buf ++ tail),
          Sane n := by
        simpa [received] using hleft
      obtain ⟨hcalls, hdefined, hrest⟩ := dispatch_frames_sane hbuffered hinside
      exact ⟨hcalls, hdefined.trans hoverrun, hrest⟩

private theorem run_met (kernel : Nat → Kernel) (server : Server H) (chunks : List Bytes)
    (hchunks : ∀ chunk ∈ chunks, 1 ≤ chunk.length ∧ chunk.length ≤ 1024)
    (hinside : ∀ call ∈ (run kernel server chunks).calls, call.Inside) :
    next_call (run kernel server chunks).recv_buf = none ∧ (run kernel server chunks).overrun = false ∧
      ∀ tail, (∀ n ∈ declared_lengths ((run kernel server chunks).recv_buf ++ tail), Sane n) →
        ∀ n ∈ declared_lengths (chunks.flatten ++ tail), Sane n := by
  induction chunks using List.reverseRecOn with
  | nil => exact ⟨rfl, rfl, fun _ h => h⟩
  | append_singleton chunks buffer ih =>
    rw [run_snoc] at hinside ⊢
    obtain ⟨hbuffer, hbefore⟩ : buffer ∈ chunks ++ [buffer] ∧ ∀ chunk ∈ chunks, chunk ∈ chunks ++ [buffer] :=
      ⟨by simp, fun _ h => List.mem_append_left _ h⟩
    obtain ⟨hwaiting, hoverrun, hmet⟩ := ih (fun chunk hchunk => hchunks chunk (hbefore chunk hchunk))
      (fun call hcall => hinside call ((read_calls kernel _ buffer).subset hcall))
    have hempty : buffer ≠ [] := List.ne_nil_of_length_pos (hchunks buffer hbuffer).1
    rw [read_eq hoverrun hempty] at hinside ⊢
    have hbounded : Bounded ((run kernel server chunks).received buffer).recv_buf :=
      bounded_of_waiting hwaiting (hchunks buffer hbuffer).2
    obtain ⟨hleft, hstill, hcut⟩ := dispatch_frames_met hbounded hinside
    refine ⟨hleft, hstill.trans hoverrun, fun tail htail => ?_⟩
    have hall := hmet (buffer ++ tail) (by simpa [received] using hcut tail htail)
    simpa using hall

/-- For every stream, every way of cutting it into reads and every behaviour of the
kernel: all calls of `handle_request` lie inside `recv_buf` exactly when no header
that is reached by following the declared lengths declares 2^32 - 5 bytes or more. -/
theorem calls_inside_iff (kernel : Nat → Kernel) (server : Server H) (chunks : List Bytes)
    (hchunks : ∀ chunk ∈ chunks, 1 ≤ chunk.length ∧ chunk.length ≤ 1024) :
    (∀ call ∈ (run kernel server chunks).calls, call.Inside) ↔
      ∀ n ∈ declared_lengths chunks.flatten, n + 5 < 2 ^ 32 := by
  constructor
  · intro hinside
    obtain ⟨hwaiting, _, hmet⟩ := run_met kernel server chunks hchunks hinside
    have hlast : ∀ n ∈ declared_lengths ((run kernel server chunks).recv_buf ++ []), Sane n := by
      rw [List.append_nil]
      rcases (next_call_eq_none_iff _).mp hwaiting with hshort | ⟨hsane, hshort⟩
      · simp [declared_lengths_short hshort]
      · intro n hn
        rw [declared_lengths] at hn
        split at hn
        · cases hn
        · rw [List.drop_eq_nil_of_le (by omega), declared_lengths_short (by simp)] at hn
          rw [List.mem_singleton.mp hn]
          exact hsane
    have hall := hmet [] hlast
    rwa [List.append_nil] at hall
  · intro hsane
    exact (run_sane kernel server chunks [] (by rwa [List.append_nil])).1

/-- Two frames cut inside a header, the second of an unknown action. -/
theorem calls_inside_two_frames :
    let server : Server ⟨List.length, UInt8.toNat, UInt32.toNat⟩ := Server.new
    let kernel : Nat → Kernel := fun _ => ⟨fun _ => false, fun _ => none⟩
    ∀ call ∈ (run kernel server [[2, 4, 0], [0, 0, 1, 0, 0, 0, 99, 0, 0, 0, 0]]).calls, call.Inside :=
  (calls_inside_iff _ _ _ (by simp)).mpr (by decide +kernel)

/-- One header in one read, declaring the greatest length: the test is made with
5 + payload_len = 4, and the erase goes 2^32 - 1 bytes past the end. -/
theorem wrapped_length_overruns :
    let server : Server ⟨List.length, UInt8.toNat, UInt32.toNat⟩ := Server.new
    let kernel : Nat → Kernel := fun _ => ⟨fun _ => false, fun _ => none⟩
    ¬ ∀ call ∈ (run kernel server [[9, 255, 255, 255, 255]]).calls, call.Inside := by
  decide +kernel

end Receiver

end treenity.server

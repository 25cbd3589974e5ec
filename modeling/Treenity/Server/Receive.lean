import Treenity.Server.Handlers

open treenity.protocol

namespace treenity.server

/-- A call of `handle_request` as the frame loop makes it, with `recv_buf` at that moment. -/
structure Call where
  action : UInt8
  payload_len : UInt32
  recv_buf : Bytes
  deriving DecidableEq

namespace Call

/-- The bytes that `payload` and `payload_len` describe. -/
def payload (self : Call) : Bytes := (self.recv_buf.drop 5).take self.payload_len.toNat

/-- `recv_buf.erase(recv_buf.begin(), recv_buf.begin() + 5 + payload_len)`. The sum is
one of iterators and does not wrap; `none` is an end past the end of the buffer. -/
def erase (self : Call) : Option Bytes :=
  if 5 + self.payload_len.toNat ≤ self.recv_buf.length then
    some (self.recv_buf.drop (5 + self.payload_len.toNat))
  else none

/-- The payload lies in `recv_buf`, and the erase removes it and its header. -/
structure Inside (call : Call) : Prop where
  payload : 5 + call.payload_len.toNat ≤ call.recv_buf.length
  erased : ∃ removed rest, call.erase = some rest ∧ call.recv_buf = removed ++ rest ∧
    removed.length = 5 + call.payload_len.toNat

theorem inside_iff (self : Call) : self.Inside ↔ 5 + self.payload_len.toNat ≤ self.recv_buf.length := by
  refine ⟨Inside.payload, fun hinside => ⟨hinside, _, _, if_pos hinside, (List.take_append_drop _ _).symm, ?_⟩⟩
  rw [List.length_take]
  omega

instance (call : Call) : Decidable call.Inside := decidable_of_iff _ call.inside_iff.symm

end Call

/-- The call the frame loop makes next, if it does not leave. The sum is of
`uint32_t`, as in the source. -/
def next_call (recv_buf : Bytes) : Option Call :=
  if recv_buf.length < 5 then none
  else
    let action := recv_buf.getD 0 0
    let payload_len := read_uint32_le (recv_buf.drop 1)
    if recv_buf.length < (5 + payload_len).toNat then none
    else some { action, payload_len, recv_buf }

/-- `Server::run` between two reads: the tables, the bytes received, the calls made.
Once an erase has gone past the end of the buffer the rest is undefined and
`overrun` is set. -/
structure Receiver (H : StdHash) where
  tables : Server H
  recv_buf : Bytes
  calls : List Call
  overrun : Bool

namespace Receiver

variable {H : StdHash}

def start (server : Server H) : Receiver H := ⟨server, [], [], false⟩

/-- The frame loop. `kernel n` is the kernel during the call after `n` calls. -/
def dispatch_frames (kernel : Nat → Kernel) (self : Receiver H) : Receiver H :=
  match _hnext : next_call self.recv_buf with
  | none => self
  | some call =>
    match _herase : call.erase with
    | none => { self with calls := self.calls ++ [call], overrun := true }
    | some rest =>
      dispatch_frames kernel
        { tables := (self.tables.handle_request call.action call.payload (kernel self.calls.length)).1
          recv_buf := rest
          calls := self.calls ++ [call]
          overrun := self.overrun }
termination_by self.recv_buf.length
decreasing_by
  unfold next_call at _hnext
  split at _hnext
  · cases _hnext
  · dsimp only at _hnext
    split at _hnext
    · cases _hnext
    · cases _hnext
      unfold Call.erase at _herase
      split at _herase
      · cases _herase
        simp only [List.length_drop]
        omega
      · cases _herase

def received (self : Receiver H) (buffer : Bytes) : Receiver H :=
  { self with recv_buf := self.recv_buf ++ buffer }

/-- A `read` and what the loop makes of it. No bytes are a read that fails. -/
def read (kernel : Nat → Kernel) (self : Receiver H) (buffer : Bytes) : Receiver H :=
  if self.overrun || buffer.isEmpty then self else (self.received buffer).dispatch_frames kernel

/-- `Server::run` over a sequence of reads, with `running` true. -/
def run (kernel : Nat → Kernel) (server : Server H) (chunks : List Bytes) : Receiver H :=
  chunks.foldl (read kernel) (start server)

theorem run_snoc (kernel : Nat → Kernel) (server : Server H) (chunks : List Bytes) (buffer : Bytes) :
    run kernel server (chunks ++ [buffer]) = (run kernel server chunks).read kernel buffer := by
  simp [run]

theorem read_eq {kernel : Nat → Kernel} {self : Receiver H} {buffer : Bytes} (hdefined : self.overrun = false)
    (hbuffer : buffer ≠ []) : self.read kernel buffer = (self.received buffer).dispatch_frames kernel := by
  rw [read, hdefined, Bool.false_or, if_neg (by simpa using hbuffer)]

/-- The frame loop leaves. -/
theorem dispatch_frames_none {kernel : Nat → Kernel} {self : Receiver H}
    (hnext : next_call self.recv_buf = none) : self.dispatch_frames kernel = self := by
  rw [dispatch_frames]
  split
  · rfl
  · rename_i hsome
    rw [hnext] at hsome
    cases hsome

/-- The frame loop makes a call that lies inside the buffer and goes on behind it. -/
theorem dispatch_frames_some {kernel : Nat → Kernel} {self : Receiver H} {call : Call} {rest : Bytes}
    (hnext : next_call self.recv_buf = some call) (herase : call.erase = some rest) :
    self.dispatch_frames kernel = dispatch_frames kernel
      { tables := (self.tables.handle_request call.action call.payload (kernel self.calls.length)).1
        recv_buf := rest
        calls := self.calls ++ [call]
        overrun := self.overrun } := by
  rw [dispatch_frames]
  split
  · rename_i hnone
    rw [hnext] at hnone
    cases hnone
  · rename_i other hother
    obtain rfl : call = other := Option.some.inj (hnext.symm.trans hother)
    split
    · rename_i hnone
      rw [herase] at hnone
      cases hnone
    · rename_i left hleft
      obtain rfl : rest = left := Option.some.inj (herase.symm.trans hleft)
      rfl

/-- The frame loop makes a call whose declared payload ends outside the buffer. -/
theorem dispatch_frames_overrun {kernel : Nat → Kernel} {self : Receiver H} {call : Call}
    (hnext : next_call self.recv_buf = some call) (herase : call.erase = none) :
    self.dispatch_frames kernel = { self with calls := self.calls ++ [call], overrun := true } := by
  rw [dispatch_frames]
  split
  · rename_i hnone
    rw [hnext] at hnone
    cases hnone
  · rename_i other hother
    obtain rfl : call = other := Option.some.inj (hnext.symm.trans hother)
    split
    · rfl
    · rename_i left hleft
      rw [herase] at hleft
      cases hleft

end Receiver

end treenity.server

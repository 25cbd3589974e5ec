import Mathlib.Data.Set.Finite.Lattice
import Treenity.Foundation.Turns
import Treenity.Protocol.Wire

open treenity.foundation treenity.protocol

namespace treenity.ipc

/-- What `::write` returns: a number of bytes, `-1` with `EINTR`, or `-1` with another error. -/
inductive WriteResult where
  | wrote (n : Nat)
  | interrupted
  | failed
  deriving DecidableEq

/-- What `::read` returns in the same way. A read gets no more bytes than the stream has
left, and `got 0` is the end of file. -/
inductive ReadResult where
  | got (n : Nat)
  | interrupted
  | failed
  deriving DecidableEq

/-- What `::poll` returns for one descriptor. -/
inductive PollResult where
  | ready
  | timed_out
  | interrupted
  | failed
  deriving DecidableEq

/-- A descriptor, which is open unless it is negative. -/
structure FifoWriter where
  fd : Int

namespace FifoWriter

def is_open (self : FifoWriter) : Prop := 0 ≤ self.fd

/-- The local `total`, with what the kernel has taken so far. -/
structure Loop where
  total : Nat
  sent : Bytes

/-- A turn of the loop of `write_exact`, where `result` is what `::write` returns in it. -/
def write_turn (src : Bytes) (result : WriteResult) (loop : Loop) : Loop ⊕ Bool × Bytes :=
  if loop.total < src.length then
    match result with
    | .failed => .inr (false, loop.sent)
    | .interrupted => .inl loop
    | .wrote n =>
      let n := min n (src.length - loop.total)
      .inl { total := loop.total + n, sent := loop.sent ++ (src.drop loop.total).take n }
  else .inr (true, loop.sent)

/-- `write_exact` on the bytes of `src`: the result and what the kernel was handed. -/
def write_exact (self : FifoWriter) (kernel : Nat → WriteResult) (src : Bytes) (fuel : Nat) :
    Option (Bool × Bytes) :=
  if self.fd < 0 then some (false, [])
  else turns (fun i => write_turn src (kernel i)) fuel 0 { total := 0, sent := [] }

/-- What was handed over are the first `total` bytes. -/
def Loop.Handed (src : Bytes) (loop : Loop) : Prop :=
  loop.total ≤ src.length ∧ loop.sent = src.take loop.total

theorem write_turn_handed {src : Bytes} {result : WriteResult} {loop next : Loop} (hhanded : loop.Handed src)
    (hturn : write_turn src result loop = .inl next) : next.Handed src := by
  obtain ⟨hle, hsent⟩ := hhanded
  unfold write_turn at hturn
  split at hturn
  · cases result with
    | failed => cases hturn
    | interrupted => exact Sum.inl.inj hturn ▸ ⟨hle, hsent⟩
    | wrote n =>
      obtain rfl := Sum.inl.inj hturn
      refine ⟨by dsimp only; omega, ?_⟩
      dsimp only
      rw [hsent, List.take_add]
  · cases hturn

theorem write_turn_returns {src : Bytes} {result : WriteResult} {loop : Loop} {outcome : Bool × Bytes}
    (hhanded : loop.Handed src) (hturn : write_turn src result loop = .inr outcome) :
    if outcome.1 then outcome.2 = src else outcome.2 <+: src ∧ outcome.2 ≠ src := by
  obtain ⟨hle, hsent⟩ := hhanded
  unfold write_turn at hturn
  split at hturn
  · rename_i hlt
    cases result with
    | failed =>
      obtain rfl := Sum.inr.inj hturn
      rw [if_neg Bool.false_ne_true, hsent]
      refine ⟨List.take_prefix _ _, fun hall => ?_⟩
      have hlength := congrArg List.length hall
      rw [List.length_take] at hlength
      omega
    | interrupted => cases hturn
    | wrote n => cases hturn
  · rename_i hge
    obtain rfl := Sum.inr.inj hturn
    rw [if_pos rfl, hsent, List.take_of_length_le (not_lt.mp hge)]

/-- A turn with neither an interruption nor an empty write brings the end nearer. -/
theorem write_turn_nearer {src : Bytes} {result : WriteResult} {loop next : Loop}
    (hinterrupted : result ≠ .interrupted) (hpositive : result ≠ .wrote 0)
    (hturn : write_turn src result loop = .inl next) : src.length - next.total < src.length - loop.total := by
  unfold write_turn at hturn
  split at hturn
  · cases result with
    | failed => cases hturn
    | interrupted => exact absurd rfl hinterrupted
    | wrote n =>
      have hn : n ≠ 0 := fun hzero => hpositive (congrArg WriteResult.wrote hzero)
      obtain rfl := Sum.inl.inj hturn
      dsimp only
      omega
  · cases hturn

/-- Everything was handed over when `write_exact` returns `true`, and some but not all of
it, from the start, when it returns `false`. -/
theorem write_exact_spec {self : FifoWriter} (hopen : self.is_open) {kernel : Nat → WriteResult} {src sent : Bytes}
    {fuel : Nat} {ok : Bool} (hwrite : self.write_exact kernel src fuel = some (ok, sent)) :
    if ok then sent = src else sent <+: src ∧ sent ≠ src := by
  rw [write_exact, if_neg (not_lt.mpr hopen)] at hwrite
  exact turns_invariant (P := Loop.Handed src)
    (Q := fun outcome : Bool × Bytes => if outcome.1 then outcome.2 = src else outcome.2 <+: src ∧ outcome.2 ≠ src)
    (fun _ _ _ => write_turn_handed) (fun _ _ _ => write_turn_returns) ⟨Nat.zero_le _, rfl⟩ hwrite

theorem write_exact_isSome (self : FifoWriter) {kernel : Nat → WriteResult} (hpositive : ∀ i, kernel i ≠ .wrote 0)
    {n : Nat} (hfinite : ∀ i, n ≤ i → kernel i ≠ .interrupted) (src : Bytes) :
    ∃ fuel, (self.write_exact kernel src fuel).isSome := by
  unfold write_exact
  split
  · exact ⟨0, rfl⟩
  · apply turns_isSome (fun loop : Loop => src.length - loop.total) n
    intro i loop next hi hturn
    exact write_turn_nearer (hfinite i hi) (hpositive i) hturn

/-- The loop has no branch for a write of nothing, which a pipe does not answer with: it
would try again forever. -/
theorem write_exact_stalls {self : FifoWriter} (hopen : self.is_open) {src : Bytes} (hsrc : src ≠ []) (fuel : Nat) :
    self.write_exact (fun _ => .wrote 0) src fuel = none := by
  rw [write_exact, if_neg (not_lt.mpr hopen)]
  apply turns_eq_none
  intro i
  rw [write_turn, if_pos (List.length_pos_iff.mpr hsrc)]
  simp

end FifoWriter

structure FifoReader where
  fd : Int

namespace FifoReader

def is_open (self : FifoReader) : Prop := 0 ≤ self.fd

/-- The local `total`, the memory at `dest`, and what the stream has still to give. -/
structure Loop where
  total : Nat
  dest : Bytes
  unread : Bytes

/-- Bytes written into a memory from an index on. -/
def store (dest : Bytes) (index : Nat) (bytes : Bytes) : Bytes :=
  dest.take index ++ bytes ++ dest.drop (index + bytes.length)

/-- The second half of a turn, from `::read` on. -/
def read_some (result : ReadResult) (loop : Loop) : Loop ⊕ Bool × Bytes × Bytes :=
  match result with
  | .failed => .inr (false, loop.dest, loop.unread)
  | .interrupted => .inl loop
  | .got n =>
    let bytes := loop.unread.take (min n (loop.dest.length - loop.total))
    if bytes.length = 0 then .inr (false, loop.dest, loop.unread)
    else
      .inl
        { total := loop.total + bytes.length
          dest := store loop.dest loop.total bytes
          unread := loop.unread.drop bytes.length }

/-- A turn of the loop of `read_exact`. A negative time limit stands for none. -/
def read_turn (timeout_ms : Int) (poll : PollResult) (read : ReadResult) (loop : Loop) :
    Loop ⊕ Bool × Bytes × Bytes :=
  if loop.total < loop.dest.length then
    if timeout_ms ≥ 0 then
      match poll with
      | .timed_out => .inr (false, loop.dest, loop.unread)
      | .interrupted => .inl loop
      | .failed => .inr (false, loop.dest, loop.unread)
      | .ready => read_some read loop
    else read_some read loop
  else .inr (true, loop.dest, loop.unread)

/-- `read_exact` into the `count` bytes of `dest`: the result, the memory and the stream after it. -/
def read_exact (self : FifoReader) (poll : Nat → PollResult) (read : Nat → ReadResult) (timeout_ms : Int)
    (dest stream : Bytes) (fuel : Nat) : Option (Bool × Bytes × Bytes) :=
  if self.fd < 0 then some (false, dest, stream)
  else turns (fun i => read_turn timeout_ms (poll i) (read i)) fuel 0 { total := 0, dest, unread := stream }

/-- The first `total` bytes of the memory are what has been taken from the stream. -/
structure Loop.Taken (count : Nat) (stream : Bytes) (loop : Loop) : Prop where
  length : loop.dest.length = count
  total : loop.total ≤ count
  stream : stream = loop.dest.take loop.total ++ loop.unread

theorem store_length {dest bytes : Bytes} {index : Nat} (hfits : index + bytes.length ≤ dest.length) :
    (store dest index bytes).length = dest.length := by
  simp only [store, List.length_append, List.length_take, List.length_drop]
  omega

theorem store_take {dest bytes : Bytes} {index : Nat} (hfits : index + bytes.length ≤ dest.length) :
    (store dest index bytes).take (index + bytes.length) = dest.take index ++ bytes := by
  have hlength : (dest.take index ++ bytes).length = index + bytes.length := by
    rw [List.length_append, List.length_take]
    omega
  rw [store, ← hlength, List.take_left]

/-- A turn that goes on after `::read` was interrupted or has moved some bytes to the memory. -/
theorem read_some_cases {result : ReadResult} {loop next : Loop} (hroom : loop.total ≤ loop.dest.length)
    (hturn : read_some result loop = .inl next) :
    result = .interrupted ∧ next = loop ∨
      ∃ bytes rest, 0 < bytes.length ∧ loop.unread = bytes ++ rest ∧
        loop.total + bytes.length ≤ loop.dest.length ∧
        next = ⟨loop.total + bytes.length, store loop.dest loop.total bytes, rest⟩ := by
  unfold read_some at hturn
  cases result with
  | failed => cases hturn
  | interrupted => exact .inl ⟨rfl, (Sum.inl.inj hturn).symm⟩
  | got n =>
    dsimp only at hturn
    split at hturn
    · cases hturn
    · rename_i hsome
      generalize hbytes : loop.unread.take (min n (loop.dest.length - loop.total)) = bytes at hturn hsome
      have hfits : bytes.length ≤ loop.dest.length - loop.total := by
        rw [← hbytes, List.length_take]
        omega
      have hbegins : bytes <+: loop.unread := hbytes ▸ List.take_prefix _ _
      refine .inr ⟨bytes, loop.unread.drop bytes.length, Nat.pos_of_ne_zero hsome, ?_, by omega, ?_⟩
      · exact (List.prefix_iff_eq_append.mp hbegins).symm
      · exact (Sum.inl.inj hturn).symm

theorem read_some_taken {count : Nat} {stream : Bytes} {result : ReadResult} {loop next : Loop}
    (htaken : loop.Taken count stream) (hturn : read_some result loop = .inl next) : next.Taken count stream := by
  obtain ⟨hlength, htotal, hstream⟩ := htaken
  rcases read_some_cases (hlength ▸ htotal) hturn with ⟨_, rfl⟩ | ⟨bytes, rest, _, hunread, hfits, rfl⟩
  · exact ⟨hlength, htotal, hstream⟩
  · refine ⟨(store_length hfits).trans hlength, hlength ▸ hfits, ?_⟩
    dsimp only
    rw [store_take hfits, List.append_assoc, ← hunread]
    exact hstream

theorem read_turn_taken {timeout_ms : Int} {poll : PollResult} {read : ReadResult} {count : Nat} {stream : Bytes}
    {loop next : Loop} (htaken : loop.Taken count stream)
    (hturn : read_turn timeout_ms poll read loop = .inl next) : next.Taken count stream := by
  unfold read_turn at hturn
  split at hturn
  · split at hturn
    · cases poll with
      | timed_out => cases hturn
      | interrupted => exact Sum.inl.inj hturn ▸ htaken
      | failed => cases hturn
      | ready => exact read_some_taken htaken hturn
    · exact read_some_taken htaken hturn
  · cases hturn

theorem read_some_returns {result : ReadResult} {loop : Loop} {outcome : Bool × Bytes × Bytes}
    (hturn : read_some result loop = .inr outcome) : outcome = (false, loop.dest, loop.unread) := by
  unfold read_some at hturn
  cases result with
  | failed => exact (Sum.inr.inj hturn).symm
  | interrupted => cases hturn
  | got n =>
    dsimp only at hturn
    split at hturn
    · exact (Sum.inr.inj hturn).symm
    · cases hturn

/-- A turn that returns leaves the memory and the stream alone; it returns `true` when
the memory is full. -/
theorem read_turn_returns {timeout_ms : Int} {poll : PollResult} {read : ReadResult} {loop : Loop}
    {outcome : Bool × Bytes × Bytes} (hturn : read_turn timeout_ms poll read loop = .inr outcome) :
    outcome.2 = (loop.dest, loop.unread) ∧ (outcome.1 = true → loop.dest.length ≤ loop.total) := by
  have hstopped : ∀ {stopped}, stopped = (false, loop.dest, loop.unread) →
      stopped.2 = (loop.dest, loop.unread) ∧ (stopped.1 = true → loop.dest.length ≤ loop.total) := by
    rintro _ rfl
    exact ⟨rfl, nofun⟩
  unfold read_turn at hturn
  split at hturn
  · split at hturn
    · cases poll with
      | timed_out => exact hstopped (Sum.inr.inj hturn).symm
      | interrupted => cases hturn
      | failed => exact hstopped (Sum.inr.inj hturn).symm
      | ready => exact hstopped (read_some_returns hturn)
    · exact hstopped (read_some_returns hturn)
  · rename_i hfull
    obtain rfl := Sum.inr.inj hturn
    exact ⟨rfl, fun _ => not_lt.mp hfull⟩

theorem read_some_nearer {result : ReadResult} {loop next : Loop} (hroom : loop.total < loop.dest.length)
    (hinterrupted : result ≠ .interrupted) (hturn : read_some result loop = .inl next) :
    next.dest.length - next.total < loop.dest.length - loop.total := by
  rcases read_some_cases (Nat.le_of_lt hroom) hturn with ⟨hresult, _⟩ | ⟨bytes, rest, hsome, _, hfits, rfl⟩
  · exact absurd hresult hinterrupted
  · dsimp only
    rw [store_length hfits]
    omega

/-- A turn without an interruption brings the end nearer. -/
theorem read_turn_nearer {timeout_ms : Int} {poll : PollResult} {read : ReadResult} {loop next : Loop}
    (hpoll : poll ≠ .interrupted) (hread : read ≠ .interrupted)
    (hturn : read_turn timeout_ms poll read loop = .inl next) :
    next.dest.length - next.total < loop.dest.length - loop.total := by
  unfold read_turn at hturn
  split at hturn
  · rename_i hroom
    split at hturn
    · cases poll with
      | timed_out => cases hturn
      | interrupted => exact absurd rfl hpoll
      | failed => cases hturn
      | ready => exact read_some_nearer hroom hread hturn
    · exact read_some_nearer hroom hread hturn
  · cases hturn

/-- When `read_exact` returns `true` the memory holds what was taken from the stream, and
nothing more was taken. -/
theorem read_exact_spec {self : FifoReader} (hopen : self.is_open) {poll : Nat → PollResult}
    {read : Nat → ReadResult} {timeout_ms : Int} {dest stream held left : Bytes} {fuel : Nat}
    (hread : self.read_exact poll read timeout_ms dest stream fuel = some (true, held, left)) :
    held.length = dest.length ∧ stream = held ++ left := by
  rw [read_exact, if_neg (not_lt.mpr hopen)] at hread
  have hall := turns_invariant (P := Loop.Taken dest.length stream)
    (Q := fun outcome : Bool × Bytes × Bytes => outcome.1 = true →
      outcome.2.1.length = dest.length ∧ stream = outcome.2.1 ++ outcome.2.2)
    (fun _ _ _ => read_turn_taken) ?_ ⟨rfl, Nat.zero_le _, rfl⟩ hread
  · exact hall rfl
  · rintro i loop ⟨ok, memory, rest⟩ ⟨hlength, htotal, hstream⟩ hturn hok
    obtain ⟨hsame, hfull⟩ := read_turn_returns hturn
    obtain ⟨rfl, rfl⟩ := Prod.mk.inj hsame
    refine ⟨hlength, ?_⟩
    rwa [List.take_of_length_le (hfull hok)] at hstream

theorem read_exact_isSome (self : FifoReader) {poll : Nat → PollResult} {read : Nat → ReadResult} {n : Nat}
    (hpoll : ∀ i, n ≤ i → poll i ≠ .interrupted) (hread : ∀ i, n ≤ i → read i ≠ .interrupted) (timeout_ms : Int)
    (dest stream : Bytes) : ∃ fuel, (self.read_exact poll read timeout_ms dest stream fuel).isSome := by
  unfold read_exact
  split
  · exact ⟨0, rfl⟩
  · apply turns_isSome (fun loop : Loop => loop.dest.length - loop.total) n
    intro i loop next hi hturn
    exact read_turn_nearer (hpoll i hi) (hread i hi) hturn

end FifoReader

/-- The two transfers of the protocol on every schedule of an open descriptor. `true`
means that all of `src` was handed over, each byte once and in order, or that `dest`
holds the next bytes of the stream, which goes on right after them; `false` from
`write_exact` leaves a proper prefix handed over. With finitely many interruptions, and
writes that take something or fail, both return. -/
theorem transfers_exact {writer : FifoWriter} (hwriter : writer.is_open) {reader : FifoReader}
    (hreader : reader.is_open) (write : Nat → WriteResult) (poll : Nat → PollResult) (read : Nat → ReadResult)
    (src dest stream : Bytes) (timeout_ms : Int) :
    (∀ fuel ok sent, writer.write_exact write src fuel = some (ok, sent) →
      if ok then sent = src else sent <+: src ∧ sent ≠ src) ∧
    (∀ fuel held left, reader.read_exact poll read timeout_ms dest stream fuel = some (true, held, left) →
      held.length = dest.length ∧ stream = held ++ left) ∧
    ((∀ i, write i ≠ .wrote 0) → {i | write i = .interrupted}.Finite →
      ∃ fuel, (writer.write_exact write src fuel).isSome) ∧
    ({i | poll i = .interrupted ∨ read i = .interrupted}.Finite →
      ∃ fuel, (reader.read_exact poll read timeout_ms dest stream fuel).isSome) := by
  refine ⟨fun _ _ _ => FifoWriter.write_exact_spec hwriter, fun _ _ _ => FifoReader.read_exact_spec hreader, ?_, ?_⟩
  · intro hpositive hfinite
    obtain ⟨last, hlast⟩ := hfinite.bddAbove
    apply writer.write_exact_isSome hpositive (n := last + 1)
    intro i hi hinterrupted
    exact absurd (hlast hinterrupted) (by omega)
  · intro hfinite
    obtain ⟨last, hlast⟩ := hfinite.bddAbove
    have hlate : ∀ i, last + 1 ≤ i → ¬(poll i = .interrupted ∨ read i = .interrupted) :=
      fun i hi hinterrupted => absurd (hlast hinterrupted) (by omega)
    apply reader.read_exact_isSome (n := last + 1)
    · exact fun i hi hpoll => hlate i hi (.inl hpoll)
    · exact fun i hi hread => hlate i hi (.inr hread)

/-- A write in two pieces around an interruption, and a read that a poll interrupts. -/
theorem transfers_exact_interrupted :
    let write : Nat → WriteResult := fun i => [.wrote 1, .interrupted].getD i (.wrote 2)
    let poll : Nat → PollResult := fun i => [.interrupted].getD i .ready
    (∃ fuel, ((FifoWriter.mk 3).write_exact write [1, 2, 3] fuel).isSome) ∧
      (∀ fuel ok sent, (FifoWriter.mk 3).write_exact write [1, 2, 3] fuel = some (ok, sent) →
        if ok then sent = [1, 2, 3] else sent <+: [1, 2, 3] ∧ sent ≠ [1, 2, 3]) ∧
      (FifoWriter.mk 3).write_exact write [1, 2, 3] 4 = some (true, [1, 2, 3]) ∧
      (∃ fuel, ((FifoReader.mk 4).read_exact poll (fun _ => .got 2) 2000 [0, 0, 0] [7, 8, 9, 10] fuel).isSome) ∧
      (FifoReader.mk 4).read_exact poll (fun _ => .got 2) 2000 [0, 0, 0] [7, 8, 9, 10] 4 =
        some (true, [7, 8, 9], [10]) := by
  intro write poll
  have hwriter : (FifoWriter.mk 3).is_open := Int.le_of_lt (by decide)
  have hreader : (FifoReader.mk 4).is_open := Int.le_of_lt (by decide)
  obtain ⟨hsent, _, hwrites, hreads⟩ :=
    transfers_exact hwriter hreader write poll (fun _ => .got 2) [1, 2, 3] [0, 0, 0] [7, 8, 9, 10] 2000
  refine ⟨hwrites ?_ ?_, hsent, by decide, hreads ?_, by decide⟩
  · rintro (_ | _ | i) <;> exact nofun
  · apply (Set.finite_lt_nat 2).subset
    rintro (_ | _ | i) <;> simp [write]
  · apply (Set.finite_lt_nat 1).subset
    rintro (_ | i) <;> simp [poll]

end treenity.ipc

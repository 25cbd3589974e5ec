import Treenity.Foundation.Handles
import Treenity.Foundation.Ostream
import Treenity.Foundation.Program
import Treenity.Ipc.Transfer

open treenity.foundation treenity.protocol

namespace treenity.ipc

/-- The flags of an `::open`: `O_RDWR`, `O_RDONLY | O_NONBLOCK` and `O_WRONLY | O_NONBLOCK`. -/
inductive OpenMode where
  | read_write
  | read_only
  | write_only
  deriving DecidableEq

/-- What `::open` returns: a descriptor, `-1` with `ENXIO` or `ENOENT`, or `-1` with another error. -/
inductive OpenResult where
  | opened (fd : Nat)
  | unready
  | failed
  deriving DecidableEq

/-- `revents` after a `::poll`: `POLLERR` or `POLLNVAL`, and `POLLIN` or `POLLHUP`. -/
structure Revents where
  error : Bool
  input : Bool
  deriving DecidableEq

/-- What `std::getline` finds: a line, the end of the input, or an input that fails. -/
inductive GetlineResult where
  | line (line : Bytes)
  | eof
  | bad
  deriving DecidableEq

/-- The calls that lead out of a process. The loops of `write_exact` and `read_exact` on an open
descriptor count as one call each, and so does a loop around `std::cin.read`. -/
inductive Call where
  | unlink (path : Bytes)
  | mkfifo (path : Bytes)
  | open_fifo (path : Bytes) (mode : OpenMode)
  | fcntl (fd : Nat)
  | close (fd : Nat)
  | expired
  | sleep
  | write_exact (fd : Nat) (src : Bytes)
  | read_exact (fd : Nat) (count : Nat) (timeout_ms : Int)
  | poll (fd : Nat)
  | install_shutdown_handlers
  | shutdown_requested
  | getline
  | cin_read (count : Nat)
  | cout_write (bytes : Bytes)
  | cout_flush
  | cerr_write (bytes : Bytes)

/-- What a call returns: a read of `std::cin` also whether it is at its end, and a write to `std::cout`
whether the stream is good then. -/
def Call.Answer : Call → Type
  | mkfifo _ | expired | install_shutdown_handlers | shutdown_requested | write_exact _ _ | cout_write _ => Bool
  | open_fifo _ _ => OpenResult
  | read_exact _ _ _ => Bool × Bytes
  | poll _ => PollResult × Revents
  | getline => GetlineResult
  | cin_read _ => Bytes × Bool
  | unlink _ | fcntl _ | close _ | sleep | cout_flush | cerr_write _ => Unit

/-- What a process that makes such calls does. -/
abbrev Calls : Type → Type 1 := Program Call.Answer

/-- A process as its surroundings see it: what it did with descriptors, the FIFOs it made and has
not removed, what it gets to read from its FIFO and from the standard input, what each of its
`write_exact` handed over, its standard output and its standard error. -/
structure World where
  acts : List (Act Nat)
  made : List Bytes
  pipe : Bytes
  input : Bytes
  sent : List Bytes
  cout : Ostream UInt8
  cerr : Bytes

namespace World

/-- A process that starts, with what it will get to read, and a standard output that takes `room`
bytes. -/
def start (pipe input : Bytes) (room : Nat) : World := ⟨[], [], pipe, input, [], .start room, []⟩

/-- The descriptors that are open. -/
def fds (self : World) : List Nat := handles id [] self.acts

def act (self : World) (act : Act Nat) : World := { self with acts := self.acts ++ [act] }

/-- No descriptor is used or closed that is not open. -/
def Orderly (self : World) : Prop := Disciplined id [] self.acts

end World

-- What `std::cout` hands on at once in a write.
variable (passes : Bytes → Bytes → Nat)

/-- What the calls may return and do. A new descriptor is one that is not open, a FIFO is not made
twice and has a name, the transfers run on any schedule, and nothing else is said of the system: it may
refuse anything. -/
def Answers (self : World) : (call : Call) → call.Answer → World → Prop
  | .unlink path, _, next => next = { self with made := self.made.filter (· ≠ path) }
  | .mkfifo path, true, next => path ≠ [] ∧ path ∉ self.made ∧ next = { self with made := path :: self.made }
  | .mkfifo _, false, next => next = self
  | .open_fifo _ _, .opened fd, next => fd ∉ self.fds ∧ next = self.act (.acquire fd)
  | .open_fifo _ _, _, next => next = self
  | .fcntl fd, _, next => next = self.act (.use fd)
  | .close fd, _, next => next = self.act (.release fd)
  | .expired, _, next | .sleep, _, next | .install_shutdown_handlers, _, next | .shutdown_requested, _, next =>
    next = self
  | .write_exact fd src, ok, next => ∃ kernel sent fuel,
    (FifoWriter.mk fd).write_exact kernel src fuel = some (ok, sent) ∧
      next = { self.act (.use fd) with sent := self.sent ++ [sent] }
  | .read_exact fd count timeout_ms, (ok, dest), next => ∃ poll read left fuel,
    (FifoReader.mk fd).read_exact poll read timeout_ms (List.replicate count 0) self.pipe fuel = some (ok, dest, left) ∧
      next = { self.act (.use fd) with pipe := left }
  | .poll fd, _, next => next = self.act (.use fd)
  | .getline, .line line, next => self.input ≠ [] ∧ 10 ∉ line ∧ ∃ rest, next = { self with input := rest } ∧
    (self.input = line ++ 10 :: rest ∨ self.input = line ∧ rest = [])
  | .getline, .eof, next => self.input = [] ∧ next = self
  | .getline, .bad, next => next = self
  | .cin_read count, (bytes, eof), next => bytes <+: self.input.take count ∧
    (bytes.length < count → eof = true → bytes = self.input) ∧
      next = { self with input := self.input.drop bytes.length }
  | .cout_write bytes, good, next =>
    good = (self.cout.write passes bytes).good ∧ next = { self with cout := self.cout.write passes bytes }
  | .cout_flush, _, next => next = { self with cout := self.cout.flush }
  | .cerr_write bytes, _, next => next = { self with cerr := self.cerr ++ bytes }

/-- A number that is not among these. -/
def unused (numbers : List Nat) : Nat := numbers.foldr (· + ·) 0 + 1

/-- A system that refuses nothing: `open` finds a reader, the transfers are done in one piece, and a
read fails only when its bytes do not come. -/
def oblige (self : World) : (call : Call) → call.Answer × World
  | .unlink path => ((), { self with made := self.made.filter (· ≠ path) })
  | .mkfifo path =>
    if path ≠ [] ∧ self.made.all (· ≠ path) then (true, { self with made := path :: self.made }) else (false, self)
  | .open_fifo _ _ => (.opened (unused self.fds), self.act (.acquire (unused self.fds)))
  | .fcntl fd => ((), self.act (.use fd))
  | .close fd => ((), self.act (.release fd))
  | .expired | .shutdown_requested => (false, self)
  | .install_shutdown_handlers => (true, self)
  | .sleep => ((), self)
  | .write_exact fd src => (true, { self.act (.use fd) with sent := self.sent ++ [src] })
  | .read_exact fd count _ =>
    if count ≤ self.pipe.length then
      ((true, self.pipe.take count), { self.act (.use fd) with pipe := self.pipe.drop count })
    else
      ((false, self.pipe ++ List.replicate (count - self.pipe.length) 0), { self.act (.use fd) with pipe := [] })
  | .poll fd => ((.ready, ⟨false, true⟩), self.act (.use fd))
  | .getline =>
    if self.input = [] then (.eof, self)
    else (.line (self.input.takeWhile (· != 10)), { self with input := (self.input.dropWhile (· != 10)).drop 1 })
  | .cin_read count =>
    ((self.input.take count, decide (self.input.length < count)), { self with input := self.input.drop count })
  | .cout_write bytes => ((self.cout.write passes bytes).good, { self with cout := self.cout.write passes bytes })
  | .cout_flush => ((), { self with cout := self.cout.flush })
  | .cerr_write bytes => ((), { self with cerr := self.cerr ++ bytes })

/-- Everything is written in one piece. -/
theorem write_exact_at_once (fd : Nat) (src : Bytes) :
    (FifoWriter.mk fd).write_exact (fun _ => .wrote src.length) src 2 = some (true, src) := by
  rw [FifoWriter.write_exact, if_neg (Int.not_lt.mpr (Int.natCast_nonneg fd))]
  by_cases hsrc : src = []
  · subst hsrc
    rfl
  · have hpos : 0 < src.length := List.length_pos_iff.mpr hsrc
    simp [turns, FifoWriter.write_turn, hpos]

/-- A `::read` that asks for all there is to read. -/
theorem read_some_at_once {count : Nat} (hcount : count ≠ 0) {stream : Bytes} (hstream : stream ≠ []) :
    FifoReader.read_some (.got count) ⟨0, List.replicate count 0, stream⟩ =
      .inl ⟨min count stream.length, stream.take count ++ List.replicate (count - stream.length) 0,
        stream.drop count⟩ := by
  have hpos : 0 < stream.length := List.length_pos_iff.mpr hstream
  have hlength : (stream.take count).length = min count stream.length := List.length_take
  have hdest : FifoReader.store (List.replicate count 0) 0 (stream.take count) =
      stream.take count ++ List.replicate (count - stream.length) 0 := by
    rw [FifoReader.store, List.take_zero, List.nil_append, List.drop_replicate, hlength]
    congr 2
    omega
  have hleft : stream.drop (stream.take count).length = stream.drop count := by
    rw [hlength]
    rcases Nat.le_total count stream.length with hle | hle
    · rw [Nat.min_eq_left hle]
    · rw [Nat.min_eq_right hle, List.drop_length, List.drop_of_length_le hle]
  simp only [FifoReader.read_some, List.length_replicate, Nat.sub_zero, Nat.min_self, hdest, hleft, Nat.zero_add]
  rw [if_neg (by omega), hlength]

/-- What is there is read in one piece, and then there is no more. -/
theorem read_exact_at_once (fd count : Nat) (timeout_ms : Int) (stream : Bytes) :
    (FifoReader.mk fd).read_exact (fun _ => .ready) (fun _ => .got count) timeout_ms (List.replicate count 0) stream 3 =
      if count ≤ stream.length then some (true, stream.take count, stream.drop count)
      else some (false, stream ++ List.replicate (count - stream.length) 0, []) := by
  rw [FifoReader.read_exact, if_neg (Int.not_lt.mpr (Int.natCast_nonneg fd))]
  have hturn : ∀ loop : FifoReader.Loop, FifoReader.read_turn timeout_ms .ready (.got count) loop =
      if loop.total < loop.dest.length then FifoReader.read_some (.got count) loop
      else .inr (true, loop.dest, loop.unread) := by
    intro loop
    rw [FifoReader.read_turn]
    split
    · split <;> rfl
    · rfl
  have hnone : ∀ total dest, FifoReader.read_some (.got count) ⟨total, dest, []⟩ = .inr (false, dest, []) := by
    simp [FifoReader.read_some]
  simp only [turns, hturn, List.length_replicate]
  by_cases hcount : count = 0
  · simp [hcount]
  · rw [if_pos (by omega)]
    by_cases hstream : stream = []
    · rw [hstream, hnone, if_neg (by simpa using hcount)]
      simp
    · rw [read_some_at_once hcount hstream]
      dsimp only
      by_cases henough : count ≤ stream.length
      · rw [if_neg (by simp; omega), if_pos henough]
        simp [Nat.sub_eq_zero_of_le henough]
      · have hall : stream.length ≤ count := by omega
        rw [if_pos (by simp; omega), List.drop_of_length_le hall, hnone, if_neg henough, List.take_of_length_le hall]

theorem unused_not_mem (numbers : List Nat) : unused numbers ∉ numbers := by
  have hle : ∀ number ∈ numbers, number ≤ numbers.foldr (· + ·) 0 := by
    induction numbers with
    | nil => exact List.forall_mem_nil _
    | cons first rest ih =>
      refine List.forall_mem_cons.mpr ⟨Nat.le_add_right _ _, fun number hmem => ?_⟩
      exact Nat.le_trans (ih number hmem) (Nat.le_add_left _ _)
  exact fun hmem => Nat.not_succ_le_self _ (hle _ hmem)

theorem answers_oblige (self : World) (call : Call) :
    Answers passes self call (oblige passes self call).1 (oblige passes self call).2 := by
  cases call with
  | mkfifo path =>
    rw [oblige]
    split
    · rename_i hnew
      refine ⟨hnew.1, fun hmem => ?_, rfl⟩
      exact of_decide_eq_true (List.all_eq_true.mp hnew.2 path hmem) rfl
    · rfl
  | open_fifo path mode => exact ⟨unused_not_mem _, rfl⟩
  | write_exact fd src => exact ⟨_, _, _, write_exact_at_once fd src, rfl⟩
  | read_exact fd count timeout_ms =>
    have hread := read_exact_at_once fd count timeout_ms self.pipe
    rw [oblige]
    split
    · rename_i henough
      rw [if_pos henough] at hread
      exact ⟨_, _, _, _, hread, rfl⟩
    · rename_i hshort
      rw [if_neg hshort] at hread
      exact ⟨_, _, _, _, hread, rfl⟩
  | getline =>
    rw [oblige]
    split
    · rename_i hempty
      exact ⟨hempty, rfl⟩
    · rename_i hsome
      refine ⟨hsome, ?_, _, rfl, ?_⟩
      · intro hmem
        simpa using List.mem_takeWhile_imp hmem
      · have hsplit := List.takeWhile_append_dropWhile (p := (· != 10)) (l := self.input)
        cases hrest : self.input.dropWhile (· != 10) with
        | nil =>
          rw [hrest, List.append_nil] at hsplit
          exact .inr ⟨hsplit.symm, rfl⟩
        | cons first rest =>
          have hfirst := List.head_dropWhile_not (· != 10) (l := self.input) (by simp [hrest])
          simp only [hrest, List.head_cons, bne_eq_false_iff_eq] at hfirst
          rw [hrest, hfirst] at hsplit
          exact .inl hsplit.symm
  | cin_read count =>
    have hdrop : self.input.drop (self.input.take count).length = self.input.drop count := by
      rw [List.length_take]
      rcases Nat.le_total count self.input.length with hle | hle
      · rw [Nat.min_eq_left hle]
      · rw [Nat.min_eq_right hle, List.drop_length, List.drop_of_length_le hle]
    rw [oblige]
    refine ⟨List.prefix_refl _, fun _ heof => List.take_of_length_le ?_, by rw [hdrop]⟩
    exact Nat.le_of_lt (of_decide_eq_true heof)
  | cout_write => exact ⟨rfl, rfl⟩
  | _ => rfl

/-- A call as a program of its own. -/
def ask (call : Call) : Calls call.Answer := .request call

namespace Sys

def unlink (path : Bytes) : Calls Unit := ask (.unlink path)
def mkfifo (path : Bytes) : Calls Bool := ask (.mkfifo path)
def open_fifo (path : Bytes) (mode : OpenMode) : Calls OpenResult := ask (.open_fifo path mode)
def fcntl (fd : Nat) : Calls Unit := ask (.fcntl fd)
def close (fd : Nat) : Calls Unit := ask (.close fd)
def expired : Calls Bool := ask .expired
def sleep : Calls Unit := ask .sleep
def write_exact (fd : Nat) (src : Bytes) : Calls Bool := ask (.write_exact fd src)
def read_exact (fd count : Nat) (timeout_ms : Int) : Calls (Bool × Bytes) :=
  ask (.read_exact fd count timeout_ms)
def poll (fd : Nat) : Calls (PollResult × Revents) := ask (.poll fd)
def install_shutdown_handlers : Calls Bool := ask .install_shutdown_handlers
def shutdown_requested : Calls Bool := ask .shutdown_requested
def getline : Calls GetlineResult := ask .getline
def cin_read (count : Nat) : Calls (Bytes × Bool) := ask (.cin_read count)
def cout_write (bytes : Bytes) : Calls Bool := ask (.cout_write bytes)
def cout_flush : Calls Unit := ask .cout_flush
def cerr_write (bytes : Bytes) : Calls Unit := ask (.cerr_write bytes)

end Sys

def is_reader_active (path : Bytes) : Calls Bool := do
  match ← Sys.open_fifo path .write_only with
  | .opened fd =>
    Sys.close fd
    return true
  | _ => return false

/-- The members `fd_` and `path_`, which both classes have. No descriptor is `-1`. -/
structure Members where
  fd : Option Nat
  path : Bytes
  deriving DecidableEq

namespace Members

/-- An object that was never opened, was moved from or was closed. -/
def empty : Members := ⟨none, []⟩

def is_open (self : Members) : Bool := self.fd.isSome

/-- The members of a new object and of the one it was moved from. -/
def move_construct (other : Members) : Members × Members := (other, empty)

def close_fd (self : Members) : Calls Unit :=
  match self.fd with
  | some fd => Sys.close fd
  | none => return ()

def write_exact (self : Members) (src : Bytes) : Calls Bool :=
  match self.fd with
  | some fd => Sys.write_exact fd src
  | none => return false

/-- The result and the `count` bytes at `dest`. -/
def read_exact (self : Members) (count : Nat) (timeout_ms : Int) : Calls (Bool × Bytes) :=
  match self.fd with
  | some fd => Sys.read_exact fd count timeout_ms
  | none => return (false, List.replicate count 0)

end Members

namespace FifoReader

def create (path : Bytes) (read_write : Bool) : Calls Members := do
  Sys.unlink path
  if ← Sys.mkfifo path then
    match ← Sys.open_fifo path (if read_write then .read_write else .read_only) with
    | .opened fd =>
      if !read_write then
        Sys.fcntl fd
        Sys.fcntl fd
      return ⟨some fd, path⟩
    | _ =>
      Sys.unlink path
      return .empty
  else return .empty

/-- `close`, and the destructor. The object is empty after it. -/
def close (self : Members) : Calls Unit := do
  self.close_fd
  if self.path ≠ [] then
    Sys.unlink self.path

/-- The members of both objects after the assignment of one to another. -/
def move_assign (self other : Members) : Calls (Members × Members) := do
  close self
  return other.move_construct

end FifoReader

namespace FifoWriter

/-- A turn of the loop of `open`. -/
def open_turn (path : Bytes) : Calls (Unit ⊕ Members) := do
  match ← Sys.open_fifo path .write_only with
  | .opened fd =>
    Sys.fcntl fd
    Sys.fcntl fd
    return .inr ⟨some fd, path⟩
  | .failed => return .inr .empty
  | .unready =>
    if ← Sys.expired then return .inr .empty
    else
      Sys.sleep
      return .inl ()

/-- `FifoWriter::open`. -/
def open_fifo (path : Bytes) : Calls Members := .loop (fun _ => open_turn path) ()

def close (self : Members) : Calls Unit := self.close_fd

def move_assign (self other : Members) : Calls (Members × Members) := do
  close self
  return other.move_construct

end FifoWriter

/-- A variable of one of the classes. -/
inductive Object where
  | reader (members : Members)
  | writer (members : Members)
  deriving DecidableEq

namespace Object

def members : Object → Members
  | reader members => members
  | writer members => members

def put (self : Object) (members : Members) : Object :=
  match self with
  | reader _ => reader members
  | writer _ => writer members

def close : Object → Calls Unit
  | reader members => FifoReader.close members
  | writer members => FifoWriter.close members

/-- What is done with the variables of a program: they are defined from nothing, from `create`, from
`open` or from another, assigned, used, closed, and destroyed. -/
inductive Op where
  | construct_reader
  | construct_writer
  | create (path : Bytes) (read_write : Bool)
  | open_fifo (path : Bytes)
  | move_construct (source : Nat)
  | move_assign (target source : Nat)
  | write_exact (x : Nat) (src : Bytes)
  | read_exact (x count : Nat) (timeout_ms : Int)
  | close (x : Nat)
  | destroy (x : Nat)
  deriving DecidableEq

end Object

end treenity.ipc

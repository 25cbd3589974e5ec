import Treenity.DataStructures.PrefixTree.Tree
import Treenity.Protocol.Response

open treenity.protocol treenity.data_structures

namespace treenity.server

/-- `std::hash` at the three key types of the server's tables. -/
structure StdHash where
  string : Bytes → Nat
  char : UInt8 → Nat
  uint32 : UInt32 → Nat

/-- A file descriptor; the `-1` of the source is `none` of `Option Fd`. -/
abbrev Fd := Nat

structure Message where
  offset : UInt32
  key : Bytes
  value : Bytes
  deriving DecidableEq

structure ActiveSubscriber where
  client_id : Bytes
  pref : Bytes
  fifo_path : Bytes
  fifo_fd : Option Fd
  next_offset : UInt32
  deriving DecidableEq

/-- The system calls a topic makes on the descriptors of its subscribers, with the
answer of the kernel. A write is taken whole or fails. -/
inductive Syscall where
  | opened (fd : Fd) (path : Bytes)
  | write (fd : Fd) (bytes : Bytes) (taken : Bool)
  | close (fd : Fd)
  deriving DecidableEq

/-- The members of `Topic`, less the thread and its synchronisation. -/
structure Topic (H : StdHash) where
  name : Bytes
  messages : List Message
  prefix_tree : PrefixTree H.char
  subscribers : HashMap Bytes ActiveSubscriber H.string
  stop_flag : Bool

/-- The frame the worker writes for a message. -/
def Message.frame (self : Message) : Bytes :=
  Response.serialize_delivery self.offset self.key self.value

/-- The body of `if (is_matched && sub.fifo_fd != -1)`. -/
def ActiveSubscriber.offer (self : ActiveSubscriber) (msg : Message) (is_matched taken : Bool) :
    ActiveSubscriber × List Syscall :=
  match is_matched, self.fifo_fd with
  | true, some fd =>
    if taken then (self, [.write fd msg.frame true])
    else ({ self with fifo_fd := none }, [.write fd msg.frame false, .close fd])
  | _, _ => (self, [])

namespace Topic

variable {H : StdHash}

def new (topic_name : Bytes) : Topic H where
  name := topic_name
  messages := []
  prefix_tree := PrefixTree.new
  subscribers := HashMap.new
  stop_flag := false

/-- `if (fd != -1) close(fd);` -/
def close_fd : Option Fd → List Syscall
  | some fd => [.close fd]
  | none => []

/-- What `add_subscriber` and `remove_subscriber` do to an entry they find: it
leaves the tree, its descriptor is closed and it is erased. -/
def drop_subscriber (self : Topic H) (client_id : Bytes) : Topic H × List Syscall :=
  match self.subscribers.find client_id with
  | none => (self, [])
  | some sub =>
    ({ self with
        prefix_tree := (self.prefix_tree.remove sub.pref client_id).2
        subscribers := self.subscribers.erase client_id },
      close_fd sub.fifo_fd)

/-- `opened` is the answer of `open(fifo_path, O_WRONLY | O_NONBLOCK)`. -/
def add_subscriber (self : Topic H) (client_id pref fifo_path : Bytes) (start_offset : UInt32)
    (opened : Option Fd) : Bool × Topic H × List Syscall :=
  let (dropped, closed) := self.drop_subscriber client_id
  match opened with
  | none => (false, dropped, closed)
  | some fd =>
    let sub : ActiveSubscriber :=
      { client_id, pref, fifo_path, fifo_fd := some fd, next_offset := start_offset }
    (true,
      { dropped with
        prefix_tree := dropped.prefix_tree.insert pref client_id
        subscribers := dropped.subscribers.insert client_id sub },
      closed ++ [.opened fd fifo_path])

def remove_subscriber (self : Topic H) (client_id : Bytes) : Bool × Topic H × List Syscall :=
  match self.subscribers.find client_id with
  | none => (false, self, [])
  | some _ => (true, self.drop_subscriber client_id)

def append_message (self : Topic H) (key value : Bytes) : Topic H :=
  let current_offset := to_uint32 self.messages.length
  { self with messages := self.messages ++ [{ offset := current_offset, key, value }] }

/-- One turn of `while (sub.next_offset < messages.size())` for the entry of
`client_id`. `none` is the end of that loop; `taken` is the answer to the write,
if the turn makes one. -/
def deliver_next (self : Topic H) (client_id : Bytes) (taken : Bool) :
    Option (Topic H × List Syscall) :=
  match self.subscribers.find client_id with
  | none => none
  | some sub =>
    match self.messages[sub.next_offset.toNat]? with
    | none => none
    | some msg =>
      let is_matched := (self.prefix_tree.matching_clients msg.key).contains sub.client_id
      let (offered, calls) := sub.offer msg is_matched taken
      some ({ self with
        subscribers := self.subscribers.replace client_id
          { offered with next_offset := sub.next_offset + 1 } }, calls)

/-- The `while` loop for one subscriber; the answers to its writes come from
`outcomes`. `none` is a loop that has not ended after `fuel` turns. -/
def deliver_pending (client_id : Bytes) : Nat → Topic H → List Bool →
    Option (Topic H × List Syscall × List Bool)
  | fuel, self, outcomes =>
    match self.deliver_next client_id (outcomes.headD true) with
    | none => some (self, [], outcomes)
    | some (next, calls) =>
      match fuel with
      | 0 => none
      | fuel + 1 =>
        match deliver_pending client_id fuel next outcomes.tail with
        | none => none
        | some (last, more, rest) => some (last, calls ++ more, rest)

/-- The `for` loop over the entries, in iteration order. -/
def deliver_each (fuel : Nat) : List Bytes → Topic H → List Bool → Option (Topic H × List Syscall)
  | [], self, _ => some (self, [])
  | client_id :: rest, self, outcomes =>
    match deliver_pending client_id fuel self outcomes with
    | none => none
    | some (next, calls, left) =>
      match deliver_each fuel rest next left with
      | none => none
      | some (last, more) => some (last, calls ++ more)

/-- A delivery pass of `run`, made with the topic locked. -/
def run_pass (fuel : Nat) (self : Topic H) (outcomes : List Bool) : Option (Topic H × List Syscall) :=
  deliver_each fuel self.subscribers.keys self outcomes

/-- The condition the worker waits for, less `stop_flag`, on which it ends. -/
def has_pending (self : Topic H) : Bool :=
  self.subscribers.entries.any (fun entry => entry.2.next_offset.toNat < self.messages.length)

def has_work (self : Topic H) : Bool := self.stop_flag || self.has_pending

end Topic

end treenity.server

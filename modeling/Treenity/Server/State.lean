import Treenity.Ipc.Path
import Treenity.Topic.Registration

open treenity.protocol treenity.data_structures treenity.ipc

namespace treenity.server

structure ClientMetadata where
  client_id : Bytes
  topic : Bytes
  offset : UInt32
  pref : Bytes
  ipc_path : Bytes
  is_active : Bool
  deriving DecidableEq

/-- The tables of `Server`, less the descriptor of its FIFO and its synchronisation. -/
structure Server (H : StdHash) where
  topics : HashMap Bytes (Topic H) H.string
  client_index : HashMap Bytes ClientMetadata H.string
  producer_topics : HashMap UInt32 Bytes H.uint32

/-- What a handler does outside the tables: it answers on the FIFO of a client, it
calls `add_subscriber` of a topic, or a topic makes a system call. -/
inductive Effect where
  | response (fifo_path bytes : Bytes)
  | add_subscriber (topic_name client_id pref fifo_path : Bytes) (start_offset : UInt32)
  | syscall (call : Syscall)
  deriving DecidableEq

/-- The kernel as a handler sees it: which FIFOs have a reader when
`is_reader_active` probes them, and what `open` for delivery gives. -/
structure Kernel where
  reader_active : Bytes → Bool
  open_fifo : Bytes → Option Fd

namespace Server

variable {H : StdHash}

def new : Server H := ⟨HashMap.new, HashMap.new, HashMap.new⟩

/-- `isalnum` in the "C" locale. -/
def isalnum (c : UInt8) : Bool := (48 ≤ c && c ≤ 57) || (65 ≤ c && c ≤ 90) || (97 ≤ c && c ≤ 122)

/-- The characters beside `isalnum` are the underscore, the dot and the hyphen. -/
def is_valid_identifier (str : Bytes) : Bool :=
  if str.isEmpty || str.length > 32 then false
  else str.all (fun c => isalnum c || c == 95 || c == 46 || c == 45)

def send_response (client_pid : UInt32) (status : StatusCode) (payload : Bytes) : Effect :=
  .response (client_fifo_path client_pid) (Response.serialize_response status payload)

/-- The subscript makes the entry, which the assignment then fills. -/
def create_topic (self : Server H) (topic_name : Bytes) : Bool × Server H :=
  if self.topics.contains topic_name then (false, self)
  else (true, { self with topics := self.topics.subscript topic_name (Topic.new topic_name) })

def get_topic (self : Server H) (topic_name : Bytes) : Option (Topic H) := self.topics.find topic_name

/-- Writing through the pointer to a topic. -/
def set_topic (self : Server H) (topic_name : Bytes) (topic : Topic H) : Server H :=
  { self with topics := self.topics.replace topic_name topic }

/-- The registration of a client in a topic. -/
def entry (self : Server H) (topic_name client_id : Bytes) : Option ActiveSubscriber :=
  (self.topics.find topic_name).bind (fun topic => topic.subscribers.find client_id)

/-- The log of a topic. -/
def log (self : Server H) (topic_name : Bytes) : List Message :=
  ((self.topics.find topic_name).map Topic.messages).getD []

@[simp] theorem new_entry (topic_name client_id : Bytes) :
    (new : Server H).entry topic_name client_id = none := by
  simp [new, entry]

@[simp] theorem new_log (topic_name : Bytes) : (new : Server H).log topic_name = [] := by
  simp [new, log]

@[simp] theorem set_topic_client_index (self : Server H) (topic_name : Bytes) (topic : Topic H) :
    (self.set_topic topic_name topic).client_index = self.client_index := rfl

theorem set_topic_find {self : Server H} {topic_name : Bytes} {old : Topic H}
    (hfound : self.topics.find topic_name = some old) (topic : Topic H) (other : Bytes) :
    (self.set_topic topic_name topic).topics.find other =
      if other = topic_name then some topic else self.topics.find other :=
  HashMap.find_replace_of_find hfound topic other

theorem set_topic_entry {self : Server H} {topic_name : Bytes} {old : Topic H}
    (hfound : self.topics.find topic_name = some old) (topic : Topic H) (other client_id : Bytes) :
    (self.set_topic topic_name topic).entry other client_id =
      if other = topic_name then topic.subscribers.find client_id else self.entry other client_id := by
  rw [entry, set_topic_find hfound]
  split <;> rfl

theorem set_topic_log {self : Server H} {topic_name : Bytes} {old : Topic H}
    (hfound : self.topics.find topic_name = some old) (topic : Topic H) (other : Bytes) :
    (self.set_topic topic_name topic).log other =
      if other = topic_name then topic.messages else self.log other := by
  rw [log, set_topic_find hfound]
  split <;> rfl

theorem entry_of_find {self : Server H} {topic_name : Bytes} {topic : Topic H}
    (hfound : self.topics.find topic_name = some topic) (client_id : Bytes) :
    self.entry topic_name client_id = topic.subscribers.find client_id := by
  rw [entry, hfound]
  rfl

theorem log_of_find {self : Server H} {topic_name : Bytes} {topic : Topic H}
    (hfound : self.topics.find topic_name = some topic) : self.log topic_name = topic.messages := by
  rw [log, hfound]
  rfl

end Server

end treenity.server

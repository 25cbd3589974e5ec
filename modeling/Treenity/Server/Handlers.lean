import Treenity.Protocol.Frame
import Treenity.Protocol.Response
import Treenity.Server.State

open treenity.protocol treenity.data_structures treenity.ipc

namespace treenity.server.Server

variable {H : StdHash}

def handle_create (self : Server H) (payload : Bytes) : Server H × List Effect :=
  match Request.parse_create payload with
  | .error _ => (self, [])
  | .ok (client_pid, topic_name) =>
    if !is_valid_identifier topic_name then (self, [send_response client_pid .GENERAL_ERROR []])
    else
      let (created, next) := self.create_topic topic_name
      if !created then (next, [send_response client_pid .TOPIC_CLIENT_ERR []])
      else (next, [send_response client_pid .SUCCESS []])

/-- The names of the topics in iteration order, with commas between them. -/
def handle_list (self : Server H) (payload : Bytes) : Server H × List Effect :=
  match Request.parse_list payload with
  | .error _ => (self, [])
  | .ok client_pid => (self, [send_response client_pid .SUCCESS ([44].intercalate self.topics.keys)])

/-- The JSON object of the INFO response. -/
def info_json (client_metadata : ClientMetadata) : Bytes :=
  ascii "\x7b\"client\":\"" ++ client_metadata.client_id ++ ascii "\",\"topic\":\"" ++ client_metadata.topic ++
    ascii "\",\"offset\":" ++ to_string client_metadata.offset ++ ascii ",\"prefix\":\"" ++
    client_metadata.pref ++ ascii "\",\"ipc\":\"" ++ client_metadata.ipc_path ++ ascii "\"\x7d"

def handle_info (self : Server H) (payload : Bytes) : Server H × List Effect :=
  match Request.parse_info payload with
  | .error _ => (self, [])
  | .ok (client_pid, client_id) =>
    match self.client_index.find client_id with
    | none => (self, [send_response client_pid .TOPIC_CLIENT_ERR []])
    | some client_metadata => (self, [send_response client_pid .SUCCESS (info_json client_metadata)])

def handle_producer_connect (self : Server H) (payload : Bytes) : Server H × List Effect :=
  match Request.parse_connect payload with
  | .error _ => (self, [])
  | .ok (client_pid, topic_name) =>
    match self.get_topic topic_name with
    | none => (self, [send_response client_pid .TOPIC_CLIENT_ERR []])
    | some _ =>
      ({ self with producer_topics := self.producer_topics.insert_or_assign client_pid topic_name },
        [send_response client_pid .SUCCESS []])

def handle_publish (self : Server H) (payload : Bytes) : Server H × List Effect :=
  match Request.parse_produce payload with
  | .error _ => (self, [])
  | .ok (topic_name, key, value) =>
    if topic_name.isEmpty then (self, [])
    else
      match self.get_topic topic_name with
      | none => (self, [])
      | some topic => (self.set_topic topic_name (topic.append_message key value), [])

/-- What an accepted SUBSCRIBE still has to do: the arguments of `add_subscriber`. -/
structure Subscription where
  topic : Bytes
  client_id : Bytes
  pref : Bytes
  consumer_ipc : Bytes
  start_offset : UInt32
  deriving DecidableEq

/-- `req_offset` if it was given, else the recorded offset, else zero. -/
def start_offset (req_offset : UInt32) (recorded : Option ClientMetadata) : UInt32 :=
  if req_offset ≠ OFFSET_UNSET then req_offset
  else
    match recorded with
    | some client_metadata => client_metadata.offset
    | none => 0

/-- Whether a SUBSCRIBE is turned away because its name is in use. -/
def in_use (recorded : Option ClientMetadata) (reader_active : Bytes → Bool) : Bool :=
  match recorded with
  | some client_metadata => client_metadata.is_active && reader_active client_metadata.ipc_path
  | none => false

/-- `handle_subscriber_connect` up to and including the response. -/
def accept_subscriber (self : Server H) (payload : Bytes) (reader_active : Bytes → Bool) :
    Option Subscription × Server H × List Effect :=
  match Request.parse_subscribe payload with
  | .error _ => (none, self, [])
  | .ok request =>
    if !is_valid_identifier request.client_id || !is_valid_identifier request.topic then
      (none, self, [send_response request.pid .GENERAL_ERROR []])
    else
      match self.topics.find request.topic with
      | none => (none, self, [send_response request.pid .TOPIC_CLIENT_ERR []])
      | some _ =>
        let recorded := self.client_index.find request.client_id
        if in_use recorded reader_active then
          (none, self, [send_response request.pid .TOPIC_CLIENT_ERR []])
        else
          let offset := start_offset request.offset recorded
          let consumer_ipc := client_fifo_path request.pid
          let new_meta : ClientMetadata :=
            { client_id := request.client_id, topic := request.topic, offset, pref := request.pref,
              ipc_path := consumer_ipc, is_active := true }
          (some ⟨request.topic, request.client_id, request.pref, consumer_ipc, offset⟩,
            { self with client_index := self.client_index.insert_or_assign request.client_id new_meta },
            [send_response request.pid .SUCCESS []])

/-- The rest of `handle_subscriber_connect`; `opened` is what `open` gives. -/
def register_subscriber (self : Server H) (sub : Subscription) (opened : Option Fd) :
    Server H × List Effect :=
  match self.topics.find sub.topic with
  | none => (self, [])
  | some topic =>
    let (_, next, calls) :=
      topic.add_subscriber sub.client_id sub.pref sub.consumer_ipc sub.start_offset opened
    (self.set_topic sub.topic next,
      .add_subscriber sub.topic sub.client_id sub.pref sub.consumer_ipc sub.start_offset ::
        calls.map .syscall)

def handle_subscriber_connect (self : Server H) (payload : Bytes) (kernel : Kernel) :
    Server H × List Effect :=
  match self.accept_subscriber payload kernel.reader_active with
  | (none, next, effects) => (next, effects)
  | (some sub, accepted, effects) =>
    let (next, more) := accepted.register_subscriber sub (kernel.open_fifo sub.consumer_ipc)
    (next, effects ++ more)

def handle_commit (self : Server H) (payload : Bytes) : Server H × List Effect :=
  match Request.parse_ack payload with
  | .error _ => (self, [])
  | .ok (client_id, next_offset) =>
    match self.client_index.find client_id with
    | none => (self, [])
    | some client_metadata =>
      ({ self with
          client_index := self.client_index.replace client_id { client_metadata with offset := next_offset } },
        [])

def handle_disconnect (self : Server H) (payload : Bytes) : Server H × List Effect :=
  match Request.parse_disconnect payload with
  | .error _ => (self, [])
  | .ok client_id =>
    match self.client_index.find client_id with
    | none => (self, [])
    | some client_metadata =>
      let next : Server H :=
        { self with
          client_index := self.client_index.replace client_id { client_metadata with is_active := false } }
      match next.topics.find client_metadata.topic with
      | none => (next, [])
      | some topic =>
        let (_, removed, calls) := topic.remove_subscriber client_id
        (next.set_topic client_metadata.topic removed, calls.map .syscall)

def handle_request (self : Server H) (action : UInt8) (payload : Bytes) (kernel : Kernel) :
    Server H × List Effect :=
  match action.toNat with
  | 1 => self.handle_create payload
  | 2 => self.handle_list payload
  | 3 => self.handle_info payload
  | 4 => self.handle_producer_connect payload
  | 5 => self.handle_publish payload
  | 6 => self.handle_subscriber_connect payload kernel
  | 7 => self.handle_commit payload
  | 8 => self.handle_disconnect payload
  | _ => (self, [])

end treenity.server.Server

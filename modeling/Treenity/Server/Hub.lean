import Mathlib.Logic.Function.Basic
import Treenity.Server.Topics

open treenity.protocol treenity.data_structures treenity.ipc

namespace treenity.server

/-- A topic as its users see it: what was said, in order, and who listens from where on. -/
structure Channel where
  messages : List Message
  subscribers : Bytes → Option ActiveSubscriber

/-- The broker as its users see it, without hash tables and trees. -/
structure Hub where
  topics : Bytes → Option Channel
  client_index : Bytes → Option ClientMetadata
  producer_topics : UInt32 → Option Bytes

/-- What a request asks for, once it is read. -/
inductive Demand where
  | create (client_pid : UInt32) (topic_name : Bytes)
  | list (client_pid : UInt32)
  | info (client_pid : UInt32) (client_id : Bytes)
  | connect (client_pid : UInt32) (topic_name : Bytes)
  | publish (topic_name key value : Bytes)
  | subscribe (request : Request.Subscribe)
  | commit (client_id : Bytes) (next_offset : UInt32)
  | disconnect (client_id : Bytes)
  | nothing

/-- A request that cannot be read asks for nothing. -/
def Demand.read (action : UInt8) (payload : Bytes) : Demand :=
  match action.toNat with
  | 1 => match Request.parse_create payload with
    | .ok (client_pid, topic_name) => .create client_pid topic_name
    | .error _ => .nothing
  | 2 => match Request.parse_list payload with
    | .ok client_pid => .list client_pid
    | .error _ => .nothing
  | 3 => match Request.parse_info payload with
    | .ok (client_pid, client_id) => .info client_pid client_id
    | .error _ => .nothing
  | 4 => match Request.parse_connect payload with
    | .ok (client_pid, topic_name) => .connect client_pid topic_name
    | .error _ => .nothing
  | 5 => match Request.parse_produce payload with
    | .ok (topic_name, key, value) => .publish topic_name key value
    | .error _ => .nothing
  | 6 => match Request.parse_subscribe payload with
    | .ok request => .subscribe request
    | .error _ => .nothing
  | 7 => match Request.parse_ack payload with
    | .ok (client_id, next_offset) => .commit client_id next_offset
    | .error _ => .nothing
  | 8 => match Request.parse_disconnect payload with
    | .ok client_id => .disconnect client_id
    | .error _ => .nothing
  | _ => .nothing

namespace Channel

def empty : Channel := ⟨[], fun _ => none⟩

/-- A message gets the number of those before it. -/
def append (self : Channel) (key value : Bytes) : Channel :=
  { self with messages := self.messages ++ [⟨to_uint32 self.messages.length, key, value⟩] }

/-- A client stops to listen. -/
def leave (self : Channel) (client_id : Bytes) : Channel × List Syscall :=
  ({ self with subscribers := Function.update self.subscribers client_id none },
    Topic.close_fd ((self.subscribers client_id).bind ActiveSubscriber.fifo_fd))

/-- A client listens, and no more to what it listened to before. -/
def join (self : Channel) (sub : Server.Subscription) (opened : Option Fd) : Channel × List Syscall :=
  match opened with
  | none => self.leave sub.client_id
  | some fd =>
    ({ self with
        subscribers := Function.update self.subscribers sub.client_id
          (some ⟨sub.client_id, sub.pref, sub.consumer_ipc, some fd, sub.start_offset⟩) },
      (self.leave sub.client_id).2 ++ [.opened fd sub.consumer_ipc])

/-- A client hears the next message, if there is one. -/
def deliver (self : Channel) (client_id : Bytes) (taken : Bool) : Option (Channel × List Syscall) :=
  (self.subscribers client_id).bind fun sub => self.messages[sub.next_offset.toNat]?.map fun msg =>
    ({ self with subscribers := Function.update self.subscribers client_id (some (sub.served msg taken).1) },
      (sub.served msg taken).2)

end Channel

namespace Hub

def empty : Hub := ⟨fun _ => none, fun _ => none, fun _ => none⟩

def set_topic (self : Hub) (topic_name : Bytes) (channel : Channel) : Hub :=
  { self with topics := Function.update self.topics topic_name (some channel) }

/-- A SUBSCRIBE is turned away with a status, or it is accepted. -/
def accept (self : Hub) (request : Request.Subscribe) (reader_active : Bytes → Bool) :
    Except StatusCode Server.Subscription :=
  if !Server.is_valid_identifier request.client_id || !Server.is_valid_identifier request.topic then
    .error .GENERAL_ERROR
  else if (self.topics request.topic).isNone || Server.in_use (self.client_index request.client_id) reader_active then
    .error .TOPIC_CLIENT_ERR
  else .ok ⟨request.topic, request.client_id, request.pref, client_fifo_path request.pid,
    Server.start_offset request.offset (self.client_index request.client_id)⟩

/-- The name belongs to the subscription. -/
def claim (self : Hub) (sub : Server.Subscription) : Hub :=
  { self with
    client_index := Function.update self.client_index sub.client_id
      (some ⟨sub.client_id, sub.topic, sub.start_offset, sub.pref, sub.consumer_ipc, true⟩) }

/-- The client of an accepted subscription begins to listen. -/
def register (self : Hub) (sub : Server.Subscription) (opened : Option Fd) : Hub × List Effect :=
  match self.topics sub.topic with
  | none => (self, [])
  | some channel =>
    (self.set_topic sub.topic (channel.join sub opened).1,
      .add_subscriber sub.topic sub.client_id sub.pref sub.consumer_ipc sub.start_offset ::
        (channel.join sub opened).2.map .syscall)

/-- What is done on a demand. `listing` is the order in which topics are listed. -/
def meet (self : Hub) (listing : List Bytes) (kernel : Kernel) : Demand → Hub × List Effect
  | .create client_pid topic_name =>
    if !Server.is_valid_identifier topic_name then (self, [Server.send_response client_pid .GENERAL_ERROR []])
    else if (self.topics topic_name).isSome then (self, [Server.send_response client_pid .TOPIC_CLIENT_ERR []])
    else (self.set_topic topic_name .empty, [Server.send_response client_pid .SUCCESS []])
  | .list client_pid => (self, [Server.send_response client_pid .SUCCESS ([44].intercalate listing)])
  | .info client_pid client_id =>
    match self.client_index client_id with
    | none => (self, [Server.send_response client_pid .TOPIC_CLIENT_ERR []])
    | some recorded => (self, [Server.send_response client_pid .SUCCESS (Server.info_json recorded)])
  | .connect client_pid topic_name =>
    if (self.topics topic_name).isNone then (self, [Server.send_response client_pid .TOPIC_CLIENT_ERR []])
    else ({ self with producer_topics := Function.update self.producer_topics client_pid (some topic_name) },
      [Server.send_response client_pid .SUCCESS []])
  | .publish topic_name key value =>
    match self.topics topic_name with
    | none => (self, [])
    | some channel => if topic_name.isEmpty then (self, []) else (self.set_topic topic_name (channel.append key value), [])
  | .subscribe request =>
    match self.accept request kernel.reader_active with
    | .error status => (self, [Server.send_response request.pid status []])
    | .ok sub =>
      (((self.claim sub).register sub (kernel.open_fifo sub.consumer_ipc)).1,
        Server.send_response request.pid .SUCCESS [] ::
          ((self.claim sub).register sub (kernel.open_fifo sub.consumer_ipc)).2)
  | .commit client_id next_offset =>
    match self.client_index client_id with
    | none => (self, [])
    | some recorded =>
      ({ self with
          client_index := Function.update self.client_index client_id (some { recorded with offset := next_offset }) },
        [])
  | .disconnect client_id =>
    match self.client_index client_id with
    | none => (self, [])
    | some recorded =>
      let gone : Hub :=
        { self with
          client_index := Function.update self.client_index client_id (some { recorded with is_active := false }) }
      match self.topics recorded.topic with
      | none => (gone, [])
      | some channel =>
        (gone.set_topic recorded.topic (channel.leave client_id).1, (channel.leave client_id).2.map .syscall)
  | .nothing => (self, [])

/-- The worker of a topic serves a client its next message. -/
def deliver (self : Hub) (topic_name client_id : Bytes) (taken : Bool) : Option (Hub × List Syscall) :=
  (self.topics topic_name).bind fun channel => (channel.deliver client_id taken).map fun (next, calls) =>
    (self.set_topic topic_name next, calls)

end Hub

variable {H : StdHash}

/-- What a topic stands for. -/
def Topic.channel (self : Topic H) : Channel := ⟨self.messages, self.subscribers.find⟩

/-- What the tables of a server stand for. -/
def Server.hub (self : Server H) : Hub :=
  ⟨fun name => (self.topics.find name).map Topic.channel, self.client_index.find, self.producer_topics.find⟩

namespace Topic

@[simp] theorem channel_new (topic_name : Bytes) : (new topic_name : Topic H).channel = .empty := by
  simp [new, channel, Channel.empty, funext_iff]

@[simp] theorem channel_append_message (self : Topic H) (key value : Bytes) :
    (self.append_message key value).channel = self.channel.append key value := rfl

theorem channel_drop_subscriber (self : Topic H) (client_id : Bytes) :
    (self.drop_subscriber client_id).1.channel = (self.channel.leave client_id).1 ∧
      (self.drop_subscriber client_id).2 = (self.channel.leave client_id).2 := by
  refine ⟨?_, ?_⟩
  · rw [channel, Channel.leave, channel]
    congr 1
    · unfold drop_subscriber
      split <;> rfl
    · funext other
      rw [drop_subscriber_find, Function.update_apply]
  · unfold drop_subscriber Channel.leave channel
    split
    · rename_i hnone
      simp [hnone, close_fd]
    · rename_i sub hsome
      simp [hsome]

theorem channel_add_subscriber (self : Topic H) (sub : Server.Subscription) (opened : Option Fd) :
    (self.add_subscriber sub.client_id sub.pref sub.consumer_ipc sub.start_offset opened).2.1.channel =
        (self.channel.join sub opened).1 ∧
      (self.add_subscriber sub.client_id sub.pref sub.consumer_ipc sub.start_offset opened).2.2 =
        (self.channel.join sub opened).2 := by
  obtain ⟨hchannel, hcalls⟩ := self.channel_drop_subscriber sub.client_id
  cases opened with
  | none => exact ⟨hchannel, hcalls⟩
  | some fd =>
    refine ⟨?_, congrArg (fun closed => closed ++ [Syscall.opened fd sub.consumer_ipc]) hcalls⟩
    rw [channel, add_subscriber_messages]
    refine congrArg (Channel.mk self.messages) ?_
    funext other
    rw [add_subscriber_find]
    exact (Function.update_apply _ _ _ _).symm

/-- In a topic whose tree and table agree the worker serves an entry by its prefix. -/
theorem channel_deliver_next {self : Topic H} (hsynced : self.Synced) (client_id : Bytes) (taken : Bool) :
    (self.deliver_next client_id taken).map (fun outcome => (outcome.1.channel, outcome.2)) =
      self.channel.deliver client_id taken := by
  cases hdeliver : self.deliver_next client_id taken with
  | none =>
    rw [deliver_next_eq_none_iff] at hdeliver
    rw [Option.map_none]
    cases hfind : self.subscribers.find client_id with
    | none => simp [Channel.deliver, channel, hfind]
    | some sub =>
      have houtside := List.getElem?_eq_none (hdeliver sub hfind)
      simp [Channel.deliver, channel, hfind, houtside]
  | some outcome =>
    obtain ⟨next, calls⟩ := outcome
    obtain ⟨sub, msg, hfind, hmsg, rfl, rfl⟩ := hsynced.deliver_next_cases hdeliver
    simp only [Option.map_some, Channel.deliver, channel, hfind, Option.bind_some, hmsg]
    congr 2
    congr 1
    funext other
    rw [HashMap.find_replace_of_find hfind, Function.update_apply]

end Topic

namespace Server

@[simp] theorem hub_new : (new : Server H).hub = .empty := by
  simp [new, hub, Hub.empty, funext_iff]

theorem hub_set_topic {self : Server H} {topic_name : Bytes} {old : Topic H}
    (hfound : self.topics.find topic_name = some old) (topic : Topic H) :
    (self.set_topic topic_name topic).hub = self.hub.set_topic topic_name topic.channel := by
  unfold hub Hub.set_topic
  congr 1
  funext other
  rw [set_topic_find hfound, Function.update_apply]
  split <;> rfl

theorem hub_create (self : Server H) (payload : Bytes) {client_pid : UInt32} {topic_name : Bytes}
    (hparse : Request.parse_create payload = .ok (client_pid, topic_name)) (kernel : Kernel) :
    self.hub.meet self.topics.keys kernel (.create client_pid topic_name) =
      ((self.handle_create payload).1.hub, (self.handle_create payload).2) := by
  unfold handle_create Hub.meet
  rw [hparse]
  dsimp only
  cases hvalid : is_valid_identifier topic_name with
  | false => rfl
  | true =>
    have hexists : (self.hub.topics topic_name).isSome = self.topics.contains topic_name := by
      simp [hub, HashMap.contains_eq]
    rw [hexists, create_topic]
    cases hcontains : self.topics.contains topic_name with
    | true => rfl
    | false =>
      have hnone : self.topics.find topic_name = none := by simpa [HashMap.contains_eq] using hcontains
      have hmade : ∀ other, (self.topics.subscript topic_name (Topic.new topic_name)).find other =
          if other = topic_name then some (Topic.new topic_name) else self.topics.find other := by
        intro other
        rw [HashMap.find_subscript, hnone, Option.getD_none]
      simp only [Bool.not_true, Bool.false_eq_true, if_false, Hub.set_topic, hub, Prod.mk.injEq, and_true]
      congr 1
      funext other
      rw [hmade, Function.update_apply]
      split
      · simp
      · rfl

theorem hub_info (self : Server H) (payload : Bytes) {client_pid : UInt32} {client_id : Bytes}
    (hparse : Request.parse_info payload = .ok (client_pid, client_id)) (kernel : Kernel) :
    self.hub.meet self.topics.keys kernel (.info client_pid client_id) =
      ((self.handle_info payload).1.hub, (self.handle_info payload).2) := by
  unfold handle_info Hub.meet
  rw [hparse]
  dsimp only
  rw [show self.hub.client_index = self.client_index.find from rfl]
  cases self.client_index.find client_id <;> rfl

theorem hub_connect (self : Server H) (payload : Bytes) {client_pid : UInt32} {topic_name : Bytes}
    (hparse : Request.parse_connect payload = .ok (client_pid, topic_name)) (kernel : Kernel) :
    self.hub.meet self.topics.keys kernel (.connect client_pid topic_name) =
      ((self.handle_producer_connect payload).1.hub, (self.handle_producer_connect payload).2) := by
  unfold handle_producer_connect Hub.meet get_topic
  rw [hparse]
  dsimp only
  have hexists : (self.hub.topics topic_name).isNone = (self.topics.find topic_name).isNone := by simp [hub]
  rw [hexists]
  cases hfind : self.topics.find topic_name with
  | none => rfl
  | some topic =>
    have hproducers : (self.producer_topics.insert_or_assign client_pid topic_name).find =
        Function.update self.producer_topics.find client_pid (some topic_name) := by
      funext other
      rw [HashMap.find_insert_or_assign, Function.update_apply]
    simp [hub, hproducers]

theorem hub_publish (self : Server H) (payload : Bytes) {topic_name key value : Bytes}
    (hparse : Request.parse_produce payload = .ok (topic_name, key, value)) (kernel : Kernel) :
    self.hub.meet self.topics.keys kernel (.publish topic_name key value) =
      ((self.handle_publish payload).1.hub, (self.handle_publish payload).2) := by
  unfold handle_publish Hub.meet get_topic
  rw [hparse]
  dsimp only
  cases hfind : self.topics.find topic_name with
  | none =>
    have hnone : self.hub.topics topic_name = none := by simp [hub, hfind]
    rw [hnone]
    cases topic_name.isEmpty <;> rfl
  | some topic =>
    have hsome : self.hub.topics topic_name = some topic.channel := by simp [hub, hfind]
    rw [hsome]
    dsimp only
    split
    · rfl
    · rw [hub_set_topic hfind, Topic.channel_append_message]

/-- The tables accept a SUBSCRIBE as the users' view does. -/
theorem hub_accept_subscriber (self : Server H) {payload : Bytes} {request : Request.Subscribe}
    (hparse : Request.parse_subscribe payload = .ok request) (reader_active : Bytes → Bool) :
    match self.hub.accept request reader_active with
    | .error status => self.accept_subscriber payload reader_active = (none, self, [send_response request.pid status []])
    | .ok sub => ∃ accepted : Server H, self.accept_subscriber payload reader_active =
        (some sub, accepted, [send_response request.pid .SUCCESS []]) ∧ accepted.hub = self.hub.claim sub := by
  unfold accept_subscriber Hub.accept
  rw [hparse]
  dsimp only
  cases hnames : !is_valid_identifier request.client_id || !is_valid_identifier request.topic with
  | true => rfl
  | false =>
    simp only [Bool.false_eq_true, if_false]
    cases hfind : self.topics.find request.topic with
    | none => simp [hub, hfind]
    | some topic =>
      have hsome : (self.hub.topics request.topic).isNone = false := by simp [hub, hfind]
      rw [hsome, Bool.false_or, show self.hub.client_index = self.client_index.find from rfl]
      cases hbusy : in_use (self.client_index.find request.client_id) reader_active with
      | true => rfl
      | false =>
        refine ⟨_, rfl, ?_⟩
        unfold hub Hub.claim
        congr 1
        funext other
        rw [HashMap.find_insert_or_assign, Function.update_apply]

theorem hub_register_subscriber (self : Server H) (sub : Subscription) (opened : Option Fd) :
    self.hub.register sub opened =
      ((self.register_subscriber sub opened).1.hub, (self.register_subscriber sub opened).2) := by
  unfold register_subscriber Hub.register
  cases hfind : self.topics.find sub.topic with
  | none => simp [hub, hfind]
  | some topic =>
    have hsome : self.hub.topics sub.topic = some topic.channel := by simp [hub, hfind]
    obtain ⟨hchannel, hcalls⟩ := topic.channel_add_subscriber sub opened
    rw [hsome]
    dsimp only
    rw [hub_set_topic hfind, hchannel, hcalls]

theorem hub_subscribe (self : Server H) {payload : Bytes} {request : Request.Subscribe}
    (hparse : Request.parse_subscribe payload = .ok request) (kernel : Kernel) :
    self.hub.meet self.topics.keys kernel (.subscribe request) =
      ((self.handle_subscriber_connect payload kernel).1.hub, (self.handle_subscriber_connect payload kernel).2) := by
  have haccept := hub_accept_subscriber self hparse kernel.reader_active
  unfold handle_subscriber_connect Hub.meet
  dsimp only
  cases haccepted : self.hub.accept request kernel.reader_active with
  | error status =>
    rw [haccepted] at haccept
    rw [haccept]
  | ok sub =>
    rw [haccepted] at haccept
    obtain ⟨accepted, haccepted, hclaim⟩ := haccept
    have hregister := accepted.hub_register_subscriber sub (kernel.open_fifo sub.consumer_ipc)
    rw [haccepted]
    dsimp only
    rw [← hclaim, hregister]
    rfl

theorem hub_commit (self : Server H) {payload client_id : Bytes} {next_offset : UInt32}
    (hparse : Request.parse_ack payload = .ok (client_id, next_offset)) (kernel : Kernel) :
    self.hub.meet self.topics.keys kernel (.commit client_id next_offset) =
      ((self.handle_commit payload).1.hub, (self.handle_commit payload).2) := by
  unfold handle_commit Hub.meet
  rw [hparse]
  dsimp only [hub]
  cases hfind : self.client_index.find client_id with
  | none => rfl
  | some recorded =>
    simp only [Prod.mk.injEq, and_true]
    congr 1
    funext other
    rw [HashMap.find_replace_of_find hfind, Function.update_apply]

theorem hub_disconnect (self : Server H) {payload client_id : Bytes}
    (hparse : Request.parse_disconnect payload = .ok client_id) (kernel : Kernel) :
    self.hub.meet self.topics.keys kernel (.disconnect client_id) =
      ((self.handle_disconnect payload).1.hub, (self.handle_disconnect payload).2) := by
  unfold handle_disconnect Hub.meet
  rw [hparse]
  dsimp only
  rw [show self.hub.client_index = self.client_index.find from rfl]
  cases hfind : self.client_index.find client_id with
  | none => rfl
  | some recorded =>
    dsimp only
    generalize hgone : ({ self with
      client_index := self.client_index.replace client_id { recorded with is_active := false } } : Server H) = gone
    have hindex : gone.hub = { self.hub with
        client_index :=
          Function.update self.client_index.find client_id (some { recorded with is_active := false }) } := by
      subst hgone
      unfold hub
      congr 1
      funext other
      rw [HashMap.find_replace_of_find hfind, Function.update_apply]
    have htopics : gone.topics = self.topics := by rw [← hgone]
    cases htopic : self.topics.find recorded.topic with
    | none =>
      have hnone : self.hub.topics recorded.topic = none := by simp [hub, htopic]
      rw [hnone]
      dsimp only
      rw [hindex]
    | some topic =>
      have hsome : self.hub.topics recorded.topic = some topic.channel := by simp [hub, htopic]
      obtain ⟨hchannel, hcalls⟩ := topic.channel_drop_subscriber client_id
      rw [hsome]
      dsimp only
      rw [hub_set_topic (htopics ▸ htopic), hindex, congrArg Prod.fst (topic.remove_subscriber_eq client_id), hchannel,
        congrArg Prod.snd (topic.remove_subscriber_eq client_id), hcalls]

/-- Whatever is in the tables, a request is met as the users' view of them meets it. -/
theorem hub_handle_request (self : Server H) (action : UInt8) (payload : Bytes) (kernel : Kernel) :
    self.hub.meet self.topics.keys kernel (Demand.read action payload) =
      ((self.handle_request action payload kernel).1.hub, (self.handle_request action payload kernel).2) := by
  unfold handle_request Demand.read
  generalize action.toNat = code
  split
  · split
    · exact hub_create self payload ‹_› kernel
    · rw [handle_create]
      simp [*, Hub.meet]
  · split
    · rw [handle_list]
      simp [*, Hub.meet]
    · rw [handle_list]
      simp [*, Hub.meet]
  · split
    · exact hub_info self payload ‹_› kernel
    · rw [handle_info]
      simp [*, Hub.meet]
  · split
    · exact hub_connect self payload ‹_› kernel
    · rw [handle_producer_connect]
      simp [*, Hub.meet]
  · split
    · exact hub_publish self payload ‹_› kernel
    · rw [handle_publish]
      simp [*, Hub.meet]
  · split
    · exact hub_subscribe self ‹_› kernel
    · rw [handle_subscriber_connect, accept_subscriber]
      simp [*, Hub.meet]
  · split
    · exact hub_commit self ‹_› kernel
    · rw [handle_commit]
      simp [*, Hub.meet]
  · split
    · exact hub_disconnect self ‹_› kernel
    · rw [handle_disconnect]
      simp [*, Hub.meet]
  · -- No other number is handled.
    simp [*, Hub.meet]

end Server

end treenity.server

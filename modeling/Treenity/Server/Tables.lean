import Treenity.Server.Handlers

open treenity.protocol treenity.data_structures treenity.ipc

namespace treenity.server

namespace Server

variable {H : StdHash}

/-- A step that leaves the index and all tables of subscribers as they are. -/
structure Quiet (before next : Server H) : Prop where
  client_index : next.client_index = before.client_index
  entry : ∀ topic_name client_id, next.entry topic_name client_id = before.entry topic_name client_id

theorem Quiet.refl (self : Server H) : self.Quiet self := ⟨rfl, fun _ _ => rfl⟩

/-- An answer tells its status. -/
theorem send_response_status {pid pid' : UInt32} {status status' : StatusCode} {answer answer' : Bytes}
    (hsame : send_response pid status answer = send_response pid' status' answer') : status = status' := by
  have hbytes := congrArg parse_response_header (Effect.response.inj hsame).2
  rw [Response.parse_response_header_serialize, Response.parse_response_header_serialize] at hbytes
  exact congrArg ManagementResponseHeader.status_code (Option.some.inj hbytes)

theorem create_topic_entry (self : Server H) (topic_name other client_id : Bytes) :
    (self.create_topic topic_name).2.entry other client_id = self.entry other client_id := by
  unfold create_topic
  cases hcontains : self.topics.contains topic_name with
  | true => rfl
  | false =>
    have hnone : self.topics.find topic_name = none := by
      simpa [HashMap.contains_eq] using hcontains
    by_cases hother : other = topic_name
    · simp [entry, hother, hnone, Topic.new]
    · simp [entry, hother]

theorem create_topic_client_index (self : Server H) (topic_name : Bytes) :
    (self.create_topic topic_name).2.client_index = self.client_index := by
  unfold create_topic
  split <;> rfl

theorem handle_create_quiet (self : Server H) (payload : Bytes) : self.Quiet (self.handle_create payload).1 := by
  unfold handle_create
  split
  · exact .refl self
  · split
    · exact .refl self
    · rename_i topic_name _ _
      dsimp only
      split <;> exact ⟨create_topic_client_index self topic_name, create_topic_entry self topic_name⟩

theorem handle_list_quiet (self : Server H) (payload : Bytes) : self.Quiet (self.handle_list payload).1 := by
  unfold handle_list
  split <;> exact .refl self

theorem handle_info_quiet (self : Server H) (payload : Bytes) : self.Quiet (self.handle_info payload).1 := by
  unfold handle_info
  split
  · exact .refl self
  · split <;> exact .refl self

theorem handle_producer_connect_quiet (self : Server H) (payload : Bytes) :
    self.Quiet (self.handle_producer_connect payload).1 := by
  unfold handle_producer_connect
  split
  · exact .refl self
  · split
    · exact .refl self
    · exact ⟨rfl, fun _ _ => rfl⟩

theorem handle_publish_quiet (self : Server H) (payload : Bytes) : self.Quiet (self.handle_publish payload).1 := by
  unfold handle_publish
  split
  · exact .refl self
  · split
    · exact .refl self
    · split
      · exact .refl self
      · rename_i topic_name key value _ _ topic hfound
        refine ⟨rfl, fun other client_id => ?_⟩
        rw [set_topic_entry hfound]
        split
        · rename_i hother
          rw [hother, entry_of_find hfound]
          rfl
        · rfl

/-- The record an accepted SUBSCRIBE leaves in the index. -/
def Subscription.metadata (self : Subscription) : ClientMetadata :=
  ⟨self.client_id, self.topic, self.start_offset, self.pref, self.consumer_ipc, true⟩

/-- An accepted SUBSCRIBE: the name is free, its topic exists, and the index has the
new record. -/
structure Accepted (before : Server H) (payload : Bytes) (reader_active : Bytes → Bool) (sub : Subscription)
    (next : Server H) (effects : List Effect) (request : Request.Subscribe) : Prop where
  parsed : Request.parse_subscribe payload = .ok request
  found : ∃ topic, before.topics.find request.topic = some topic
  free : in_use (before.client_index.find request.client_id) reader_active = false
  sub_eq : sub = ⟨request.topic, request.client_id, request.pref, client_fifo_path request.pid,
    start_offset request.offset (before.client_index.find request.client_id)⟩
  next_eq : next = { before with client_index := before.client_index.insert_or_assign sub.client_id sub.metadata }
  effects_eq : effects = [send_response request.pid .SUCCESS []]

theorem accept_subscriber_some {self next : Server H} {payload : Bytes} {reader_active : Bytes → Bool}
    {sub : Subscription} {effects : List Effect}
    (haccept : self.accept_subscriber payload reader_active = (some sub, next, effects)) :
    ∃ request, self.Accepted payload reader_active sub next effects request := by
  unfold accept_subscriber at haccept
  cases hparse : Request.parse_subscribe payload with
  | error _ => simp [hparse] at haccept
  | ok request =>
    rw [hparse] at haccept
    dsimp only at haccept
    split at haccept
    · cases haccept
    · split at haccept
      · cases haccept
      · rename_i topic hfound
        split at haccept
        · cases haccept
        · rename_i hfree
          cases haccept
          exact ⟨request, hparse, ⟨topic, hfound⟩, by simpa using hfree, rfl, rfl, rfl⟩

/-- A SUBSCRIBE that parses and is turned away changes nothing and is answered once. -/
theorem accept_subscriber_rejected {self next : Server H} {payload : Bytes} {reader_active : Bytes → Bool}
    {effects : List Effect} {request : Request.Subscribe} (hparse : Request.parse_subscribe payload = .ok request)
    (haccept : self.accept_subscriber payload reader_active = (none, next, effects)) :
    next = self ∧ ∃ status, status ≠ .SUCCESS ∧ effects = [send_response request.pid status []] := by
  unfold accept_subscriber at haccept
  rw [hparse] at haccept
  dsimp only at haccept
  split at haccept
  · cases haccept
    exact ⟨rfl, _, by decide, rfl⟩
  · split at haccept
    · cases haccept
      exact ⟨rfl, _, by decide, rfl⟩
    · split at haccept
      · cases haccept
        exact ⟨rfl, _, by decide, rfl⟩
      · cases haccept

/-- A SUBSCRIBE that is turned away changes nothing and never answers SUCCESS. -/
theorem accept_subscriber_none {self next : Server H} {payload : Bytes} {reader_active : Bytes → Bool}
    {effects : List Effect} (haccept : self.accept_subscriber payload reader_active = (none, next, effects)) :
    next = self ∧ ∀ effect ∈ effects, ∃ client_pid status, status ≠ .SUCCESS ∧
      effect = send_response client_pid status [] := by
  cases hparse : Request.parse_subscribe payload with
  | error _ =>
    simp only [accept_subscriber, hparse] at haccept
    cases haccept
    exact ⟨rfl, by simp⟩
  | ok request =>
    obtain ⟨hsame, status, hstatus, rfl⟩ := accept_subscriber_rejected hparse haccept
    refine ⟨hsame, fun effect heffect => ?_⟩
    exact ⟨request.pid, status, hstatus, List.mem_singleton.mp heffect⟩

@[simp] theorem register_subscriber_client_index (self : Server H) (sub : Subscription) (opened : Option Fd) :
    (self.register_subscriber sub opened).1.client_index = self.client_index := by
  unfold register_subscriber
  split <;> rfl

/-- Registering puts an entry with the descriptor into the table of the topic, or
drops the entry when there is no descriptor. -/
theorem register_subscriber_entry {self : Server H} {sub : Subscription} {topic : Topic H}
    (hfound : self.topics.find sub.topic = some topic) (opened : Option Fd) (topic_name client_id : Bytes) :
    (self.register_subscriber sub opened).1.entry topic_name client_id =
      if topic_name = sub.topic ∧ client_id = sub.client_id then
        opened.map fun fd => ⟨sub.client_id, sub.pref, sub.consumer_ipc, some fd, sub.start_offset⟩
      else self.entry topic_name client_id := by
  rw [register_subscriber, hfound]
  dsimp only
  rw [set_topic_entry hfound, Topic.add_subscriber_find]
  by_cases htopic : topic_name = sub.topic
  · by_cases hclient : client_id = sub.client_id
    · simp [htopic, hclient]
    · simp [htopic, hclient, entry_of_find hfound]
  · simp [htopic]

/-- An ACK that parses and names a known client, and its effect. -/
structure Committed (before : Server H) (payload : Bytes) (next : Server H) (client_id : Bytes)
    (next_offset : UInt32) (recorded : ClientMetadata) : Prop where
  parsed : Request.parse_ack payload = .ok (client_id, next_offset)
  known : before.client_index.find client_id = some recorded
  index : ∀ other, next.client_index.find other =
    if other = client_id then some { recorded with offset := next_offset } else before.client_index.find other
  topics : next.topics = before.topics

theorem Committed.entry {self next : Server H} {payload client_id : Bytes} {next_offset : UInt32}
    {recorded : ClientMetadata} (hcommitted : self.Committed payload next client_id next_offset recorded)
    (topic_name other : Bytes) : next.entry topic_name other = self.entry topic_name other := by
  rw [Server.entry, hcommitted.topics, Server.entry]

theorem handle_commit_cases (self : Server H) (payload : Bytes) :
    (self.handle_commit payload).2 = [] ∧
      ((self.handle_commit payload).1 = self ∧ (∀ client_id next_offset,
          Request.parse_ack payload = .ok (client_id, next_offset) → self.client_index.find client_id = none) ∨
        ∃ client_id next_offset recorded,
          self.Committed payload (self.handle_commit payload).1 client_id next_offset recorded) := by
  unfold handle_commit
  cases hparse : Request.parse_ack payload with
  | error _ => exact ⟨rfl, .inl ⟨rfl, by simp⟩⟩
  | ok fields =>
    obtain ⟨client_id, next_offset⟩ := fields
    dsimp only
    cases hfind : self.client_index.find client_id with
    | none =>
      refine ⟨rfl, .inl ⟨rfl, ?_⟩⟩
      rintro _ _ heq
      cases heq
      exact hfind
    | some recorded =>
      exact ⟨rfl, .inr ⟨client_id, next_offset, recorded, hparse, hfind,
        HashMap.find_replace_of_find hfind _, rfl⟩⟩

/-- A DISCONNECT that parses and names a known client, and its effect: the flag is
cleared and the entry in the recorded topic is gone. -/
structure Disconnected (before : Server H) (payload : Bytes) (next : Server H) (client_id : Bytes)
    (recorded : ClientMetadata) : Prop where
  parsed : Request.parse_disconnect payload = .ok client_id
  known : before.client_index.find client_id = some recorded
  index : ∀ other, next.client_index.find other =
    if other = client_id then some { recorded with is_active := false } else before.client_index.find other
  entry : ∀ topic_name other, next.entry topic_name other =
    if topic_name = recorded.topic ∧ other = client_id then none else before.entry topic_name other

theorem handle_disconnect_cases (self : Server H) (payload : Bytes) :
    (∀ effect ∈ (self.handle_disconnect payload).2, ∃ call, effect = .syscall call) ∧
      ((self.handle_disconnect payload).1 = self ∧ (self.handle_disconnect payload).2 = [] ∧ (∀ client_id,
          Request.parse_disconnect payload = .ok client_id → self.client_index.find client_id = none) ∨
        ∃ client_id recorded,
          self.Disconnected payload (self.handle_disconnect payload).1 client_id recorded) := by
  unfold handle_disconnect
  cases hparse : Request.parse_disconnect payload with
  | error _ => exact ⟨by simp, .inl ⟨rfl, rfl, by simp⟩⟩
  | ok client_id =>
    dsimp only
    cases hfind : self.client_index.find client_id with
    | none =>
      refine ⟨by simp, .inl ⟨rfl, rfl, ?_⟩⟩
      rintro _ heq
      cases heq
      exact hfind
    | some recorded =>
      dsimp only
      have hindex := HashMap.find_replace_of_find hfind { recorded with is_active := false }
      split
      · rename_i hfound
        refine ⟨by simp, .inr ⟨client_id, recorded, hparse, hfind, hindex, ?_⟩⟩
        intro topic_name other
        split
        · rename_i hsame
          have hnone : self.topics.find topic_name = none := by rw [hsame.1]; exact hfound
          simp [Server.entry, hnone]
        · rfl
      · rename_i topic hfound
        refine ⟨by simp, .inr ⟨client_id, recorded, hparse, hfind, hindex, ?_⟩⟩
        intro topic_name other
        have hold : self.topics.find recorded.topic = some topic := hfound
        apply (set_topic_entry (hfound : Server.get_topic { self with client_index := _ } _ = _) _ _ _).trans
        by_cases htopic : topic_name = recorded.topic
        · rw [if_pos htopic]
          apply (topic.remove_subscriber_find client_id other).trans
          by_cases hother : other = client_id
          · simp [htopic, hother]
          · simp [htopic, hother, entry_of_find hold]
        · simp [htopic, Server.entry]

/-- What the requests other than SUBSCRIBE, ACK and DISCONNECT do to the tables. -/
theorem handle_request_quiet (self : Server H) {action : UInt8} (payload : Bytes) (kernel : Kernel)
    (haction : action.toNat ≠ 6 ∧ action.toNat ≠ 7 ∧ action.toNat ≠ 8) :
    self.Quiet (self.handle_request action payload kernel).1 := by
  unfold handle_request
  split
  · exact handle_create_quiet self payload
  · exact handle_list_quiet self payload
  · exact handle_info_quiet self payload
  · exact handle_producer_connect_quiet self payload
  · exact handle_publish_quiet self payload
  · exact absurd ‹_› haction.1
  · exact absurd ‹_› haction.2.1
  · exact absurd ‹_› haction.2.2
  · exact .refl self

end Server

end treenity.server

import Treenity.Server.Tables
import Treenity.Topic.Runs

open treenity.protocol treenity.data_structures treenity.foundation

namespace treenity.server

/-- A topic in which the worker finds its subscribers, and whose messages carry their
positions and keep to the limit on key and value. -/
structure Topic.Healthy {H : StdHash} (topic : Topic H) : Prop where
  synced : topic.Synced
  numbered : topic.Numbered
  bounded : ∀ msg ∈ topic.messages, msg.key.length + msg.value.length ≤ MAX_PAYLOAD_SIZE

theorem Topic.new_healthy {H : StdHash} (topic_name : Bytes) : (Topic.new topic_name : Topic H).Healthy :=
  ⟨Topic.new_synced topic_name, Topic.new_numbered topic_name, by simp [Topic.new]⟩

theorem Topic.Healthy.append_message {H : StdHash} {self : Topic H} (hhealthy : self.Healthy) {key value : Bytes}
    (hlimit : key.length + value.length ≤ MAX_PAYLOAD_SIZE) : (self.append_message key value).Healthy := by
  refine ⟨hhealthy.synced.append_message key value, hhealthy.numbered.append_message key value, ?_⟩
  intro msg hmsg
  rcases List.mem_append.mp hmsg with hold | hnew
  · exact hhealthy.bounded msg hold
  · obtain rfl := List.mem_singleton.mp hnew
    exact hlimit

/-- Steps on the subscribers leave the messages as they are. -/
theorem Topic.Healthy.of_messages {H : StdHash} {self next : Topic H} (hhealthy : self.Healthy)
    (hsynced : next.Synced) (hmessages : next.messages = self.messages) : next.Healthy := by
  refine ⟨hsynced, ?_, ?_⟩
  · intro hlength
    rw [hmessages] at hlength ⊢
    exact hhealthy.numbered hlength
  · rw [hmessages]
    exact hhealthy.bounded

namespace Server

variable {H : StdHash}

/-- What a step keeps of the topics: none goes away, their logs are only added to,
and they stay healthy. -/
structure Keeps (before next : Server H) : Prop where
  grows : ∀ topic_name topic, before.topics.find topic_name = some topic →
    ∃ later, next.topics.find topic_name = some later ∧ topic.messages <+: later.messages
  healthy : (∀ topic_name topic, before.topics.find topic_name = some topic → topic.Healthy) →
    ∀ topic_name topic, next.topics.find topic_name = some topic → topic.Healthy

theorem Keeps.of_topics {self next : Server H} (htopics : next.topics = self.topics) : self.Keeps next := by
  refine ⟨?_, ?_⟩
  · intro topic_name topic hfound
    exact ⟨topic, by rw [htopics, hfound], List.prefix_rfl⟩
  · rw [htopics]
    exact id

theorem Keeps.refl (self : Server H) : self.Keeps self := .of_topics rfl

theorem Keeps.trans {self middle next : Server H} (hfirst : self.Keeps middle) (hsecond : middle.Keeps next) :
    self.Keeps next := by
  refine ⟨?_, fun hhealthy => hsecond.healthy (hfirst.healthy hhealthy)⟩
  intro topic_name topic hfound
  obtain ⟨later, hlater, hgrows⟩ := hfirst.grows topic_name topic hfound
  obtain ⟨last, hlast, hmore⟩ := hsecond.grows topic_name later hlater
  exact ⟨last, hlast, hgrows.trans hmore⟩

theorem Keeps.log {self next : Server H} (hkeeps : self.Keeps next) (topic_name : Bytes) :
    self.log topic_name <+: next.log topic_name := by
  cases hfound : self.topics.find topic_name with
  | none =>
    rw [Server.log, hfound]
    exact List.nil_prefix
  | some topic =>
    obtain ⟨later, hlater, hgrows⟩ := hkeeps.grows topic_name topic hfound
    rw [log_of_find hfound, log_of_find hlater]
    exact hgrows

/-- Steps that write through the pointer to one topic. -/
theorem keeps_of_replace {self next : Server H} {topic_name : Bytes} {topic later : Topic H}
    (hfound : self.topics.find topic_name = some topic) (hnext : next.topics = self.topics.replace topic_name later)
    (hgrows : topic.messages <+: later.messages) (hhealthy : topic.Healthy → later.Healthy) : self.Keeps next := by
  have hfind : ∀ other, next.topics.find other = if other = topic_name then some later else self.topics.find other := by
    rw [hnext]
    exact HashMap.find_replace_of_find hfound later
  refine ⟨?_, ?_⟩
  · intro other old hold
    rw [hfind]
    by_cases hother : other = topic_name
    · rw [hother, hfound] at hold
      obtain rfl := Option.some.inj hold
      exact ⟨later, by rw [if_pos hother], hgrows⟩
    · exact ⟨old, by rw [if_neg hother, hold], List.prefix_rfl⟩
  · intro hall other last hlast
    rw [hfind] at hlast
    split at hlast
    · obtain rfl := Option.some.inj hlast
      exact hhealthy (hall _ _ hfound)
    · exact hall _ _ hlast

/-- What a request does to one topic. -/
inductive Changed (before : Topic H) (payload : Bytes) : Topic H → Prop
  | published {topic_name key value : Bytes} (hparse : Request.parse_produce payload = .ok (topic_name, key, value)) :
      Changed before payload (before.append_message key value)
  | registered (client_id pref fifo_path : Bytes) (start_offset : UInt32) (opened : Option Fd) :
      Changed before payload (before.add_subscriber client_id pref fifo_path start_offset opened).2.1
  | dropped (client_id : Bytes) : Changed before payload (before.drop_subscriber client_id).1

theorem Changed.messages {before later : Topic H} {payload : Bytes} (hchanged : Changed before payload later) :
    before.messages <+: later.messages := by
  cases hchanged with
  | published => exact List.prefix_append _ _
  | registered => rw [Topic.add_subscriber_messages]
  | dropped => rw [Topic.drop_subscriber_messages]

theorem Changed.stop_flag {before later : Topic H} {payload : Bytes} (hchanged : Changed before payload later) :
    later.stop_flag = before.stop_flag := by
  cases hchanged with
  | published => rfl
  | registered => exact before.add_subscriber_stop_flag _ _ _ _ _
  | dropped => exact before.drop_subscriber_stop_flag _

/-- A PRODUCE payload that fits into a frame is stored only within the limit. -/
theorem Changed.healthy {before later : Topic H} {payload : Bytes} (hchanged : Changed before payload later)
    (hsize : payload.length < 2 ^ 32) (hhealthy : before.Healthy) : later.Healthy := by
  cases hchanged with
  | published hparse => exact hhealthy.append_message ((Request.parse_produce_iff hsize _ _ _).mp hparse).2
  | registered =>
    exact hhealthy.of_messages (hhealthy.synced.add_subscriber _ _ _ _ _) (before.add_subscriber_messages _ _ _ _ _)
  | dropped => exact hhealthy.of_messages (hhealthy.synced.drop_subscriber _) (before.drop_subscriber_messages _)

/-- All that a request can do to the topics: nothing, a CREATE makes one, or one changes. -/
inductive Touched (before : Server H) (action : UInt8) (payload : Bytes) (next : Server H) : Prop
  | same (htopics : next.topics = before.topics)
  | created (topic_name : Bytes) (haction : action.toNat = 1) (hnone : before.topics.find topic_name = none)
      (htopics : next.topics = before.topics.subscript topic_name (Topic.new topic_name))
  | changed {topic_name : Bytes} {topic later : Topic H} (hfound : before.topics.find topic_name = some topic)
      (hchanged : Changed topic payload later) (htopics : next.topics = before.topics.replace topic_name later)

theorem handle_create_touched (self : Server H) {action : UInt8} (haction : action.toNat = 1) (payload : Bytes) :
    self.Touched action payload (self.handle_create payload).1 := by
  unfold handle_create
  split
  · exact .same rfl
  · split
    · exact .same rfl
    · rename_i pid topic_name _ _
      dsimp only
      unfold create_topic
      cases hcontains : self.topics.contains topic_name with
      | true => exact .same rfl
      | false => exact .created topic_name haction (by simpa [HashMap.contains_eq] using hcontains) rfl

theorem handle_publish_touched (self : Server H) (action : UInt8) (payload : Bytes) :
    self.Touched action payload (self.handle_publish payload).1 := by
  unfold handle_publish
  split
  · exact .same rfl
  · rename_i topic_name key value hparse
    split
    · exact .same rfl
    · split
      · exact .same rfl
      · rename_i topic hfound
        exact .changed hfound (.published hparse) rfl

theorem register_subscriber_touched (self : Server H) (sub : Subscription) (opened : Option Fd) (action : UInt8)
    (payload : Bytes) : self.Touched action payload (self.register_subscriber sub opened).1 := by
  unfold register_subscriber
  split
  · exact .same rfl
  · rename_i topic hfound
    exact .changed hfound (.registered _ _ _ _ _) rfl

theorem handle_subscriber_connect_touched (self : Server H) (action : UInt8) (payload : Bytes) (kernel : Kernel) :
    self.Touched action payload (self.handle_subscriber_connect payload kernel).1 := by
  unfold handle_subscriber_connect
  split
  · rename_i next effects haccept
    exact .same (congrArg Server.topics (accept_subscriber_none haccept).1)
  · rename_i sub accepted effects haccept
    obtain ⟨request, haccepted⟩ := accept_subscriber_some haccept
    have htopics : accepted.topics = self.topics := by rw [haccepted.next_eq]
    cases register_subscriber_touched accepted sub (kernel.open_fifo sub.consumer_ipc) action payload with
    | same hsame => exact .same (hsame.trans htopics)
    | created topic_name haction hnone hcreated =>
      exact .created topic_name haction (htopics ▸ hnone) (htopics ▸ hcreated)
    | changed hfound hchanged hreplaced => exact .changed (htopics ▸ hfound) hchanged (htopics ▸ hreplaced)

theorem handle_disconnect_touched (self : Server H) (action : UInt8) (payload : Bytes) :
    self.Touched action payload (self.handle_disconnect payload).1 := by
  unfold handle_disconnect
  split
  · exact .same rfl
  · split
    · exact .same rfl
    · dsimp only
      split
      · exact .same rfl
      · rename_i client_id _ _ _ _ _ topic hfound
        have hdropped : Changed topic payload (topic.remove_subscriber client_id).2.1 := by
          rw [Topic.remove_subscriber_eq]
          exact .dropped client_id
        exact .changed hfound hdropped rfl

theorem handle_request_touched (self : Server H) (action : UInt8) (payload : Bytes) (kernel : Kernel) :
    self.Touched action payload (self.handle_request action payload kernel).1 := by
  unfold handle_request
  split
  · rename_i haction
    exact handle_create_touched self haction payload
  · unfold handle_list
    split <;> exact .same rfl
  · unfold handle_info
    split
    · exact .same rfl
    · split <;> exact .same rfl
  · unfold handle_producer_connect
    split
    · exact .same rfl
    · split <;> exact .same rfl
  · exact handle_publish_touched self action payload
  · exact handle_subscriber_connect_touched self action payload kernel
  · rcases (handle_commit_cases self payload).2 with ⟨hsame, _⟩ | ⟨_, _, _, hcommitted⟩
    · exact .same (congrArg Server.topics hsame)
    · exact .same hcommitted.topics
  · exact handle_disconnect_touched self action payload
  · exact .same rfl

theorem Touched.keeps {self next : Server H} {action : UInt8} {payload : Bytes}
    (htouched : self.Touched action payload next) (hsize : payload.length < 2 ^ 32) : self.Keeps next := by
  cases htouched with
  | same htopics => exact .of_topics htopics
  | changed hfound hchanged htopics => exact keeps_of_replace hfound htopics hchanged.messages (hchanged.healthy hsize)
  | created topic_name haction hnone htopics =>
    refine ⟨?_, ?_⟩
    · intro other topic hfound
      have hother : other ≠ topic_name := by
        rintro rfl
        rw [hnone] at hfound
        cases hfound
      exact ⟨topic, by simp [htopics, hother, hfound], List.prefix_rfl⟩
    · intro hall other topic hfound
      rw [htopics] at hfound
      by_cases hother : other = topic_name
      · obtain rfl : Topic.new topic_name = topic := by simpa [hother, hnone] using hfound
        exact Topic.new_healthy topic_name
      · exact hall other topic (by simpa [hother] using hfound)

theorem register_subscriber_keeps (self : Server H) (sub : Subscription) (opened : Option Fd) :
    self.Keeps (self.register_subscriber sub opened).1 :=
  (register_subscriber_touched self sub opened 0 []).keeps (by simp)

theorem handle_request_keeps (self : Server H) (action : UInt8) {payload : Bytes} (kernel : Kernel)
    (hsize : payload.length < 2 ^ 32) : self.Keeps (self.handle_request action payload kernel).1 :=
  (handle_request_touched self action payload kernel).keeps hsize

/-- The topic has been shut down. -/
def stopped (self : Server H) (topic_name : Bytes) : Bool := (self.topics.find topic_name).any Topic.stop_flag

theorem stopped_of_topics {self next : Server H} (htopics : next.topics = self.topics) (topic_name : Bytes) :
    next.stopped topic_name = self.stopped topic_name := by rw [stopped, htopics, stopped]

theorem set_topic_stopped {self : Server H} {topic_name : Bytes} {topic later : Topic H}
    (hfound : self.topics.find topic_name = some topic) (hflag : later.stop_flag = topic.stop_flag) (other : Bytes) :
    (self.set_topic topic_name later).stopped other = self.stopped other := by
  rw [stopped, set_topic_find hfound, stopped]
  split
  · rename_i hother
    rw [hother, hfound]
    exact hflag
  · rfl

/-- No request shuts a topic down, and a new topic is not. -/
theorem Touched.stopped {self next : Server H} {action : UInt8} {payload : Bytes}
    (htouched : self.Touched action payload next) (other : Bytes) : next.stopped other = self.stopped other := by
  cases htouched with
  | same htopics => exact stopped_of_topics htopics other
  | changed hfound hchanged htopics =>
    apply (@stopped_of_topics H (self.set_topic _ _) next htopics other).trans
    exact set_topic_stopped hfound hchanged.stop_flag other
  | created topic_name haction hnone htopics =>
    rw [Server.stopped, htopics, Server.stopped]
    by_cases hother : other = topic_name
    · simp [hother, hnone, Topic.new]
    · simp [hother]

/-- The log of a healthy topic carries its positions. -/
theorem log_indexed {self : Server H}
    (hhealthy : ∀ topic_name topic, self.topics.find topic_name = some topic → topic.Healthy) {topic_name : Bytes}
    (hlog : (self.log topic_name).length < 2 ^ 32) :
    Indexed (fun msg => msg.offset.toNat) (self.log topic_name) := by
  cases hfound : self.topics.find topic_name with
  | none =>
    rw [Server.log, hfound]
    exact .nil _
  | some topic =>
    rw [log_of_find hfound] at hlog ⊢
    exact (hhealthy topic_name topic hfound).numbered hlog

/-- Only the message after 2^32 - 1 others has the offset of shutdowns. -/
theorem log_offset {self : Server H}
    (hhealthy : ∀ topic_name topic, self.topics.find topic_name = some topic → topic.Healthy) {topic_name : Bytes}
    (hlog : (self.log topic_name).length < 2 ^ 32 - 1) : ∀ msg ∈ self.log topic_name, msg.offset ≠ SHUTDOWN_OFFSET := by
  intro msg hmsg hshutdown
  obtain ⟨i, hi⟩ := List.mem_iff_getElem?.mp hmsg
  obtain ⟨hinside, _⟩ := List.getElem?_eq_some_iff.mp hi
  have hposition : msg.offset.toNat = i := log_indexed hhealthy (by omega) i msg hi
  have hvalue : SHUTDOWN_OFFSET.toNat = 2 ^ 32 - 1 := rfl
  rw [hshutdown] at hposition
  omega

theorem log_bounded {self : Server H}
    (hhealthy : ∀ topic_name topic, self.topics.find topic_name = some topic → topic.Healthy) {topic_name : Bytes} :
    ∀ msg ∈ self.log topic_name, msg.key.length + msg.value.length ≤ MAX_PAYLOAD_SIZE := by
  cases hfound : self.topics.find topic_name with
  | none => simp [Server.log, hfound]
  | some topic =>
    rw [log_of_find hfound]
    exact (hhealthy topic_name topic hfound).bounded

end Server

end treenity.server

import Treenity.Server.Replies
import Treenity.Topic.Runs

open treenity.protocol treenity.data_structures treenity.foundation

namespace treenity.server

namespace Server

variable {H : StdHash}

inductive Event where
  | request (action : UInt8) (payload : Bytes) (kernel : Kernel)
  | pass (topic_name : Bytes) (outcomes : List Bool)

/-- The steps of a server: it handles a request, or the worker of a topic makes a
delivery pass. -/
inductive Step : Server H → Event × List Effect → Server H → Prop
  | request (self : Server H) (action : UInt8) (payload : Bytes) (kernel : Kernel) :
      Step self (.request action payload kernel, (self.handle_request action payload kernel).2)
        (self.handle_request action payload kernel).1
  | pass {self : Server H} {topic_name : Bytes} {topic next : Topic H} {fuel : Nat} {outcomes : List Bool}
      {calls : List Syscall} (hfound : self.topics.find topic_name = some topic)
      (hpass : topic.run_pass fuel outcomes = some (next, calls)) :
      Step self (.pass topic_name outcomes, calls.map .syscall) (self.set_topic topic_name next)

/-- An accepted SUBSCRIBE as one step of the handler. -/
structure Subscribed (before : Server H) (payload : Bytes) (kernel : Kernel) (sub : Subscription)
    (request : Request.Subscribe) (next : Server H) (effects : List Effect) : Prop where
  parsed : Request.parse_subscribe payload = .ok request
  free : in_use (before.client_index.find request.client_id) kernel.reader_active = false
  sub_eq : sub = ⟨request.topic, request.client_id, request.pref, ipc.client_fifo_path request.pid,
    start_offset request.offset (before.client_index.find request.client_id)⟩
  index : ∀ other, next.client_index.find other =
    if other = sub.client_id then some sub.metadata else before.client_index.find other
  entry : ∀ topic_name other, next.entry topic_name other =
    if topic_name = sub.topic ∧ other = sub.client_id then
      (kernel.open_fifo sub.consumer_ipc).map fun fd =>
        ⟨sub.client_id, sub.pref, sub.consumer_ipc, some fd, sub.start_offset⟩
    else before.entry topic_name other
  effects_eq : ∃ calls, effects = send_response request.pid .SUCCESS [] ::
    .add_subscriber sub.topic sub.client_id sub.pref sub.consumer_ipc sub.start_offset ::
      List.map Effect.syscall calls

/-- A SUBSCRIBE is turned away or it is accepted and registered. -/
theorem handle_subscriber_connect_cases (self : Server H) (payload : Bytes) (kernel : Kernel) :
    ((self.accept_subscriber payload kernel.reader_active).1 = none ∧
        (self.handle_subscriber_connect payload kernel).1 = self ∧
        ∀ effect ∈ (self.handle_subscriber_connect payload kernel).2, ∃ path bytes, effect = .response path bytes) ∨
      ∃ sub request, (self.accept_subscriber payload kernel.reader_active).1 = some sub ∧
        self.Subscribed payload kernel sub request (self.handle_subscriber_connect payload kernel).1
          (self.handle_subscriber_connect payload kernel).2 := by
  unfold handle_subscriber_connect
  split
  · rename_i next effects haccept
    obtain ⟨hnext, heffects⟩ := accept_subscriber_none haccept
    refine .inl ⟨by rw [haccept], hnext, fun effect heffect => ?_⟩
    obtain ⟨_, _, _, heq⟩ := heffects effect heffect
    exact ⟨_, _, heq⟩
  · rename_i sub accepted effects haccept
    obtain ⟨request, hparse, ⟨topic, hfound⟩, hfree, hsub, hnext, heffects⟩ := accept_subscriber_some haccept
    have hsame : accepted.topics.find sub.topic = some topic := by rw [hnext, hsub]; exact hfound
    refine .inr ⟨sub, request, by rw [haccept], hparse, hfree, hsub, ?_, ?_, ?_⟩
    · intro other
      dsimp only
      rw [register_subscriber_client_index, hnext]
      exact HashMap.find_insert_or_assign _ _ _ other
    · intro topic_name other
      dsimp only
      rw [register_subscriber_entry hsame, hnext]
      rfl
    · refine ⟨(topic.add_subscriber sub.client_id sub.pref sub.consumer_ipc sub.start_offset
        (kernel.open_fifo sub.consumer_ipc)).2.2, ?_⟩
      rw [heffects, register_subscriber, hsame]
      rfl

/-- All that handling a request can be. -/
inductive Handled (before : Server H) (action : UInt8) (payload : Bytes) (kernel : Kernel) (next : Server H)
    (effects : List Effect) : Prop
  | quiet (hquiet : before.Quiet next) (hanswers : ∀ effect ∈ effects, ∃ path bytes, effect = .response path bytes)
      (hsubscribe : action.toNat = 6 → (before.accept_subscriber payload kernel.reader_active).1 = none)
      (hack : action.toNat = 7 → ∀ client_id next_offset,
        Request.parse_ack payload = .ok (client_id, next_offset) → before.client_index.find client_id = none)
      (hdisconnect : action.toNat = 8 → ∀ client_id,
        Request.parse_disconnect payload = .ok client_id → before.client_index.find client_id = none)
  | subscribed (sub : Subscription) (request : Request.Subscribe) (haction : action.toNat = 6)
      (haccept : (before.accept_subscriber payload kernel.reader_active).1 = some sub)
      (hsubscribed : before.Subscribed payload kernel sub request next effects)
  | committed (client_id : Bytes) (next_offset : UInt32) (recorded : ClientMetadata) (haction : action.toNat = 7)
      (hcommitted : before.Committed payload next client_id next_offset recorded) (heffects : effects = [])
  | disconnected (client_id : Bytes) (recorded : ClientMetadata) (haction : action.toNat = 8)
      (hdisconnected : before.Disconnected payload next client_id recorded)
      (hcalls : ∀ effect ∈ effects, ∃ call, effect = .syscall call)

theorem handle_request_handled (self : Server H) (action : UInt8) (payload : Bytes) (kernel : Kernel) :
    self.Handled action payload kernel (self.handle_request action payload kernel).1
      (self.handle_request action payload kernel).2 := by
  by_cases hsix : action.toNat = 6
  · have hhandle : self.handle_request action payload kernel =
        self.handle_subscriber_connect payload kernel := by
      simp only [handle_request, hsix]
    rw [hhandle]
    rcases handle_subscriber_connect_cases self payload kernel with ⟨hnone, hsame, hanswers⟩ |
        ⟨sub, request, hsome, hsubscribed⟩
    · refine .quiet ?_ hanswers (fun _ => hnone) (fun h => by omega) (fun h => by omega)
      rw [hsame]
      exact .refl self
    · exact .subscribed sub request hsix hsome hsubscribed
  by_cases hseven : action.toNat = 7
  · have hhandle : self.handle_request action payload kernel = self.handle_commit payload := by
      simp only [handle_request, hseven]
    rw [hhandle]
    obtain ⟨heffects, ⟨hsame, hunknown⟩ | ⟨client_id, next_offset, recorded, hcommitted⟩⟩ :=
      handle_commit_cases self payload
    · refine .quiet ?_ (by simp [heffects]) (fun h => by omega) (fun _ => hunknown) (fun h => by omega)
      rw [hsame]
      exact .refl self
    · exact .committed client_id next_offset recorded hseven hcommitted heffects
  by_cases height : action.toNat = 8
  · have hhandle : self.handle_request action payload kernel = self.handle_disconnect payload := by
      simp only [handle_request, height]
    rw [hhandle]
    obtain ⟨hcalls, ⟨hsame, hsilent, hunknown⟩ | ⟨client_id, recorded, hdisconnected⟩⟩ :=
      handle_disconnect_cases self payload
    · refine .quiet ?_ (by simp [hsilent]) (fun h => by omega) (fun h => by omega) (fun _ => hunknown)
      rw [hsame]
      exact .refl self
    · exact .disconnected client_id recorded height hdisconnected hcalls
  · exact .quiet (handle_request_quiet self payload kernel ⟨hsix, hseven, height⟩)
      (handle_request_answers self payload kernel ⟨hsix, hseven, height⟩) (fun h => absurd h hsix)
      (fun h => absurd h hseven) (fun h => absurd h height)

end Server

end treenity.server

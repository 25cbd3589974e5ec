import Treenity.Server.Replies
import Treenity.Server.Topics

open treenity.protocol treenity.data_structures treenity.ipc

namespace treenity.server.Server

variable {H : StdHash}

/-- Whether the payload is one of the action. -/
def parses (action : UInt8) (payload : Bytes) : Bool :=
  match action.toNat with
  | 1 => (Request.parse_create payload).isOk
  | 2 => (Request.parse_list payload).isOk
  | 3 => (Request.parse_info payload).isOk
  | 4 => (Request.parse_connect payload).isOk
  | 5 => (Request.parse_produce payload).isOk
  | 6 => (Request.parse_subscribe payload).isOk
  | 7 => (Request.parse_ack payload).isOk
  | 8 => (Request.parse_disconnect payload).isOk
  | _ => false

/-- A request that is not to change anything: one that the server does not know or cannot read,
one that is refused, a question, or one about a topic or a client that there is not. -/
inductive Fails (self : Server H) (action : UInt8) (payload : Bytes) (kernel : Kernel) : Prop
  | unknown (haction : action.toNat = 0 ∨ 8 < action.toNat)
  | unread (hparse : parses action payload = false)
  | refused {pid : UInt32} {status : StatusCode} {answer : Bytes} (hstatus : status ≠ .SUCCESS)
      (hanswer : send_response pid status answer ∈ (self.handle_request action payload kernel).2)
  | question (haction : action.toNat = 2 ∨ action.toNat = 3)
  | no_topic (haction : action.toNat = 5) (hnone : ∀ topic_name key value,
      Request.parse_produce payload = .ok (topic_name, key, value) → self.topics.find topic_name = none)
  | no_client_ack (haction : action.toNat = 7) (hnone : ∀ client_id next_offset,
      Request.parse_ack payload = .ok (client_id, next_offset) → self.client_index.find client_id = none)
  | no_client_disconnect (haction : action.toNat = 8) (hnone : ∀ client_id,
      Request.parse_disconnect payload = .ok client_id → self.client_index.find client_id = none)

/-- The request left the server alone, or it was answered SUCCESS and nothing else. -/
def Succeeds (self : Server H) (outcome : Server H × List Effect) : Prop :=
  outcome.1 = self ∨ ∃ pid, ∀ effect ∈ outcome.2, ∀ path bytes, effect = .response path bytes →
    effect = send_response pid .SUCCESS []

/-- An answer other than SUCCESS is one of a request that left the server alone. -/
theorem Succeeds.unchanged {self : Server H} {outcome : Server H × List Effect} (hsucceeds : self.Succeeds outcome)
    {pid : UInt32} {status : StatusCode} {answer : Bytes} (hstatus : status ≠ .SUCCESS)
    (hanswer : send_response pid status answer ∈ outcome.2) : outcome.1 = self := by
  apply hsucceeds.resolve_right
  rintro ⟨client_pid, honly⟩
  exact hstatus (send_response_status (honly _ hanswer _ _ rfl))

theorem handle_create_succeeds (self : Server H) (payload : Bytes) : self.Succeeds (self.handle_create payload) := by
  unfold handle_create
  split
  · exact .inl rfl
  · rename_i pid topic_name _
    split
    · exact .inl rfl
    · unfold create_topic
      cases self.topics.contains topic_name with
      | true => exact .inl rfl
      | false =>
        refine .inr ⟨pid, fun effect heffect _ _ _ => ?_⟩
        exact List.mem_singleton.mp heffect

theorem handle_producer_connect_succeeds (self : Server H) (payload : Bytes) :
    self.Succeeds (self.handle_producer_connect payload) := by
  unfold handle_producer_connect
  split
  · exact .inl rfl
  · rename_i pid topic_name _
    split
    · exact .inl rfl
    · refine .inr ⟨pid, fun effect heffect _ _ _ => ?_⟩
      exact List.mem_singleton.mp heffect

theorem handle_subscriber_connect_succeeds (self : Server H) (payload : Bytes) (kernel : Kernel) :
    self.Succeeds (self.handle_subscriber_connect payload kernel) := by
  unfold handle_subscriber_connect
  split
  · rename_i next effects haccept
    exact .inl (accept_subscriber_none haccept).1
  · rename_i sub accepted effects haccept
    obtain ⟨request, haccepted⟩ := accept_subscriber_some haccept
    refine .inr ⟨request.pid, fun effect heffect path bytes hresponse => ?_⟩
    rcases List.mem_append.mp heffect with hanswer | hregistered
    · rw [haccepted.effects_eq] at hanswer
      exact List.mem_singleton.mp hanswer
    · rw [hresponse] at hregistered
      exact (register_subscriber_mute accepted sub _ _ hregistered).elim

theorem handle_list_unchanged (self : Server H) (payload : Bytes) : (self.handle_list payload).1 = self := by
  unfold handle_list
  split <;> rfl

theorem handle_info_unchanged (self : Server H) (payload : Bytes) : (self.handle_info payload).1 = self := by
  unfold handle_info
  split
  · rfl
  · split <;> rfl

/-- Whatever the request, an answer other than SUCCESS comes with no change. -/
theorem handle_request_succeeds (self : Server H) (action : UInt8) (payload : Bytes) (kernel : Kernel) {pid : UInt32}
    {status : StatusCode} {answer : Bytes} (hstatus : status ≠ .SUCCESS)
    (hanswer : send_response pid status answer ∈ (self.handle_request action payload kernel).2) :
    (self.handle_request action payload kernel).1 = self := by
  unfold handle_request at hanswer ⊢
  split at hanswer
  · exact (handle_create_succeeds self payload).unchanged hstatus hanswer
  · exact handle_list_unchanged self payload
  · exact handle_info_unchanged self payload
  · exact (handle_producer_connect_succeeds self payload).unchanged hstatus hanswer
  · rw [handle_publish_silent] at hanswer
    cases hanswer
  · exact (handle_subscriber_connect_succeeds self payload kernel).unchanged hstatus hanswer
  · rw [(handle_commit_cases self payload).1] at hanswer
    cases hanswer
  · exact (handle_disconnect_mute self payload _ hanswer).elim
  · rfl

/-- An action that the server does not know is dropped. -/
theorem handle_request_unknown (self : Server H) {action : UInt8} (payload : Bytes) (kernel : Kernel)
    (haction : action.toNat = 0 ∨ 8 < action.toNat) : self.handle_request action payload kernel = (self, []) := by
  unfold handle_request
  generalize action.toNat = code at haction ⊢
  split
  · omega
  · omega
  · omega
  · omega
  · omega
  · omega
  · omega
  · omega
  · rfl

theorem error_of_isOk {ε α : Type} {parsed : Except ε α} (hparse : parsed.isOk = false) : ∃ err, parsed = .error err := by
  cases parsed with
  | error err => exact ⟨err, rfl⟩
  | ok _ => cases hparse

/-- A payload that cannot be read is dropped before anything is done. -/
theorem handle_request_unread (self : Server H) {action : UInt8} {payload : Bytes} (kernel : Kernel)
    (hparse : parses action payload = false) : (self.handle_request action payload kernel).1 = self := by
  by_cases hunknown : action.toNat = 0 ∨ 8 < action.toNat
  · rw [handle_request_unknown self payload kernel hunknown]
  · unfold parses at hparse
    unfold handle_request
    generalize action.toNat = code at hparse hunknown ⊢
    split at hparse
    · obtain ⟨_, herror⟩ := error_of_isOk hparse
      simp only [handle_create, herror]
    · exact handle_list_unchanged self payload
    · exact handle_info_unchanged self payload
    · obtain ⟨_, herror⟩ := error_of_isOk hparse
      simp only [handle_producer_connect, herror]
    · obtain ⟨_, herror⟩ := error_of_isOk hparse
      simp only [handle_publish, herror]
    · obtain ⟨_, herror⟩ := error_of_isOk hparse
      simp only [handle_subscriber_connect, accept_subscriber, herror]
    · obtain ⟨_, herror⟩ := error_of_isOk hparse
      simp only [handle_commit, herror]
    · obtain ⟨_, herror⟩ := error_of_isOk hparse
      simp only [handle_disconnect, herror]
    · grind

/-- A PRODUCE to a topic that there is not is dropped. -/
theorem handle_publish_no_topic (self : Server H) {payload : Bytes} (hnone : ∀ topic_name key value,
    Request.parse_produce payload = .ok (topic_name, key, value) → self.topics.find topic_name = none) :
    (self.handle_publish payload).1 = self := by
  unfold handle_publish
  split
  · rfl
  · rename_i topic_name key value hparse
    rw [get_topic, hnone topic_name key value hparse]
    split <;> rfl

/-- In every state and for every request, one that is unknown, cannot be read, is refused,
only asks, or is about a topic or a client that there is not leaves every table and every
topic as it was. -/
theorem handle_request_unchanged (self : Server H) (action : UInt8) (payload : Bytes) (kernel : Kernel)
    (hfails : self.Fails action payload kernel) : (self.handle_request action payload kernel).1 = self := by
  cases hfails with
  | unknown haction => rw [handle_request_unknown self payload kernel haction]
  | unread hparse => exact handle_request_unread self kernel hparse
  | refused hstatus hanswer => exact handle_request_succeeds self action payload kernel hstatus hanswer
  | question haction =>
    unfold handle_request
    rcases haction with hlist | hinfo
    · simp only [hlist, handle_list_unchanged]
    · simp only [hinfo, handle_info_unchanged]
  | no_topic haction hnone =>
    simp only [handle_request, haction]
    exact handle_publish_no_topic self hnone
  | no_client_ack haction hnone =>
    simp only [handle_request, haction]
    rcases (handle_commit_cases self payload).2 with ⟨hsame, _⟩ | ⟨client_id, next_offset, recorded, hcommitted⟩
    · exact hsame
    · have hknown := hcommitted.known
      rw [hnone client_id next_offset hcommitted.parsed] at hknown
      cases hknown
  | no_client_disconnect haction hnone =>
    simp only [handle_request, haction]
    rcases (handle_disconnect_cases self payload).2 with ⟨hsame, _⟩ | ⟨client_id, recorded, hdisconnected⟩
    · exact hsame
    · have hknown := hdisconnected.known
      rw [hnone client_id hdisconnected.parsed] at hknown
      cases hknown

/-- A second CREATE of one name. -/
theorem handle_request_unchanged_create :
    let kernel : Kernel := ⟨fun _ => true, fun _ => none⟩
    let created : Server ⟨List.length, UInt8.toNat, UInt32.toNat⟩ :=
      (new.handle_request 1 (Request.named_payload 7 [97]) kernel).1
    send_response 7 .TOPIC_CLIENT_ERR [] ∈ (created.handle_request 1 (Request.named_payload 7 [97]) kernel).2 ∧
      (created.handle_request 1 (Request.named_payload 7 [97]) kernel).1 = created := by
  intro kernel created
  have hanswer : send_response 7 .TOPIC_CLIENT_ERR [] ∈
      (created.handle_request 1 (Request.named_payload 7 [97]) kernel).2 := by decide +kernel
  exact ⟨hanswer, handle_request_unchanged created 1 _ kernel (.refused (by decide) hanswer)⟩

end treenity.server.Server

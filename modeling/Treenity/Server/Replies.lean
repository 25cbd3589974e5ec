import Treenity.Server.Tables
import Treenity.Topic.Shutdown

open treenity.protocol treenity.data_structures treenity.ipc

namespace treenity.server

/-- The pid a request gives for its answer, if it is one that is answered and it can
be read. -/
def request_pid (action : UInt8) (payload : Bytes) : Option UInt32 :=
  match action.toNat with
  | 1 => (Request.parse_create payload).toOption.map Prod.fst
  | 2 => (Request.parse_list payload).toOption
  | 3 => (Request.parse_info payload).toOption.map Prod.fst
  | 4 => (Request.parse_connect payload).toOption.map Prod.fst
  | 6 => (Request.parse_subscribe payload).toOption.map Request.Subscribe.pid
  | _ => none

/-- Nothing, or one answer to the pid. -/
def Replies (client_pid : Option UInt32) (effects : List Effect) : Prop :=
  effects = [] ∨ ∃ pid status answer, client_pid = some pid ∧ effects = [Server.send_response pid status answer]

theorem Replies.reply (pid : UInt32) (status : StatusCode) (answer : Bytes) :
    Replies (some pid) [Server.send_response pid status answer] := .inr ⟨pid, status, answer, rfl, rfl⟩

theorem Replies.mem {client_pid : Option UInt32} {effects : List Effect} (hreplies : Replies client_pid effects)
    {effect : Effect} (heffect : effect ∈ effects) :
    ∃ pid bytes, client_pid = some pid ∧ effect = .response (client_fifo_path pid) bytes := by
  rcases hreplies with rfl | ⟨pid, status, answer, hpid, rfl⟩
  · cases heffect
  · exact ⟨pid, _, hpid, List.mem_singleton.mp heffect⟩

/-- The effect writes to no FIFO. -/
def Effect.Mute : Effect → Prop
  | .response _ _ => False
  | .add_subscriber _ _ _ _ _ => True
  | .syscall call => call.Mute

namespace Server

variable {H : StdHash}

theorem handle_create_replies (self : Server H) (payload : Bytes) :
    Replies ((Request.parse_create payload).toOption.map Prod.fst) (self.handle_create payload).2 := by
  unfold handle_create
  split
  · exact .inl rfl
  · rename_i pid topic_name hparse
    rw [hparse]
    split
    · exact .reply pid _ _
    · dsimp only
      split <;> exact .reply pid _ _

theorem handle_list_replies (self : Server H) (payload : Bytes) :
    Replies (Request.parse_list payload).toOption (self.handle_list payload).2 := by
  unfold handle_list
  split
  · exact .inl rfl
  · rename_i pid hparse
    rw [hparse]
    exact .reply pid _ _

theorem handle_info_replies (self : Server H) (payload : Bytes) :
    Replies ((Request.parse_info payload).toOption.map Prod.fst) (self.handle_info payload).2 := by
  unfold handle_info
  split
  · exact .inl rfl
  · rename_i pid client_id hparse
    rw [hparse]
    split <;> exact .reply pid _ _

theorem handle_producer_connect_replies (self : Server H) (payload : Bytes) :
    Replies ((Request.parse_connect payload).toOption.map Prod.fst) (self.handle_producer_connect payload).2 := by
  unfold handle_producer_connect
  split
  · exact .inl rfl
  · rename_i pid topic_name hparse
    rw [hparse]
    split <;> exact .reply pid _ _

theorem handle_publish_silent (self : Server H) (payload : Bytes) : (self.handle_publish payload).2 = [] := by
  unfold handle_publish
  split
  · rfl
  · split
    · rfl
    · split <;> rfl

/-- The requests other than SUBSCRIBE, ACK and DISCONNECT have no effects but an answer
to the client they name. -/
theorem handle_request_replies (self : Server H) {action : UInt8} (payload : Bytes) (kernel : Kernel)
    (haction : action.toNat ≠ 6 ∧ action.toNat ≠ 7 ∧ action.toNat ≠ 8) :
    Replies (request_pid action payload) (self.handle_request action payload kernel).2 := by
  unfold handle_request request_pid
  generalize action.toNat = code at haction ⊢
  split
  · exact handle_create_replies self payload
  · exact handle_list_replies self payload
  · exact handle_info_replies self payload
  · exact handle_producer_connect_replies self payload
  · exact absurd rfl haction.1
  · rename_i hone htwo hthree hfour hsix
    split
    · exact absurd rfl hone
    · exact absurd rfl htwo
    · exact absurd rfl hthree
    · exact absurd rfl hfour
    · exact .inl (handle_publish_silent self payload)
    · exact absurd rfl hsix
    · exact absurd rfl haction.2.1
    · exact absurd rfl haction.2.2
    · exact .inl rfl

theorem handle_request_answers (self : Server H) {action : UInt8} (payload : Bytes) (kernel : Kernel)
    (haction : action.toNat ≠ 6 ∧ action.toNat ≠ 7 ∧ action.toNat ≠ 8) :
    ∀ effect ∈ (self.handle_request action payload kernel).2, ∃ path bytes, effect = .response path bytes := by
  intro effect heffect
  obtain ⟨pid, bytes, _, heq⟩ := (handle_request_replies self payload kernel haction).mem heffect
  exact ⟨_, bytes, heq⟩

/-- The answer to a SUBSCRIBE goes to the process it names. -/
theorem accept_subscriber_replies (self : Server H) (payload : Bytes) (reader_active : Bytes → Bool) :
    Replies ((Request.parse_subscribe payload).toOption.map Request.Subscribe.pid)
      (self.accept_subscriber payload reader_active).2.2 := by
  unfold accept_subscriber
  split
  · exact .inl rfl
  · rename_i request hparse
    rw [hparse]
    split
    · exact .reply request.pid _ _
    · split
      · exact .reply request.pid _ _
      · dsimp only
        split <;> exact .reply request.pid _ _

theorem register_subscriber_mute (self : Server H) (sub : Subscription) (opened : Option Fd) :
    ∀ effect ∈ (self.register_subscriber sub opened).2, effect.Mute := by
  unfold register_subscriber
  split
  · simp
  · rename_i topic hfound
    refine List.forall_mem_cons.mpr ⟨trivial, List.forall_mem_map.mpr ?_⟩
    exact topic.add_subscriber_mute _ _ _ _ _

theorem handle_disconnect_mute (self : Server H) (payload : Bytes) :
    ∀ effect ∈ (self.handle_disconnect payload).2, effect.Mute := by
  unfold handle_disconnect
  split
  · simp
  · split
    · simp
    · dsimp only
      split
      · simp
      · rename_i client_id _ _ _ _ _ topic hfound
        have hcalls := congrArg Prod.snd (topic.remove_subscriber_eq client_id)
        exact List.forall_mem_map.mpr (hcalls ▸ topic.drop_subscriber_mute _)

/-- Every answer of the server goes to the FIFO of the client that the request names. -/
theorem handle_request_response (self : Server H) {action : UInt8} {payload : Bytes} {kernel : Kernel}
    {path bytes : Bytes} (hresponse : .response path bytes ∈ (self.handle_request action payload kernel).2) :
    ∃ pid, request_pid action payload = some pid ∧ path = client_fifo_path pid := by
  by_cases haction : action.toNat ≠ 6 ∧ action.toNat ≠ 7 ∧ action.toNat ≠ 8
  · obtain ⟨pid, _, hpid, heq⟩ := (handle_request_replies self payload kernel haction).mem hresponse
    exact ⟨pid, hpid, (Effect.response.inj heq).1⟩
  · unfold handle_request at hresponse
    split at hresponse
    · exact absurd ⟨by omega, by omega, by omega⟩ haction
    · exact absurd ⟨by omega, by omega, by omega⟩ haction
    · exact absurd ⟨by omega, by omega, by omega⟩ haction
    · exact absurd ⟨by omega, by omega, by omega⟩ haction
    · exact absurd ⟨by omega, by omega, by omega⟩ haction
    · rename_i hsix
      have hreplies := accept_subscriber_replies self payload kernel.reader_active
      have haccepted : .response path bytes ∈ (self.accept_subscriber payload kernel.reader_active).2.2 := by
        unfold handle_subscriber_connect at hresponse
        split at hresponse
        · rename_i haccept
          rw [haccept]
          exact hresponse
        · rename_i haccept
          rw [haccept]
          rcases List.mem_append.mp hresponse with hanswer | hregistered
          · exact hanswer
          · exact (register_subscriber_mute _ _ _ _ hregistered).elim
      obtain ⟨pid, _, hpid, heq⟩ := hreplies.mem haccepted
      exact ⟨pid, by simp only [request_pid, hsix]; exact hpid, (Effect.response.inj heq).1⟩
    · rw [(handle_commit_cases self payload).1] at hresponse
      cases hresponse
    · obtain ⟨call, heq⟩ := (handle_disconnect_cases self payload).1 _ hresponse
      cases heq
    · cases hresponse

end Server

end treenity.server

import Treenity.Broker.Moves
import Treenity.Server.Publishing

open treenity.protocol treenity.data_structures treenity.ipc treenity.client treenity.server treenity.foundation

namespace treenity.broker

/-- The key and the value of a PRODUCE that parses and names the topic. -/
def posts (topic_name : Bytes) (action : UInt8) (payload : Bytes) : Option (Bytes × Bytes) :=
  match Request.parse_produce payload with
  | .ok (name, key, value) => if action.toNat = 5 ∧ name = topic_name then some (key, value) else none
  | .error _ => none

def Sent.posts (topic_name : Bytes) (self : Sent) : Option (Bytes × Bytes) :=
  broker.posts topic_name self.action self.payload

def Event.posts (topic_name : Bytes) : Event → Option (Bytes × Bytes)
  | .request action payload => broker.posts topic_name action payload
  | _ => none

/-- The PRODUCE frames for a topic that are written in a run. -/
def Event.produces (topic_name : Bytes) : Event → Option Bytes
  | .request action payload => (broker.posts topic_name action payload).map fun _ => frame action payload
  | _ => none

theorem posts_of_action {topic_name payload : Bytes} {action : UInt8} (haction : action.toNat ≠ 5) :
    posts topic_name action payload = none := by
  unfold posts
  split
  · simp [haction]
  · rfl

/-- Processes that subscribe post nothing. -/
theorem Acted.posts_nothing {old proc : Process} {p : Nat} {frames : List Sent} (hacted : Acted old p proc frames)
    (topic_name : Bytes) : frames.filterMap (Sent.posts topic_name) = [] := by
  have hnone : ∀ sent : Sent, sent.action.toNat ≠ 5 → sent.posts topic_name = none :=
    fun sent haction => posts_of_action haction
  cases hacted with
  | subscribe => exact List.filterMap_cons_none (hnone _ (by simp [Sent.action, CommandType.code]))
  | ack => exact List.filterMap_cons_none (hnone _ (by simp [Sent.action, CommandType.code]))
  | disconnect => exact List.filterMap_cons_none (hnone _ (by simp [Sent.action, CommandType.code]))
  | _ => rfl

namespace Broker

variable {H : StdHash}

/-- Handling a frame moves what it posts to the log; no other step changes a log, and
only writing a request puts a message on its way. -/
theorem Moves.contents {self next : Broker H} {event : Event} (hunnamed : self.server.topics.find [] = none)
    (hmoves : self.Moves event next) (topic_name : Bytes) :
    (next.server.contents topic_name = self.server.contents topic_name ∧
        next.queue.filterMap (Sent.posts topic_name) =
          self.queue.filterMap (Sent.posts topic_name) ++ (event.posts topic_name).toList) ∨
      ∃ sent effects, self.queue = sent :: next.queue ∧ event = .handle ∧
        Server.Logs topic_name self.server (.request sent.action sent.payload self.kernel, effects) next.server := by
  have hserved : ∀ {sent : Sent} {rest : List Sent}, self.queue = sent :: rest → ∃ sent' effects,
      self.queue = sent' :: rest ∧ Event.handle = .handle ∧
        Server.Logs topic_name self.server (.request sent'.action sent'.payload self.kernel, effects) (self.served sent) :=
    fun hqueue => ⟨_, _, hqueue, rfl, Server.handle_request_logs hunnamed topic_name _ _ self.kernel⟩
  have hsubscribe : ∀ {p request hrequest} {rest : List Sent}, self.queue = .subscribe p request hrequest :: rest →
      rest.filterMap (Sent.posts topic_name) =
        self.queue.filterMap (Sent.posts topic_name) ++ (Event.posts topic_name .handle).toList := by
    intro p request hrequest rest hqueue
    have hnone : Sent.posts topic_name (.subscribe p request hrequest) = none :=
      posts_of_action (by simp [Sent.action, CommandType.code])
    rw [hqueue, List.filterMap_cons_none hnone]
    simp [Event.posts]
  cases hmoves with
  | start => exact .inl ⟨rfl, by simp [Event.posts]⟩
  | request =>
    refine .inl ⟨rfl, ?_⟩
    rw [List.filterMap_append]
    congr 1
  | act hproc halive hacted =>
    refine .inl ⟨rfl, ?_⟩
    rw [List.filterMap_append, hacted.posts_nothing topic_name]
    rfl
  | exit => exact .inl ⟨rfl, by simp [Event.posts]⟩
  | rejected hrequest hpending hqueue => exact .inl ⟨rfl, hsubscribe hqueue⟩
  | accepted hrequest hpending hqueue haccept haccepted =>
    refine .inl ⟨Server.contents_of_topics ?_ topic_name, hsubscribe hqueue⟩
    dsimp only
    rw [haccepted.next_eq]
  | committed hname hpending hqueue => exact .inr (hserved hqueue)
  | disconnected hname hpending hqueue => exact .inr (hserved hqueue)
  | quiet hpending hqueue => exact .inr (hserved hqueue)
  | register =>
    exact .inl ⟨Server.register_subscriber_contents self.server _ _ topic_name, by simp [Event.posts]⟩
  | deliver hfound hreads hdeliver =>
    exact .inl ⟨Server.set_topic_same_contents hfound (Topic.deliver_next_messages hdeliver) topic_name,
      by simp [Event.posts]⟩

/-- The empty name is never given to a topic. -/
theorem Moves.unnamed {self next : Broker H} {event : Event} (hunnamed : self.server.topics.find [] = none)
    (hmoves : self.Moves event next) : next.server.topics.find [] = none := by
  have hnone : self.server.contents [] = none := by
    rw [Server.contents, hunnamed]
    rfl
  have hnext : next.server.contents [] = none := by
    rcases hmoves.contents hunnamed [] with ⟨hsame, _⟩ | ⟨sent, effects, _, _, hlogs⟩
    · rw [hsame, hnone]
    · cases hcreates : Server.creates [] (.request sent.action sent.payload self.kernel, effects) with
      | true => exact absurd (hlogs.created hcreates).1 (by decide)
      | false => rw [hlogs.other hcreates, hnone, Option.map_none]
  exact Option.map_eq_none_iff.mp hnext

/-- The log has the messages that were handled of those posted; the others are on their
way. -/
def Feeds (self : Broker H) (topic_name : Bytes) (posted : List (Bytes × Bytes)) : Prop :=
  ∃ handled, self.server.contents topic_name = some (Server.log_of handled) ∧
    handled ++ self.queue.filterMap (Sent.posts topic_name) = posted

theorem Feeds.step {self next : Broker H} {event : Event} {topic_name : Bytes} {posted : List (Bytes × Bytes)}
    (hfeeds : self.Feeds topic_name posted) (hunnamed : self.server.topics.find [] = none)
    (hmoves : self.Moves event next) : next.Feeds topic_name (posted ++ (event.posts topic_name).toList) := by
  obtain ⟨handled, hcontents, rfl⟩ := hfeeds
  rcases hmoves.contents hunnamed topic_name with ⟨hsame, hqueue⟩ | ⟨sent, effects, hqueue, rfl, hlogs⟩
  · exact ⟨handled, hsame.trans hcontents, by rw [hqueue, List.append_assoc]⟩
  · have hcreates : Server.creates topic_name (.request sent.action sent.payload self.kernel, effects) = false := by
      by_contra hcreated
      rw [(hlogs.created (Bool.not_eq_false _ ▸ hcreated)).2.1] at hcontents
      cases hcontents
    have hnext := hlogs.other hcreates
    rw [hcontents, Option.map_some] at hnext
    have hposts : Server.produces topic_name (.request sent.action sent.payload self.kernel, effects) =
        sent.posts topic_name := rfl
    rw [hposts] at hnext
    cases hmessage : sent.posts topic_name with
    | none =>
      refine ⟨handled, by rw [hnext, hmessage]; rfl, ?_⟩
      rw [hqueue, List.filterMap_cons_none hmessage]
      simp [Event.posts]
    | some pair =>
      refine ⟨handled ++ [pair], by rw [hnext, hmessage, Server.log_of_concat]; rfl, ?_⟩
      rw [hqueue, List.filterMap_cons_some hmessage]
      simp [Event.posts]

end Broker

end treenity.broker

import Treenity.Server.Hub
import Treenity.Server.Runs
import Treenity.Topic.Progress

open treenity.protocol treenity.data_structures treenity.foundation

namespace treenity.server

/-- Nobody who listens is behind. -/
def Channel.Rests (self : Channel) : Prop :=
  ∀ client_id sub, self.subscribers client_id = some sub → self.messages.length ≤ sub.next_offset.toNat

namespace Hub

/-- The listing names every topic once. -/
structure Lists (hub : Hub) (listing : List Bytes) : Prop where
  nodup : listing.Nodup
  mem_iff : ∀ name, name ∈ listing ↔ (hub.topics name).isSome = true

/-- Some client of the topic is served its next message, with these calls. -/
def Turn (topic_name : Bytes) (self : Hub) (calls : List Syscall) (next : Hub) : Prop :=
  ∃ client_id taken, self.deliver topic_name client_id taken = some (next, calls)

/-- The steps of a broker as its users see it: it meets a demand, with its topics in any
order, or the clients of a topic are served, in any order, until nobody is behind. -/
inductive Step : Hub → Server.Event × List Effect → Hub → Prop
  | request {self : Hub} {listing : List Bytes} (hlists : self.Lists listing) (action : UInt8) (payload : Bytes)
      (kernel : Kernel) :
      Step self (.request action payload kernel, (self.meet listing kernel (Demand.read action payload)).2)
        (self.meet listing kernel (Demand.read action payload)).1
  | pass {self next : Hub} {topic_name : Bytes} {turns : List (List Syscall)} {channel : Channel} (outcomes : List Bool)
      (hturns : Run (Turn topic_name) self turns next) (hfound : next.topics topic_name = some channel)
      (hrests : channel.Rests) : Step self (.pass topic_name outcomes, turns.flatten.map .syscall) next

end Hub

namespace Topic

variable {H : StdHash}

theorem deliver_pending_at_end {fuel : Nat} {self next : Topic H} {client_id : Bytes} {outcomes left : List Bool}
    {calls : List Syscall} (hloop : self.deliver_pending client_id fuel outcomes = some (next, calls, left)) :
    next.AtEnd client_id := by
  induction fuel generalizing self outcomes calls with
  | zero =>
    rw [deliver_pending] at hloop
    split at hloop
    · rename_i hnone
      cases hloop
      exact (deliver_next_eq_none_iff _ _ _).mp hnone
    · cases hloop
  | succ fuel ih =>
    rw [deliver_pending] at hloop
    split at hloop
    · rename_i hnone
      cases hloop
      exact (deliver_next_eq_none_iff _ _ _).mp hnone
    · dsimp only at hloop
      split at hloop
      · cases hloop
      · rename_i hrest
        cases hloop
        exact ih hrest

theorem deliver_pending_settles {fuel : Nat} {self next : Topic H} {client_id : Bytes} {outcomes left : List Bool}
    {calls : List Syscall} (hloop : self.deliver_pending client_id fuel outcomes = some (next, calls, left)) :
    self.Settles next :=
  @deliver_pending_induction H (fun _ topic => self.Settles topic) client_id
    (fun _ _ _ _ _ hsettles hdeliver => hsettles.trans (deliver_next_settles hdeliver)) fuel self next outcomes left []
    calls (.refl self) hloop

/-- When a pass ends nobody is behind. -/
theorem run_pass_rests {self next : Topic H} {fuel : Nat} {outcomes : List Bool} {calls : List Syscall}
    (hpass : self.run_pass fuel outcomes = some (next, calls)) : next.channel.Rests := by
  have hall : ∀ (ids : List Bytes) (topic : Topic H) (outcomes : List Bool) (calls : List Syscall),
      deliver_each fuel ids topic outcomes = some (next, calls) →
        topic.Settles next ∧ ∀ id ∈ ids, next.AtEnd id := by
    intro ids
    induction ids with
    | nil =>
      intro topic outcomes calls hloop
      cases hloop
      exact ⟨.refl _, by simp⟩
    | cons id rest ih =>
      intro topic outcomes calls hloop
      rw [deliver_each] at hloop
      split at hloop
      · cases hloop
      · rename_i middle first left hfirst
        split at hloop
        · cases hloop
        · rename_i last more hrest
          cases hloop
          obtain ⟨hsettles, hend⟩ := ih middle left more hrest
          refine ⟨(deliver_pending_settles hfirst).trans hsettles, List.forall_mem_cons.mpr ⟨?_, hend⟩⟩
          exact hsettles.at_end id (deliver_pending_at_end hfirst)
  obtain ⟨hsettles, hend⟩ := hall _ _ _ _ hpass
  intro client_id sub hfind
  refine hend client_id ?_ sub hfind
  rw [HashMap.mem_keys_iff, ← hsettles.clients]
  exact Option.isSome_iff_exists.mpr ⟨sub, hfind⟩

end Topic

namespace Server

variable {H : StdHash}

/-- In every topic tree and table agree. -/
def Synced (self : Server H) : Prop := ∀ name topic, self.topics.find name = some topic → topic.Synced

theorem new_synced : (new : Server H).Synced := by simp [Synced, new]

theorem Synced.set_topic {self : Server H} (hsynced : self.Synced) {topic_name : Bytes} {old topic : Topic H}
    (hfound : self.topics.find topic_name = some old) (htopic : topic.Synced) :
    (self.set_topic topic_name topic).Synced := by
  intro name found hname
  rw [set_topic_find hfound] at hname
  split at hname
  · exact Option.some.inj hname ▸ htopic
  · exact hsynced name found hname

theorem Changed.synced {before later : Topic H} {payload : Bytes} (hchanged : Changed before payload later)
    (hsynced : before.Synced) : later.Synced := by
  cases hchanged with
  | published => exact hsynced.append_message _ _
  | registered => exact hsynced.add_subscriber _ _ _ _ _
  | dropped => exact hsynced.drop_subscriber _

theorem Touched.synced {self next : Server H} {action : UInt8} {payload : Bytes}
    (htouched : self.Touched action payload next) (hsynced : self.Synced) : next.Synced := by
  cases htouched with
  | same htopics => exact fun name topic hfound => hsynced name topic (htopics ▸ hfound)
  | created topic_name haction hnone htopics =>
    intro name topic hfound
    rw [htopics, HashMap.find_subscript, hnone, Option.getD_none] at hfound
    split at hfound
    · exact Option.some.inj hfound ▸ Topic.new_synced topic_name
    · exact hsynced name topic hfound
  | changed hold hchanged htopics =>
    intro name topic hfound
    rw [htopics, HashMap.find_replace_of_find hold] at hfound
    split at hfound
    · exact Option.some.inj hfound ▸ hchanged.synced (hsynced _ _ hold)
    · exact hsynced name topic hfound

theorem hub_lists (self : Server H) : self.hub.Lists self.topics.keys := by
  refine ⟨self.topics.keys_nodup, fun name => ?_⟩
  rw [HashMap.mem_keys_iff, hub, Option.isSome_map]

/-- A turn of the worker of a topic serves the client as the users' view does. -/
theorem hub_deliver {self : Server H} (hsynced : self.Synced) {topic_name : Bytes} {topic next : Topic H}
    (hfound : self.topics.find topic_name = some topic) {client_id : Bytes} {taken : Bool} {calls : List Syscall}
    (hdeliver : topic.deliver_next client_id taken = some (next, calls)) :
    self.hub.deliver topic_name client_id taken = some ((self.set_topic topic_name next).hub, calls) := by
  have hchannel := Topic.channel_deliver_next (hsynced _ _ hfound) client_id taken
  rw [hdeliver, Option.map_some] at hchannel
  rw [Hub.deliver, show self.hub.topics topic_name = some topic.channel by simp [hub, hfound], Option.bind_some,
    ← hchannel, Option.map_some, hub_set_topic hfound]

theorem hub_set_topic_set_topic (self : Hub) (topic_name : Bytes) (first second : Channel) :
    (self.set_topic topic_name first).set_topic topic_name second = self.set_topic topic_name second := by
  simp [Hub.set_topic]

/-- A pass of the worker serves clients in turn until nobody is behind. -/
theorem hub_pass {self : Server H} (hsynced : self.Synced) {topic_name : Bytes} {topic next : Topic H}
    (hfound : self.topics.find topic_name = some topic) {fuel : Nat} {outcomes : List Bool} {calls : List Syscall}
    (hpass : topic.run_pass fuel outcomes = some (next, calls)) :
    next.Synced ∧ ∃ turns, Run (Hub.Turn topic_name) self.hub turns (self.set_topic topic_name next).hub ∧
      turns.flatten = calls := by
  have hstart : (self.set_topic topic_name topic).hub = self.hub := by
    rw [hub_set_topic hfound, Hub.set_topic, show some topic.channel = self.hub.topics topic_name by simp [hub, hfound],
      Function.update_eq_self]
  refine Topic.run_pass_induction (P := fun past topic => topic.Synced ∧ ∃ turns,
    Run (Hub.Turn topic_name) self.hub turns (self.set_topic topic_name topic).hub ∧ turns.flatten = past) ?_ []
    ⟨hsynced _ _ hfound, [], by rw [hstart]; exact .nil _, rfl⟩ hpass
  rintro past current client_id taken later more ⟨hcurrent, turns, hrun, rfl⟩ hdeliver
  refine ⟨hcurrent.deliver_next hdeliver, turns ++ [more], .snoc hrun ⟨client_id, taken, ?_⟩, by simp⟩
  have hthere : (self.set_topic topic_name current).topics.find topic_name = some current := by
    rw [set_topic_find hfound, if_pos rfl]
  rw [hub_deliver (hsynced.set_topic hfound hcurrent) hthere hdeliver, hub_set_topic hthere, hub_set_topic hfound,
    hub_set_topic_set_topic, hub_set_topic hfound]

/-- Every step of the server is one of the broker as its users see it. -/
theorem Step.hub {self next : Server H} {label : Event × List Effect} (hstep : Step self label next)
    (hsynced : self.Synced) : next.Synced ∧ Hub.Step self.hub label next.hub := by
  cases hstep with
  | request action payload kernel =>
    refine ⟨(handle_request_touched self action payload kernel).synced hsynced, ?_⟩
    have hmeet := hub_handle_request self action payload kernel
    have hmet := Hub.Step.request self.hub_lists action payload kernel
    rw [hmeet] at hmet
    exact hmet
  | pass hfound hpass =>
    rename_i topic_name topic later fuel outcomes calls
    obtain ⟨hlater, turns, hrun, rfl⟩ := hub_pass hsynced hfound hpass
    refine ⟨hsynced.set_topic hfound hlater, .pass outcomes hrun ?_ (Topic.run_pass_rests hpass)⟩
    rw [hub_set_topic hfound, Hub.set_topic]
    exact Function.update_self _ _ _

/-- Every run of the server, with its effects, is a run of the broker as its users see it:
of the hash tables and the trees nothing shows but the order of a listing and the
order in which clients are served. -/
theorem refines_hub {labels : List (Event × List Effect)} {server : Server H} (hrun : Run Step new labels server) :
    Run Hub.Step .empty labels server.hub := by
  have hall : server.Synced ∧ Run Hub.Step .empty labels server.hub := by
    refine hrun.history (P := fun past reached => reached.Synced ∧ Run Hub.Step .empty past reached.hub)
      ⟨new_synced, by rw [hub_new]; exact .nil _⟩ ?_
    rintro past self label next ⟨hsynced, hpast⟩ hstep
    obtain ⟨hlater, hview⟩ := hstep.hub hsynced
    exact ⟨hlater, .snoc hpast hview⟩
  exact hall.2

/-- A topic is made, a client listens to it, a message comes and is delivered, and the
topics are listed. -/
theorem refines_hub_delivery :
    ∃ (server : Server ⟨List.length, UInt8.toNat, UInt32.toNat⟩) (labels : List (Event × List Effect)),
      Run Step new labels server ∧ labels.length = 5 ∧ Run Hub.Step .empty labels server.hub := by
  let kernel : Kernel := ⟨fun _ => false, fun _ => some 3⟩
  let requests : List (UInt8 × Bytes) := [(1, Request.named_payload 5 [97]),
    (6, Request.subscribe_payload ⟨7, [99], [97], [], OFFSET_UNSET⟩), (5, Request.produce_payload [97] [107] [118])]
  let served : Server ⟨List.length, UInt8.toNat, UInt32.toNat⟩ :=
    requests.foldl (fun server request => (server.handle_request request.1 request.2 kernel).1) new
  have hrun : ∃ labels, Run Step new labels served ∧ labels.length = 3 :=
    ⟨_, .snoc (.snoc (.snoc (.nil _) (.request _ _ _ kernel)) (.request _ _ _ kernel)) (.request _ _ _ kernel), rfl⟩
  obtain ⟨labels, hrun, hlength⟩ := hrun
  have hpass : (served.topics.find [97]).any (fun topic => (topic.run_pass 1 []).isSome) = true := by decide +kernel
  obtain ⟨topic, hfound, hpass⟩ := (Option.any_eq_true _ _).mp hpass
  obtain ⟨⟨next, calls⟩, hpass⟩ := Option.isSome_iff_exists.mp hpass
  have hlisted := Run.snoc (Run.snoc hrun (.pass hfound hpass)) (.request _ 2 (le32 5) kernel)
  exact ⟨_, _, hlisted, by simp [hlength], refines_hub hlisted⟩

end Server

end treenity.server

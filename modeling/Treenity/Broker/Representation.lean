import Treenity.Broker.Registered
import Treenity.Foundation.Simulation
import Treenity.Server.HubRuns

open treenity.protocol treenity.data_structures treenity.ipc treenity.client treenity.server treenity.foundation

namespace treenity.server

/-- The effects are the same, or they answer a LIST with the same topics in another order. -/
def Effect.Alike (first second : Effect) : Prop :=
  first = second ∨ ∃ client_pid listing other, List.Perm listing other ∧
    first = Server.send_response client_pid .SUCCESS ([44].intercalate listing) ∧
    second = Server.send_response client_pid .SUCCESS ([44].intercalate other)

theorem alike_refl (effects : List Effect) : List.Forall₂ Effect.Alike effects effects :=
  List.forall₂_same.mpr fun _ _ => .inl rfl

namespace Hub

/-- Two listings of the topics name the same ones. -/
theorem Lists.perm {self : Hub} {listing other : List Bytes} (hlisting : self.Lists listing) (hother : self.Lists other) :
    listing.Perm other :=
  (List.perm_ext_iff_of_nodup hlisting.nodup hother.nodup).mpr fun name =>
    (hlisting.mem_iff name).trans (hother.mem_iff name).symm

/-- The order of the listing shows in the answer to a LIST only. -/
theorem meet_alike {self : Hub} {listing other : List Bytes} (hlisting : self.Lists listing) (hother : self.Lists other)
    (kernel : Kernel) (demand : Demand) :
    (self.meet listing kernel demand).1 = (self.meet other kernel demand).1 ∧
      List.Forall₂ Effect.Alike (self.meet listing kernel demand).2 (self.meet other kernel demand).2 := by
  cases demand with
  | list client_pid =>
    exact ⟨rfl, .cons (.inr ⟨client_pid, listing, other, hlisting.perm hother, rfl, rfl⟩) .nil⟩
  | _ => exact ⟨rfl, alike_refl _⟩

end Hub

variable {H K : StdHash}

/-- Servers that look alike have the same topics, which look alike. -/
theorem Server.hub_twin {self : Server H} {other : Server K} (hsame : self.hub = other.hub) {topic_name : Bytes}
    {topic : Topic H} (hfound : self.topics.find topic_name = some topic) :
    ∃ twin, other.topics.find topic_name = some twin ∧ topic.channel = twin.channel := by
  have htopics := congrFun (congrArg Hub.topics hsame) topic_name
  simp only [hub, hfound, Option.map_some] at htopics
  obtain ⟨twin, htwin, hchannel⟩ := Option.map_eq_some_iff.mp htopics.symm
  exact ⟨twin, htwin, hchannel.symm⟩

/-- Servers that look alike handle a request alike. -/
theorem Server.handle_request_alike {self : Server H} {other : Server K} (hsame : self.hub = other.hub) (action : UInt8)
    (payload : Bytes) (kernel : Kernel) :
    (self.handle_request action payload kernel).1.hub = (other.handle_request action payload kernel).1.hub ∧
      List.Forall₂ Effect.Alike (self.handle_request action payload kernel).2
        (other.handle_request action payload kernel).2 := by
  have hself := hub_handle_request self action payload kernel
  have hother := hub_handle_request other action payload kernel
  obtain ⟨hnext, heffects⟩ :=
    Hub.meet_alike self.hub_lists (hsame ▸ other.hub_lists) kernel (Demand.read action payload)
  rw [hself] at hnext heffects
  rw [hsame, hother] at hnext heffects
  exact ⟨hnext, heffects⟩

end treenity.server

namespace treenity.broker.Broker

variable {H K : StdHash}

/-- The systems differ in nothing but what is inside the tables of the server. -/
structure SameView (broker : Broker H) (twin : Broker K) : Prop where
  hub : broker.server.hub = twin.server.hub
  pending : broker.pending = twin.pending
  queue : broker.queue = twin.queue
  procs : broker.procs = twin.procs
  owner : broker.owner = twin.owner

/-- The systems look alike, and the worker finds its subscribers in both. -/
structure Twins (broker : Broker H) (twin : Broker K) : Prop where
  view : broker.SameView twin
  synced : broker.server.Synced
  twin_synced : twin.server.Synced

theorem SameView.kernel {self : Broker H} {other : Broker K} (hview : self.SameView other) :
    self.kernel = other.kernel := by
  rw [Broker.kernel, Broker.kernel, hview.procs]

theorem Moves.synced {self next : Broker H} {event : Event} (hmoves : self.Moves event next)
    (hsynced : self.server.Synced) : next.server.Synced := by
  cases hmoves with
  | accepted hrequest hpending hqueue haccept haccepted =>
    dsimp only
    rw [haccepted.next_eq]
    exact hsynced
  | committed => exact (Server.handle_request_touched _ _ _ _).synced hsynced
  | disconnected => exact (Server.handle_request_touched _ _ _ _).synced hsynced
  | quiet => exact (Server.handle_request_touched _ _ _ _).synced hsynced
  | register => exact (Server.register_subscriber_touched _ _ _ 0 []).synced hsynced
  | deliver hfound hreads hdeliver =>
    exact hsynced.set_topic hfound ((hsynced _ _ hfound).deliver_next hdeliver)
  | _ => exact hsynced

theorem SameView.handle {self next : Broker H} {other : Broker K} (hview : self.SameView other) {effects : List Effect}
    (hstep : self.handle = some (next, effects)) :
    ∃ later matched, other.handle = some (later, matched) ∧ List.Forall₂ Effect.Alike effects matched ∧
      next.SameView later := by
  have hkernel := hview.kernel
  obtain ⟨hhub, hpending, hqueue, hprocs, howner⟩ := hview
  unfold Broker.handle at hstep ⊢
  rw [← hpending, ← hqueue, ← hkernel, ← hprocs, ← howner]
  split at hstep
  · rename_i p request hrequest rest hnone hfirst
    have hmine := Server.hub_accept_subscriber self.server hrequest self.kernel.reader_active
    have htwin := Server.hub_accept_subscriber other.server hrequest self.kernel.reader_active
    rw [← hhub] at htwin
    cases haccepted : self.server.hub.accept request self.kernel.reader_active with
    | error status =>
      rw [haccepted] at hmine htwin
      dsimp only at hmine htwin
      rw [hmine] at hstep
      rw [htwin]
      obtain ⟨rfl, rfl⟩ := Prod.mk.inj (Option.some.inj hstep)
      exact ⟨_, _, rfl, alike_refl _, hhub, rfl, rfl, rfl, rfl⟩
    | ok sub =>
      rw [haccepted] at hmine htwin
      obtain ⟨accepted, haccepted, hclaim⟩ := hmine
      obtain ⟨twin, htaken, hclaimed⟩ := htwin
      rw [haccepted] at hstep
      rw [htaken]
      obtain ⟨rfl, rfl⟩ := Prod.mk.inj (Option.some.inj hstep)
      exact ⟨_, _, rfl, alike_refl _, hclaim.trans hclaimed.symm, rfl, rfl, rfl, rfl⟩
  · rename_i sent rest hother hnone hfirst
    obtain ⟨hnext, heffects⟩ := Server.handle_request_alike hhub sent.action sent.payload self.kernel
    cases sent with
    | subscribe p request hrequest => exact absurd rfl (hother p request hrequest)
    | _ =>
      obtain ⟨rfl, rfl⟩ := Prod.mk.inj (Option.some.inj hstep)
      exact ⟨_, _, rfl, heffects, hnext, rfl, rfl, rfl, rfl⟩
  · cases hstep

theorem SameView.register {self next : Broker H} {other : Broker K} (hview : self.SameView other)
    {effects : List Effect} (hstep : self.register = some (next, effects)) :
    ∃ later matched, other.register = some (later, matched) ∧ List.Forall₂ Effect.Alike effects matched ∧
      next.SameView later := by
  have hkernel := hview.kernel
  obtain ⟨hhub, hpending, hqueue, hprocs, howner⟩ := hview
  unfold Broker.register at hstep ⊢
  rw [← hpending, ← hkernel]
  split at hstep
  · cases hstep
  · rename_i p sub hsome
    have hmine := Server.hub_register_subscriber self.server sub (self.kernel.open_fifo sub.consumer_ipc)
    have htwin := Server.hub_register_subscriber other.server sub (self.kernel.open_fifo sub.consumer_ipc)
    rw [← hhub, hmine] at htwin
    obtain ⟨hnext, heffects⟩ := Prod.mk.inj htwin
    obtain ⟨rfl, rfl⟩ := Prod.mk.inj (Option.some.inj hstep)
    exact ⟨_, _, rfl, heffects ▸ alike_refl _, hnext, rfl, hqueue, hprocs, howner⟩

theorem SameView.deliver {self next : Broker H} {other : Broker K} (hview : self.SameView other)
    (hsynced : self.server.Synced) (htwin_synced : other.server.Synced) {topic_name client_id : Bytes} {taken : Bool}
    {effects : List Effect} (hstep : self.deliver topic_name client_id taken = some (next, effects)) :
    ∃ later matched, other.deliver topic_name client_id taken = some (later, matched) ∧
      List.Forall₂ Effect.Alike effects matched ∧ next.SameView later := by
  obtain ⟨hhub, hpending, hqueue, hprocs, howner⟩ := hview
  unfold Broker.deliver at hstep ⊢
  split at hstep
  · cases hstep
  rename_i topic hfound
  obtain ⟨twin, htwin, hchannel⟩ := Server.hub_twin hhub hfound
  have hentry : topic.subscribers.find client_id = twin.subscribers.find client_id :=
    congrFun (congrArg Channel.subscribers hchannel) client_id
  have halive : self.alive = other.alive := by
    funext p
    rw [Broker.alive, Broker.alive, hprocs]
  rw [htwin]
  dsimp only at hstep ⊢
  rw [← hentry, ← halive, ← hprocs]
  obtain ⟨⟨served, calls⟩, hdeliver, heq⟩ := Option.map_eq_some_iff.mp hstep
  obtain ⟨rfl, rfl⟩ := Prod.mk.inj heq
  -- Both topics serve the client as the users' view of them does.
  have hmine := Topic.channel_deliver_next (hsynced _ _ hfound) client_id
    (taken && ((topic.subscribers.find client_id).bind ActiveSubscriber.fifo_fd).any self.alive)
  rw [hdeliver, hchannel, ← Topic.channel_deliver_next (htwin_synced _ _ htwin), Option.map_some] at hmine
  obtain ⟨⟨matched, more⟩, hmatched, hsame⟩ := Option.map_eq_some_iff.mp hmine.symm
  obtain ⟨hserved, rfl⟩ := Prod.mk.inj hsame
  refine ⟨_, _, Option.map_eq_some_iff.mpr ⟨_, hmatched, rfl⟩, alike_refl _, ?_, hpending, hqueue, rfl, howner⟩
  dsimp only
  rw [Server.hub_set_topic hfound, Server.hub_set_topic htwin, hhub, hserved]

/-- Every step has a twin. -/
theorem Twins.step {self next : Broker H} {other : Broker K} (htwins : self.Twins other) {event : Event}
    {effects : List Effect} (hstep : self.step event = some (next, effects)) :
    ∃ later matched, other.step event = some (later, matched) ∧ List.Forall₂ Effect.Alike effects matched ∧
      next.Twins later := by
  obtain ⟨hview, hsynced, htwin_synced⟩ := htwins
  have hnext := (step_moves hstep).synced hsynced
  suffices hmatch : ∃ later matched, other.step event = some (later, matched) ∧
      List.Forall₂ Effect.Alike effects matched ∧ next.SameView later by
    obtain ⟨later, matched, hlater, halike, hsame⟩ := hmatch
    exact ⟨later, matched, hlater, halike, hsame, hnext, (step_moves hlater).synced htwin_synced⟩
  cases event with
  | handle => exact hview.handle hstep
  | register => exact hview.register hstep
  | deliver topic_name client_id taken => exact hview.deliver hsynced htwin_synced hstep
  | start client_pid command =>
    obtain ⟨hhub, hpending, hqueue, hprocs, howner⟩ := hview
    simp only [Broker.step, Option.dite_none_right_eq_some, Option.ite_none_right_eq_some] at hstep
    obtain ⟨runs, hfree, heq⟩ := hstep
    obtain ⟨rfl, rfl⟩ := Prod.mk.inj (Option.some.inj heq)
    rw [Broker.step, dif_pos runs, ← hprocs, if_pos hfree]
    exact ⟨_, _, rfl, .nil, hhub, hpending, hqueue, rfl, howner⟩
  | request action payload =>
    obtain ⟨hhub, hpending, hqueue, hprocs, howner⟩ := hview
    simp only [Broker.step, Option.dite_none_right_eq_some] at hstep
    obtain ⟨hother, hsize, heq⟩ := hstep
    obtain ⟨rfl, rfl⟩ := Prod.mk.inj (Option.some.inj heq)
    rw [Broker.step, dif_pos hother, dif_pos hsize, ← hqueue]
    exact ⟨_, _, rfl, .nil, hhub, hpending, rfl, hprocs, howner⟩
  | act p action =>
    obtain ⟨hhub, hpending, hqueue, hprocs, howner⟩ := hview
    simp only [Broker.step, ← hprocs] at hstep ⊢
    split at hstep
    · cases hstep
    · rename_i proc hproc
      split at hstep
      · rename_i halive
        obtain ⟨⟨moved, sent⟩, hact, heq⟩ := Option.map_eq_some_iff.mp hstep
        obtain ⟨rfl, rfl⟩ := Prod.mk.inj heq
        rw [if_pos halive, ← hqueue]
        exact ⟨_, _, Option.map_eq_some_iff.mpr ⟨_, hact, rfl⟩, .nil, hhub, hpending, rfl, rfl, howner⟩
      · cases hstep
  | exit p =>
    obtain ⟨hhub, hpending, hqueue, hprocs, howner⟩ := hview
    obtain ⟨rfl, rfl⟩ := Prod.mk.inj (Option.some.inj hstep)
    rw [Broker.step, ← hprocs]
    exact ⟨_, _, rfl, .nil, hhub, hpending, hqueue, rfl, howner⟩

end treenity.broker.Broker

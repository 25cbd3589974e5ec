import Treenity.Broker.Service

open treenity.protocol treenity.data_structures treenity.ipc treenity.client treenity.server treenity.foundation

namespace treenity.broker.Broker

variable {H : StdHash}

/-- Some table has a descriptor for the process `q`. -/
def Wired (self : Broker H) (q : Nat) : Prop :=
  ∃ topic_name client_id sub, self.server.entry topic_name client_id = some sub ∧ sub.fifo_fd = some q

/-- What a shutdown leaves of a system: entries go, and FIFOs fill only where there was a
descriptor. -/
structure Thins (before after : Broker H) : Prop where
  queue : after.queue = before.queue
  pending : after.pending = before.pending
  owner : after.owner = before.owner
  client_index : after.server.client_index = before.server.client_index
  entry : ∀ topic_name client_id sub, after.server.entry topic_name client_id = some sub →
    before.server.entry topic_name client_id = some sub
  length : after.procs.length = before.procs.length
  procs : ∀ q : Nat, ∃ more, after.procs[q]? = before.procs[q]?.map (Process.receive more) ∧
    (more ≠ [] → before.Wired q)

theorem perform_length (procs : List Process) (effect : Effect) : (perform procs effect).length = procs.length := by
  unfold perform post
  split
  · split
    · exact List.length_modify _ _ _
    · rfl
  · exact List.length_modify _ _ _
  · rfl

theorem shutdown_topic_procs (self : Broker H) (topic_name : Bytes) (topic : Topic H) (taken : Fd → Bool) (q : Nat) :
    (self.shutdown_topic topic_name topic taken).1.procs[q]? = self.procs[q]?.map (Process.receive
      ((self.shutdown_topic topic_name topic taken).2.filterMap (self.reaching q)).flatten) := by
  refine (perform_calls (topic.shutdown (fun fd => taken fd && self.alive fd)).2 self.procs q).trans ?_
  rw [show (self.shutdown_topic topic_name topic taken).2.filterMap (self.reaching q) = _ from List.filterMap_map]
  rfl

/-- The table of the topic is empty afterwards, and the other tables are as they were. -/
theorem shutdown_topic_entry {self : Broker H} {topic_name : Bytes} {topic : Topic H}
    (hfound : self.server.topics.find topic_name = some topic) (taken : Fd → Bool) (other client_id : Bytes) :
    (self.shutdown_topic topic_name topic taken).1.server.entry other client_id =
      if other = topic_name ∧ topic.stop_flag = false then none else self.server.entry other client_id := by
  have hentry := Server.set_topic_entry hfound (topic.shutdown (fun fd => taken fd && self.alive fd)).1 other client_id
  rw [Topic.shutdown_find] at hentry
  apply hentry.trans
  by_cases hother : other = topic_name
  · cases hflag : topic.stop_flag <;> simp [hother, Server.entry_of_find hfound]
  · simp [hother]

theorem shutdown_topic_stopped {self : Broker H} {topic_name : Bytes} {topic : Topic H}
    (hfound : self.server.topics.find topic_name = some topic) (taken : Fd → Bool) (other : Bytes) :
    (self.shutdown_topic topic_name topic taken).1.server.stopped other =
      (decide (other = topic_name) || self.server.stopped other) := by
  have hfind := Server.set_topic_find hfound (topic.shutdown (fun fd => taken fd && self.alive fd)).1 other
  apply (congrArg (Option.any Topic.stop_flag) hfind).trans
  by_cases hother : other = topic_name
  · simp [hother]
  · simp [hother, Server.stopped]

theorem shutdown_topic_log {self : Broker H} {topic_name : Bytes} {topic : Topic H}
    (hfound : self.server.topics.find topic_name = some topic) (taken : Fd → Bool) (other : Bytes) :
    (self.shutdown_topic topic_name topic taken).1.server.log other = self.server.log other := by
  have hlog := Server.set_topic_log hfound (topic.shutdown (fun fd => taken fd && self.alive fd)).1 other
  apply hlog.trans
  split
  · rename_i hother
    rw [Topic.shutdown_messages, hother, Server.log_of_find hfound]
  · rfl

theorem shutdown_topic_healthy {self : Broker H} {topic_name : Bytes} {topic : Topic H}
    (hfound : self.server.topics.find topic_name = some topic) (taken : Fd → Bool)
    (hhealthy : ∀ topic_name topic, self.server.topics.find topic_name = some topic → topic.Healthy) :
    ∀ other later, (self.shutdown_topic topic_name topic taken).1.server.topics.find other = some later →
      later.Healthy := by
  intro other later hlater
  have hlater := (Server.set_topic_find hfound _ other).symm.trans hlater
  split at hlater
  · obtain rfl := Option.some.inj hlater
    have hbefore := hhealthy topic_name topic hfound
    exact hbefore.of_messages (hbefore.synced.shutdown _) (topic.shutdown_messages _)
  · exact hhealthy other later hlater

theorem shutdown_topic_thins {self : Broker H} {topic_name : Bytes} {topic : Topic H}
    (hfound : self.server.topics.find topic_name = some topic) (taken : Fd → Bool) :
    self.Thins (self.shutdown_topic topic_name topic taken).1 where
  queue := rfl
  pending := rfl
  owner := rfl
  client_index := rfl
  entry := by
    intro other client_id sub hentry
    rw [shutdown_topic_entry hfound] at hentry
    split at hentry
    · cases hentry
    · exact hentry
  length := by
    have hfold : ∀ (effects : List Effect) (procs : List Process), (effects.foldl perform procs).length = procs.length := by
      intro effects
      induction effects with
      | nil => exact fun _ => rfl
      | cons effect rest ih => exact fun procs => (ih _).trans (perform_length procs effect)
    exact hfold _ _
  procs := by
    intro q
    refine ⟨_, self.shutdown_topic_procs topic_name topic taken q, fun hmore => ?_⟩
    by_contra hunwired
    refine hmore (List.flatten_eq_nil_iff.mpr fun bytes hbytes => ?_)
    obtain ⟨effect, heffect, hreaching⟩ := List.mem_filterMap.mp hbytes
    obtain ⟨call, hcall, rfl⟩ := List.mem_map.mp heffect
    have hspares := Topic.shutdown_spares _ q (fun id sub hfind hfd =>
      hunwired ⟨topic_name, id, sub, by rw [Server.entry_of_find hfound, hfind], hfd⟩) call hcall
    rw [show self.reaching q (.syscall call) = none from hspares.delivered] at hreaching
    cases hreaching

namespace Thins

variable {self next : Broker H} (hthins : self.Thins next)

include hthins

theorem process_before {q : Nat} {proc : Process} (hproc : next.procs[q]? = some proc) :
    ∃ old more, self.procs[q]? = some old ∧ proc = old.receive more ∧ (more ≠ [] → self.Wired q) := by
  obtain ⟨more, hmore, hwired⟩ := hthins.procs q
  rw [hmore] at hproc
  obtain ⟨old, hold, rfl⟩ := Option.map_eq_some_iff.mp hproc
  exact ⟨old, more, hold, rfl, hwired⟩

theorem process_after {q : Nat} {old : Process} (hold : self.procs[q]? = some old) :
    ∃ more, next.procs[q]? = some (old.receive more) := by
  obtain ⟨more, hmore, _⟩ := hthins.procs q
  exact ⟨more, by rw [hmore, hold]; rfl⟩

theorem live {q : Nat} {path : Bytes} (hlive : Live next.procs q path) : Live self.procs q path := by
  obtain ⟨proc, hproc, halive, hpath⟩ := hlive
  obtain ⟨old, more, hold, rfl, _⟩ := hthins.process_before hproc
  exact ⟨old, hold, halive, hpath⟩

theorem opened {topic_name client_id path : Bytes} {q : Nat} (hopen : next.Opened topic_name client_id q path) :
    self.Opened topic_name client_id q path := by
  obtain ⟨sub, hentry, hfd, hpath⟩ := hopen
  exact ⟨sub, hthins.entry _ _ _ hentry, hfd, hpath⟩

theorem wired {q : Nat} (hwired : next.Wired q) : self.Wired q := by
  obtain ⟨topic_name, client_id, sub, hentry, hfd⟩ := hwired
  exact ⟨topic_name, client_id, sub, hthins.entry _ _ _ hentry, hfd⟩

theorem exclusive (hexclusive : self.Exclusive) : next.Exclusive := by
  have hindex := hthins.client_index
  refine ⟨?_, ?_, ?_, ?_⟩
  · intro q₁ q₂ path h₁ h₂
    exact hexclusive.distinct q₁ q₂ path (hthins.live h₁) (hthins.live h₂)
  · intro topic_name client_id q path hopen
    rw [hthins.length]
    exact hexclusive.known _ _ _ _ (hthins.opened hopen)
  · intro topic_name client_id q path live_path hopen hlive
    rw [Current, hindex]
    exact hexclusive.current _ _ _ _ _ (hthins.opened hopen) (hthins.live hlive)
  · intro p sub hpending
    rw [hthins.pending] at hpending
    obtain ⟨hfind, hnone⟩ := hexclusive.pending p sub hpending
    rw [hindex]
    exact ⟨hfind, fun _ _ _ _ hopen hlive => hnone _ _ _ _ (hthins.opened hopen) (hthins.live hlive)⟩

theorem sent_from {sent : Sent} (hfrom : sent.From self.procs) : sent.From next.procs := by
  cases sent with
  | subscribe | ack | disconnect =>
    obtain ⟨old, hold, hmade⟩ := hfrom
    obtain ⟨more, hmore⟩ := hthins.process_after hold
    exact ⟨old.receive more, hmore, hmade⟩
  | other => trivial

theorem sessions (hsessions : self.Sessions) : next.Sessions := by
  refine ⟨?_, ?_, ?_, ?_, ?_, ?_, ?_⟩
  · rw [hthins.queue]
    exact fun sent hsent => hthins.sent_from (hsessions.genuine sent hsent)
  · rw [hthins.queue]
    exact hsessions.once
  · rw [hthins.queue]
    intro p hp
    obtain ⟨old, hold, hqueued⟩ := hsessions.queued p hp
    obtain ⟨more, hmore⟩ := hthins.process_after hold
    exact ⟨_, hmore, hqueued⟩
  · rw [hthins.queue]
    exact fun p request hrequest hsent q hlive => hsessions.own p request hrequest hsent q (hthins.live hlive)
  · rw [hthins.pending]
    intro p sub hpending
    obtain ⟨hown, old, hold, hmade⟩ := hsessions.pending p sub hpending
    obtain ⟨more, hmore⟩ := hthins.process_after hold
    exact ⟨fun q hlive => hown q (hthins.live hlive), _, hmore, hmade.topic, hmade.client_id, hmade.pref,
      hmade.consumer_ipc, hmade.status⟩
  · intro p proc hproc
    obtain ⟨old, more, hold, rfl, hwired⟩ := hthins.process_before hproc
    have hconsistent := hsessions.consistent p old hold
    by_cases hmore : more = []
    · rw [hmore, Process.receive_nil]
      exact hconsistent
    · obtain ⟨topic_name, client_id, sub, hentry, hfd⟩ := hwired hmore
      obtain ⟨found, hfound, hhas⟩ := hsessions.opened _ _ sub p hentry hfd
      obtain rfl := Option.some.inj (hold.symm.trans hfound)
      obtain ⟨start_offset, haccepted⟩ := hhas.accepted
      rw [Process.Consistent, haccepted] at hconsistent
      exact Process.consistent_of_accepted haccepted hconsistent
  · intro topic_name client_id sub q hentry hfd
    obtain ⟨old, hold, hhas⟩ := hsessions.opened _ _ sub q (hthins.entry _ _ _ hentry) hfd
    obtain ⟨more, hmore⟩ := hthins.process_after hold
    exact ⟨_, hmore, hhas.topic, hhas.client_id, hhas.pref, hhas.accepted⟩

theorem strangers (hstrangers : self.Strangers) : next.Strangers := by
  intro action payload hother hsize hsent pid hpid q hlive
  rw [hthins.queue] at hsent
  exact hstrangers action payload hother hsize hsent pid hpid q (hthins.live hlive)

end Thins

end treenity.broker.Broker

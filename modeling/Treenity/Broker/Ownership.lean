import Treenity.Broker.Registered

open treenity.protocol treenity.data_structures treenity.ipc treenity.client treenity.server treenity.foundation

namespace treenity.broker

/-- Who wrote an ACK or a DISCONNECT of the name. -/
def Sent.author (client_id : Bytes) : Sent → Option Nat
  | .ack p name _ _ => if name = client_id then some p else none
  | .disconnect p name _ => if name = client_id then some p else none
  | _ => none

namespace Broker

variable {H : StdHash}

/-- When a SUBSCRIBE of the name is accepted, no ACK or DISCONNECT of the name by
another process is still on its way. -/
def orderly (self : Broker H) (client_id : Bytes) : Event → Bool
  | .handle =>
    match self.pending, self.queue with
    | none, .subscribe p request _ :: rest =>
      (self.server.accept_subscriber (Request.subscribe_payload request) self.kernel.reader_active).1.isNone ||
        request.client_id != client_id || rest.all (fun sent => (sent.author client_id).all (· == p))
    | _, _ => true
  | _ => true

/-- The process `q` has the name: it was the last to be accepted, the index has its
FIFO, and so does the table of its topic, if only as soon as `add_subscriber` is done. -/
structure Stays (broker : Broker H) (q : Nat) (topic_name client_id path : Bytes) : Prop where
  owner : broker.owner client_id = some q
  current : broker.Current topic_name client_id path
  entry : (∃ sub, broker.pending = some (q, sub)) ∨
    ∃ entry, broker.server.entry topic_name client_id = some entry ∧ entry.fifo_path = path

/-- All ACKs and DISCONNECTs of the name on their way are by its owner, a process
that wrote a DISCONNECT is through, and every process that lives and was accepted
has the name until then. -/
structure Owned (client_id : Bytes) (broker : Broker H) : Prop where
  authors : ∀ sent ∈ broker.queue, ∀ p, sent.author client_id = some p → broker.owner client_id = some p
  disconnects : ∀ p hname, .disconnect p client_id hname ∈ broker.queue →
    ∃ proc, broker.procs[p]? = some proc ∧ proc.phase = .disconnected
  pending : ∀ p sub, broker.pending = some (p, sub) →
    (sub.client_id = client_id → broker.owner client_id = some p) ∧
      ∃ topic, broker.server.topics.find sub.topic = some topic
  stays : ∀ (q : Nat) (proc : Process) start_offset, broker.procs[q]? = some proc → proc.alive = true →
    proc.status = .accepted start_offset → proc.command.subscriber = client_id → proc.phase ≠ .disconnected →
      broker.Stays q proc.command.topic client_id proc.fifo_path

/-- The same for any other frames that name their author. -/
def unopposed (self : Broker H) (author : Sent → Option Nat) (client_id : Bytes) : Event → Bool
  | .handle =>
    match self.pending, self.queue with
    | none, .subscribe p request _ :: rest =>
      (self.server.accept_subscriber (Request.subscribe_payload request) self.kernel.reader_active).1.isNone ||
        request.client_id != client_id || rest.all (fun sent => (author sent).all (· == p))
    | _, _ => true
  | _ => true

theorem orderly_eq (self : Broker H) (client_id : Bytes) (event : Event) :
    self.orderly client_id event = self.unopposed (Sent.author client_id) client_id event := by
  cases event <;> rfl

/-- An owner with frames on their way stays the owner. -/
theorem Moves.owner_after {self next : Broker H} {event : Event} (hmoves : self.Moves event next)
    {author : Sent → Option Nat} {client_id : Bytes} (hunopposed : self.unopposed author client_id event = true)
    {sent : Sent} (hsent : sent ∈ next.queue) {p : Nat} (hauthor : author sent = some p)
    (howner : self.owner client_id = some p) : next.owner client_id = some p := by
  cases hmoves with
  | accepted hrequest hpending hqueue haccept haccepted =>
    rename_i p' request rest sub server effects
    have hname : sub.client_id = request.client_id := by rw [haccepted.sub_eq]
    by_cases hsame : sub.client_id = client_id
    · have hrest : rest.all (fun sent => (author sent).all (· == p')) = true := by
        simpa [unopposed, hpending, hqueue, haccept, ← hname, hsame] using hunopposed
      have hown := List.all_eq_true.mp hrest sent hsent
      rw [hauthor] at hown
      obtain rfl : p = p' := beq_iff_eq.mp hown
      rw [← hsame]
      exact Function.update_self _ _ _
    · dsimp only
      rw [Function.update_of_ne (Ne.symm hsame), howner]
  | _ => exact howner

/-- The process was the last to be accepted for the name, and the index has its FIFO. -/
def Holds (self : Broker H) (q : Nat) (topic_name client_id path : Bytes) : Prop :=
  self.owner client_id = some q ∧ self.Current topic_name client_id path

/-- A live process holds its name until a DISCONNECT of the name is handled. -/
theorem Holds.step {self next : Broker H} {event : Event} {q : Nat} {topic_name client_id : Bytes} {old : Process}
    (hholds : self.Holds q topic_name client_id old.fifo_path) (hmoves : self.Moves event next)
    (hold : self.procs[q]? = some old) (halive : old.alive = true)
    (hquit : ∀ p hname rest, self.queue ≠ .disconnect p client_id hname :: rest) :
    next.Holds q topic_name client_id old.fifo_path := by
  obtain ⟨howner, hcurrent⟩ := hholds
  cases hmoves with
  | accepted hrequest hpending hqueue haccept haccepted =>
    rename_i p request rest sub server effects
    have hother : sub.client_id ≠ client_id := by
      rintro rfl
      have hbusy := hcurrent.in_use hold halive
      have hfree := haccepted.free
      rw [haccepted.sub_eq] at hbusy
      rw [hfree] at hbusy
      cases hbusy
    have hindex : server.client_index.find client_id = self.server.client_index.find client_id := by
      rw [haccepted.next_eq, HashMap.find_insert_or_assign, if_neg (Ne.symm hother)]
    refine ⟨?_, ?_⟩
    · dsimp only
      rw [Function.update_of_ne (Ne.symm hother), howner]
    · rw [Current, hindex]
      exact hcurrent
  | committed hname hpending hqueue hcommitted => exact ⟨howner, hcurrent.committed hcommitted⟩
  | disconnected hname hpending hqueue hdisconnected =>
    rename_i p name rest recorded
    have hother : client_id ≠ name := by
      rintro rfl
      exact hquit p hname rest hqueue
    refine ⟨howner, ?_⟩
    rw [Current, hdisconnected.index, if_neg hother]
    exact hcurrent
  | quiet hpending hqueue hother hquiet =>
    refine ⟨howner, ?_⟩
    rw [Current, hquiet.client_index]
    exact hcurrent
  | register hpending =>
    refine ⟨howner, ?_⟩
    rw [Current, Server.register_subscriber_client_index]
    exact hcurrent
  | _ => exact ⟨howner, hcurrent⟩

/-- A process whose SUBSCRIBE is accepted by this step holds its name. -/
theorem Sessions.accepted_holds {self next : Broker H} {event : Event} (hsessions : self.Sessions)
    (hmoves : self.Moves event next) {q : Nat} {old : Process} (hold : self.procs[q]? = some old)
    {sub : Server.Subscription} (hnone : self.pending = none) (hpending : next.pending = some (q, sub)) :
    next.Holds q old.command.topic old.command.subscriber old.fifo_path := by
  obtain ⟨request, rest, server, effects, hrequest, _, hqueue, hdone, rfl⟩ :=
    hmoves.pending_new hpending (by simp [hnone])
  obtain ⟨sender, hsender, _, _, rfl⟩ := hsessions.first hqueue
  obtain rfl := Option.some.inj (hold.symm.trans hsender)
  have hclient : sub.client_id = old.command.subscriber := by rw [hdone.sub_eq]; rfl
  have htopic : sub.topic = old.command.topic := by rw [hdone.sub_eq]; rfl
  have hipc : sub.consumer_ipc = old.fifo_path := by rw [hdone.sub_eq]; rfl
  refine ⟨?_, ?_⟩
  · rw [← hclient]
    exact Function.update_self _ _ _
  · rw [Current]
    dsimp only
    rw [hdone.next_eq, ← hclient]
    exact ⟨sub.metadata, by simp, rfl, htopic, hipc⟩

/-- The frames of the name that the function tells the author of: they are ACKs and
DISCONNECTs, and all DISCONNECTs are among them. -/
structure Authorship (author : Sent → Option Nat) (client_id : Bytes) : Prop where
  named : ∀ sent p, author sent = some p → sent.author client_id = some p
  disconnect : ∀ p hname, author (.disconnect p client_id hname) = some p

theorem author_authorship (client_id : Bytes) : Authorship (Sent.author client_id) client_id :=
  ⟨fun _ _ => id, fun _ _ => if_pos rfl⟩

/-- What keeps a name with its owner: these frames are all by the owner, a process that
wrote a DISCONNECT is through, and every process that lives and was accepted holds
the name until then. -/
structure Held (author : Sent → Option Nat) (client_id : Bytes) (broker : Broker H) : Prop where
  authors : ∀ sent ∈ broker.queue, ∀ p, author sent = some p → broker.owner client_id = some p
  disconnects : ∀ p hname, .disconnect p client_id hname ∈ broker.queue →
    ∃ proc, broker.procs[p]? = some proc ∧ proc.phase = .disconnected
  pending : ∀ p sub, broker.pending = some (p, sub) →
    (sub.client_id = client_id → broker.owner client_id = some p) ∧
      ∃ topic, broker.server.topics.find sub.topic = some topic
  holds : ∀ (q : Nat) (proc : Process) start_offset, broker.procs[q]? = some proc → proc.alive = true →
    proc.status = .accepted start_offset → proc.command.subscriber = client_id → proc.phase ≠ .disconnected →
      broker.Holds q proc.command.topic client_id proc.fifo_path

theorem new_held (author : Sent → Option Nat) (client_id : Bytes) : (new : Broker H).Held author client_id := by
  refine ⟨?_, ?_, ?_, ?_⟩ <;> simp [new]

/-- No DISCONNECT of the name waits while its owner has not written one. -/
theorem Held.no_disconnect {self : Broker H} {author : Sent → Option Nat} {client_id : Bytes}
    (hheld : self.Held author client_id) (hauthorship : Authorship author client_id) {q : Nat} {old : Process}
    (hold : self.procs[q]? = some old) (howner : self.owner client_id = some q) (hphase : old.phase ≠ .disconnected) :
    ∀ p hname rest, self.queue ≠ .disconnect p client_id hname :: rest := by
  intro p hname rest hqueue
  have hmem : .disconnect p client_id hname ∈ self.queue := hqueue ▸ List.mem_cons_self
  have hauthor := hheld.authors _ hmem p (hauthorship.disconnect p hname)
  obtain rfl := Option.some.inj (howner.symm.trans hauthor)
  obtain ⟨proc, hproc, hthrough⟩ := hheld.disconnects q hname hmem
  obtain rfl := Option.some.inj (hold.symm.trans hproc)
  exact hphase hthrough

theorem Held.authors_step {self next : Broker H} {event : Event} {author : Sent → Option Nat} {client_id : Bytes}
    (hheld : self.Held author client_id) (hauthorship : Authorship author client_id) (hsessions : self.Sessions)
    (hmoves : self.Moves event next) (hunopposed : self.unopposed author client_id event = true) :
    ∀ sent ∈ next.queue, ∀ p, author sent = some p → next.owner client_id = some p := by
  intro sent hsent p hauthor
  apply hmoves.owner_after hunopposed hsent hauthor
  have hnamed := hauthorship.named sent p hauthor
  rcases hmoves.sent_before hsent with hold | ⟨_, _, _, _, rfl, _⟩ | ⟨p', _, proc, _, _, _, hproc, halive, hacted, _, hnew⟩
  · exact hheld.authors sent hold p hauthor
  · cases hnamed
  · -- The frame is written now, by a live process in its loop.
    have hloop := (hsessions.consistent p' proc hproc).accepted
    have hwritten : ∀ {frame}, sent = frame → frame.author client_id =
        (if proc.command.subscriber = client_id then some p' else none) → proc.phase ≠ .created →
        proc.phase ≠ .waiting → proc.phase ≠ .done → proc.phase ≠ .disconnected → self.owner client_id = some p := by
      rintro frame rfl hby hcreated hwaiting hdone hdisconnected
      rw [hnamed] at hby
      split at hby
      · rename_i hname
        obtain rfl := Option.some.inj hby
        obtain ⟨start_offset, hstatus⟩ := hloop hcreated hwaiting hdone
        exact (hheld.holds p proc start_offset hproc halive hstatus hname hdisconnected).1
      · cases hby
    cases hacted with
    | subscribe =>
      obtain rfl := List.mem_singleton.mp hnew
      cases hnamed
    | ack hphase => apply hwritten (List.mem_singleton.mp hnew) rfl <;> simp [hphase]
    | disconnect hphase => apply hwritten (List.mem_singleton.mp hnew) rfl <;> simp [hphase]
    | _ => cases hnew

theorem Held.disconnects_step {self next : Broker H} {event : Event} {author : Sent → Option Nat} {client_id : Bytes}
    (hheld : self.Held author client_id) (hsessions : self.Sessions) (hmoves : self.Moves event next) :
    ∀ p hname, .disconnect p client_id hname ∈ next.queue →
      ∃ proc, next.procs[p]? = some proc ∧ proc.phase = .disconnected := by
  intro p hname hsent
  rcases hmoves.sent_before hsent with hold | ⟨_, _, _, _, hother, _⟩ | ⟨p', _, _, moved, _, _, _, _, hacted, hmoved, hnew⟩
  · obtain ⟨old, hproc, hphase⟩ := hheld.disconnects p hname hold
    obtain ⟨proc, hnext, hfollows⟩ := hsessions.process_after hmoves hproc
    exact ⟨proc, hnext, hfollows.disconnected hphase⟩
  · cases hother
  · cases hacted with
    | disconnect =>
      cases List.mem_singleton.mp hnew
      exact ⟨_, hmoved, rfl⟩
    | _ => simp at hnew

theorem Held.pending_step {self next : Broker H} {event : Event} {author : Sent → Option Nat} {client_id : Bytes}
    (hheld : self.Held author client_id) (hmoves : self.Moves event next) : ∀ p sub, next.pending = some (p, sub) →
      (sub.client_id = client_id → next.owner client_id = some p) ∧
        ∃ topic, next.server.topics.find sub.topic = some topic := by
  intro p sub hsub
  have hkeeps := hmoves.keeps
  by_cases hbefore : self.pending = some (p, sub)
  · obtain ⟨howner, topic, hfound⟩ := hheld.pending p sub hbefore
    obtain ⟨later, hlater, _⟩ := hkeeps.grows _ _ hfound
    refine ⟨fun hname => ?_, later, hlater⟩
    cases hmoves with
    | accepted _ hpending => simp [hpending] at hbefore
    | _ => exact howner hname
  · obtain ⟨request, rest, server, effects, hrequest, _, hqueue, haccepted, rfl⟩ := hmoves.pending_new hsub hbefore
    obtain ⟨topic, hfound⟩ := haccepted.found
    obtain ⟨later, hlater, _⟩ := hkeeps.grows _ _ hfound
    refine ⟨fun hname => ?_, later, ?_⟩
    · rw [← hname]
      exact Function.update_self _ _ _
    · rw [haccepted.sub_eq]
      exact hlater

/-- A process whose SUBSCRIBE is accepted was so before the step, or is accepted by it. -/
theorem Sessions.accepted_before {self next : Broker H} {event : Event} (hsessions : self.Sessions)
    (hmoves : self.Moves event next) {q : Nat} {proc : Process} {start_offset : UInt32}
    (hproc : next.procs[q]? = some proc) (halive : proc.alive = true)
    (hstatus : proc.status = .accepted start_offset) (hphase : proc.phase ≠ .disconnected) :
    ∃ old, self.procs[q]? = some old ∧ old.alive = true ∧ proc.command = old.command ∧
      proc.fifo_path = old.fifo_path ∧ old.phase ≠ .disconnected ∧
      (old.status = .accepted start_offset ∨
        ∃ sub, self.pending = none ∧ next.pending = some (q, sub)) := by
  rcases hmoves.process_before hproc with ⟨old, hold, hpid, hcommand, hbefore, _⟩ | ⟨_, _, _, _, _, rfl⟩
  · obtain ⟨found, hfound, hfollows⟩ := hsessions.process_after hmoves hold
    obtain rfl := Option.some.inj (hproc.symm.trans hfound)
    have hpath : proc.fifo_path = old.fifo_path := by rw [Process.fifo_path, Process.fifo_path, hpid]
    have hstill : old.phase ≠ .disconnected := fun hgone => hphase (hfollows.disconnected hgone)
    refine ⟨old, hold, hbefore halive, hcommand, hpath, hstill, ?_⟩
    rcases hfollows.status with hsame | ⟨_, hqueued⟩ | ⟨-, -, hrejected | ⟨sub, hnone, hpending, -⟩⟩
    · exact .inl (hsame ▸ hstatus)
    · rw [hqueued] at hstatus
      cases hstatus
    · rw [hrejected] at hstatus
      cases hstatus
    · exact .inr ⟨sub, hnone, hpending⟩
  · cases hstatus

theorem Held.holds_step {self next : Broker H} {event : Event} {author : Sent → Option Nat} {client_id : Bytes}
    (hheld : self.Held author client_id) (hauthorship : Authorship author client_id) (hsessions : self.Sessions)
    (hmoves : self.Moves event next) : ∀ (q : Nat) (proc : Process) start_offset, next.procs[q]? = some proc →
      proc.alive = true → proc.status = .accepted start_offset → proc.command.subscriber = client_id →
      proc.phase ≠ .disconnected → next.Holds q proc.command.topic client_id proc.fifo_path := by
  intro q proc start_offset hproc halive hstatus hname hphase
  obtain ⟨old, hold, hlive, hcommand, hpath, hstill, haccepted⟩ :=
    hsessions.accepted_before hmoves hproc halive hstatus hphase
  rw [hcommand] at hname ⊢
  rw [hpath]
  subst hname
  rcases haccepted with hbefore | ⟨sub, hnone, hpending⟩
  · have hholds := hheld.holds q old start_offset hold hlive hbefore rfl hstill
    exact hholds.step hmoves hold hlive (hheld.no_disconnect hauthorship hold hholds.1 hstill)
  · exact hsessions.accepted_holds hmoves hold hnone hpending

theorem Held.step {self next : Broker H} {event : Event} {author : Sent → Option Nat} {client_id : Bytes}
    (hheld : self.Held author client_id) (hauthorship : Authorship author client_id) (hsessions : self.Sessions)
    (hmoves : self.Moves event next) (hunopposed : self.unopposed author client_id event = true) :
    next.Held author client_id where
  authors := hheld.authors_step hauthorship hsessions hmoves hunopposed
  disconnects := hheld.disconnects_step hsessions hmoves
  pending := hheld.pending_step hmoves
  holds := hheld.holds_step hauthorship hsessions hmoves

theorem Owned.held {self : Broker H} {client_id : Bytes} (howned : self.Owned client_id) :
    self.Held (Sent.author client_id) client_id where
  authors := howned.authors
  disconnects := howned.disconnects
  pending := howned.pending
  holds q proc start_offset hproc halive hstatus hname hphase :=
    have hstays := howned.stays q proc start_offset hproc halive hstatus hname hphase
    ⟨hstays.owner, hstays.current⟩

/-- A turn of the worker keeps the entries and their paths. -/
theorem deliver_keeps_entry {server : Server H} {topic_name client_id : Bytes} {topic next : Topic H}
    {calls : List Syscall} {taken : Bool} (hfound : server.topics.find topic_name = some topic)
    (hdeliver : topic.deliver_next client_id taken = some (next, calls)) {other other_id : Bytes}
    {entry : ActiveSubscriber} (hentry : server.entry other other_id = some entry) :
    ∃ later, (server.set_topic topic_name next).entry other other_id = some later ∧
      later.fifo_path = entry.fifo_path := by
  rw [Server.set_topic_entry hfound]
  split
  · rename_i htopic
    rw [htopic, Server.entry_of_find hfound] at hentry
    have hsome := Topic.deliver_next_isSome hdeliver other_id
    rw [hentry] at hsome
    obtain ⟨later, hlater⟩ := Option.isSome_iff_exists.mp hsome
    obtain ⟨old, hold, hpath, _⟩ := Topic.deliver_next_find hdeliver hlater
    obtain rfl := Option.some.inj (hentry.symm.trans hold)
    exact ⟨later, hlater, hpath⟩
  · exact ⟨entry, hentry, rfl⟩

/-- A live process that has the name keeps it, whatever anybody else does. -/
theorem Stays.step {self next : Broker H} {event : Event} {client_id : Bytes} (howned : self.Owned client_id)
    (hsessions : self.Sessions) (hmoves : self.Moves event next) {q : Nat} {old : Process}
    (hold : self.procs[q]? = some old) (halive : old.alive = true) (hname : old.command.subscriber = client_id)
    (hphase : old.phase ≠ .disconnected) (hstays : self.Stays q old.command.topic client_id old.fifo_path) :
    next.Stays q old.command.topic client_id old.fifo_path := by
  obtain ⟨howner, hcurrent, hentry⟩ := hstays
  have hquit := howned.held.no_disconnect (author_authorship client_id) hold howner hphase
  have hholds := Holds.step ⟨howner, hcurrent⟩ hmoves hold halive hquit
  refine ⟨hholds.1, hholds.2, ?_⟩
  cases hmoves with
  | accepted hrequest hpending hqueue haccept haccepted =>
    rcases hentry with ⟨_, hnone⟩ | ⟨entry, hfound, hpath⟩
    · rw [hpending] at hnone
      cases hnone
    · exact .inr ⟨entry, by rw [haccepted.next_eq]; exact hfound, hpath⟩
  | committed hname' hpending hqueue hcommitted =>
    rcases hentry with ⟨_, hnone⟩ | ⟨entry, hfound, hpath⟩
    · rw [hpending] at hnone
      cases hnone
    · exact .inr ⟨entry, (hcommitted.entry _ _).trans hfound, hpath⟩
  | disconnected hname' hpending hqueue hdisconnected =>
    rename_i p name rest recorded
    have hother : client_id ≠ name := by
      rintro rfl
      exact hquit p hname' rest hqueue
    rcases hentry with ⟨_, hnone⟩ | ⟨entry, hfound, hpath⟩
    · rw [hpending] at hnone
      cases hnone
    · exact .inr ⟨entry, by rw [hdisconnected.entry, if_neg (fun h => hother h.2), hfound], hpath⟩
  | quiet hpending hqueue hquiet_other hquiet =>
    rcases hentry with ⟨_, hnone⟩ | ⟨entry, hfound, hpath⟩
    · rw [hpending] at hnone
      cases hnone
    · exact .inr ⟨entry, (hquiet.entry _ _).trans hfound, hpath⟩
  | rejected hrequest hpending =>
    refine hentry.imp ?_ id
    rw [hpending]
    exact id
  | register hpending =>
    rename_i p sub
    refine .inr ?_
    obtain ⟨hownsub, topic, hfound⟩ := howned.pending p sub hpending
    obtain ⟨_, proc, hproc, hmade⟩ := hsessions.pending p sub hpending
    dsimp only
    rw [Server.register_subscriber_entry hfound]
    by_cases hsame : sub.client_id = client_id
    · obtain rfl := Option.some.inj (howner.symm.trans (hownsub hsame))
      obtain rfl := Option.some.inj (hold.symm.trans hproc)
      have hopens := holder_isSome hold halive
      rw [hmade.consumer_ipc] at hopens
      obtain ⟨fd, hfd⟩ := Option.isSome_iff_exists.mp hopens
      rw [if_pos ⟨hmade.topic, hsame.symm⟩, hfd]
      exact ⟨_, rfl, hmade.consumer_ipc.symm⟩
    · rw [if_neg (fun h => hsame h.2.symm)]
      rcases hentry with ⟨sub', hsub⟩ | hfound
      · obtain ⟨rfl, rfl⟩ := Prod.mk.inj (Option.some.inj (hpending.symm.trans hsub))
        obtain rfl := Option.some.inj (hold.symm.trans hproc)
        exact absurd (hmade.client_id.symm.trans hname) hsame
      · exact hfound
  | deliver hfound hreads hdeliver =>
    apply hentry.imp id
    rintro ⟨entry, hfind, hpath⟩
    obtain ⟨later, hlater, hsame⟩ := deliver_keeps_entry hfound hdeliver hfind
    exact ⟨later, hlater, hsame.trans hpath⟩
  | _ => exact hentry

theorem Owned.stays_step {self next : Broker H} {event : Event} {client_id : Bytes} (howned : self.Owned client_id)
    (hsessions : self.Sessions) (hmoves : self.Moves event next) : ∀ (q : Nat) (proc : Process) start_offset,
      next.procs[q]? = some proc → proc.alive = true → proc.status = .accepted start_offset →
      proc.command.subscriber = client_id → proc.phase ≠ .disconnected →
        next.Stays q proc.command.topic client_id proc.fifo_path := by
  intro q proc start_offset hproc halive hstatus hname hphase
  obtain ⟨old, hold, hlive, hcommand, hpath, hstill, haccepted⟩ :=
    hsessions.accepted_before hmoves hproc halive hstatus hphase
  rw [hcommand] at hname ⊢
  rw [hpath]
  subst hname
  rcases haccepted with hbefore | ⟨sub, hnone, hpending⟩
  · have hstays := howned.stays q old start_offset hold hlive hbefore rfl hstill
    exact hstays.step howned hsessions hmoves hold hlive rfl hstill
  · obtain ⟨howner, hcurrent⟩ := hsessions.accepted_holds hmoves hold hnone hpending
    exact ⟨howner, hcurrent, .inl ⟨sub, hpending⟩⟩

theorem Owned.step {self next : Broker H} {event : Event} {client_id : Bytes} (howned : self.Owned client_id)
    (hsessions : self.Sessions) (hmoves : self.Moves event next) (horderly : self.orderly client_id event = true) :
    next.Owned client_id :=
  have hheld := howned.held.step (author_authorship client_id) hsessions hmoves
    (self.orderly_eq client_id event ▸ horderly)
  ⟨hheld.authors, hheld.disconnects, hheld.pending, howned.stays_step hsessions hmoves⟩

/-- The index or a table says something else about the name. -/
def Changes (before next : Broker H) (client_id : Bytes) : Prop :=
  next.server.client_index.find client_id ≠ before.server.client_index.find client_id ∨
    ∃ topic_name, next.server.entry topic_name client_id ≠ before.server.entry topic_name client_id

end Broker

end treenity.broker

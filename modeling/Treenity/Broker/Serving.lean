import Treenity.Broker.Ownership
import Treenity.Broker.Streams

open treenity.protocol treenity.data_structures treenity.ipc treenity.client treenity.server treenity.foundation

namespace treenity.broker

theorem Sent.From.author {procs : List Process} {sent : Sent} (hfrom : sent.From procs) {client_id : Bytes} {p : Nat}
    (hauthor : sent.author client_id = some p) :
    ∃ proc, procs[p]? = some proc ∧ proc.command.subscriber = client_id := by
  cases sent with
  | ack | disconnect =>
    obtain ⟨proc, hproc, rfl⟩ := hfrom
    simp only [Sent.author, Option.ite_none_right_eq_some, Option.some.injEq] at hauthor
    obtain ⟨hname, rfl⟩ := hauthor
    exact ⟨proc, hproc, hname⟩
  | _ => cases hauthor

/-- How a process ends by itself. -/
theorem Acted.done {old proc : Process} {p : Nat} {frames : List Sent} (hacted : Acted old p proc frames)
    (hdone : proc.phase = .done) :
    (old.phase = .waiting ∧ ∃ left, handshake old.pipe = some (false, left)) ∨
      old.phase = .listening ∧ ∃ left, read_delivery old.pipe = some (none, left) := by
  cases hacted with
  | refused hphase hread => exact .inl ⟨hphase, _, hread⟩
  | stop hphase hread => exact .inr ⟨hphase, _, hread⟩
  | _ => cases hdone

namespace Broker

variable {H : StdHash}

/-- What flows to a process does not end it. -/
theorem Flows.never_done {self : Broker H} {q : Nat} {old proc : Process} {frames : List Sent} {start_offset : UInt32}
    {stop : Nat} {unread : List Message} (hflows : self.Flows q old start_offset stop unread)
    (hhealthy : ∀ topic_name topic, self.server.topics.find topic_name = some topic → topic.Healthy)
    (hlog : (self.server.log old.command.topic).length < 2 ^ 32 - 1) (hacted : Acted old q proc frames) :
    proc.phase ≠ .done := by
  intro hdone
  have hpipe := hflows.pipe
  rcases hacted.done hdone with ⟨hphase, left, hread⟩ | ⟨hphase, left, hread⟩
  · rw [Process.answer, if_pos hphase] at hpipe
    rw [hpipe, handshake_serialize_response] at hread
    simp at hread
  · rw [Process.answer, if_neg (by simp [hphase]), List.nil_append] at hpipe
    rw [hpipe] at hread
    obtain ⟨_, _, _, hmsg, _⟩ := read_delivery_frames (hflows.readable hhealthy hlog) hread
    cases hmsg

/-- No other process than `q` ever subscribed under the name. -/
def Alone (self : Broker H) (client_id : Bytes) (q : Nat) : Prop :=
  ∀ (p : Nat) (proc : Process), self.procs[p]? = some proc → proc.command.subscriber = client_id → p = q

/-- Pids are fresh when they are given out, and no write for the name fails in the topic
while its process lives. -/
def smooth (self : Broker H) (topic_name client_id : Bytes) (event : Event) : Bool :=
  self.fresh event && event != .deliver topic_name client_id false

theorem Moves.alone_before {self next : Broker H} {event : Event} (hmoves : self.Moves event next) {client_id : Bytes}
    {q : Nat} (halone : next.Alone client_id q) : self.Alone client_id q := by
  intro p old hold hname
  obtain ⟨proc, hproc, _, hcommand, _⟩ := hmoves.process_after hold
  exact halone p proc hproc (by rw [hcommand, hname])

/-- With one process of the name every ACK and DISCONNECT of the name is its own. -/
theorem Sessions.orderly_of_alone {self : Broker H} (hsessions : self.Sessions) {client_id : Bytes} {q : Nat}
    (halone : self.Alone client_id q) (event : Event) : self.orderly client_id event = true := by
  cases event with
  | handle =>
    rw [orderly]
    cases hpending : self.pending with
    | some _ => rfl
    | none =>
      cases hqueue : self.queue with
      | nil => rfl
      | cons sent rest =>
        cases sent with
        | subscribe p request hrequest =>
          dsimp only
          by_cases hname : request.client_id = client_id
          · have howner : p = q := by
              obtain ⟨proc, hproc, rfl⟩ := hsessions.genuine _ (hqueue ▸ List.mem_cons_self)
              exact halone p proc hproc hname
            refine Bool.or_eq_true_iff.mpr (.inr (List.all_eq_true.mpr fun sent hsent => ?_))
            have hfrom := hsessions.genuine sent (hqueue ▸ List.mem_cons_of_mem _ hsent)
            refine (Option.all_eq_true _ _).mpr fun p' hauthor => ?_
            obtain ⟨proc, hproc, hmine⟩ := hfrom.author hauthor
            rw [halone p' proc hproc hmine, howner, beq_self_eq_true]
          · simp [hname]
        | _ => rfl
  | _ => rfl

/-- The descriptor of the process is in the table of its topic, if only as soon as
`add_subscriber` is done. -/
def Serves (self : Broker H) (q : Nat) (topic_name client_id : Bytes) : Prop :=
  (∃ sub, self.pending = some (q, sub)) ∨
    ∃ entry, self.server.entry topic_name client_id = some entry ∧ entry.fifo_fd = some q

/-- The worker keeps the descriptor of a live process as long as no write to it fails. -/
theorem Serves.delivered {self : Broker H} {q : Nat} {proc : Process} (hproc : self.procs[q]? = some proc)
    (halive : proc.alive = true) {topic_name client_id : Bytes} {entry : ActiveSubscriber}
    (hentry : self.server.entry topic_name client_id = some entry) (hfd : entry.fifo_fd = some q)
    {other other_id : Bytes} {taken : Bool} {topic next : Topic H} {calls : List Syscall} (hsynced : topic.Synced)
    (hsmooth : (other, other_id, taken) ≠ (topic_name, client_id, false))
    (hfound : self.server.topics.find other = some topic)
    (hdeliver : topic.deliver_next other_id
      (taken && ((topic.subscribers.find other_id).bind ActiveSubscriber.fifo_fd).any self.alive) = some (next, calls)) :
    ∃ later, (self.server.set_topic other next).entry topic_name client_id = some later ∧ later.fifo_fd = some q := by
  obtain ⟨sub, msg, hfind, _, _, rfl⟩ := hsynced.deliver_next_cases hdeliver
  rw [Server.set_topic_entry hfound]
  split
  · rename_i htopic
    subst htopic
    rw [Server.entry_of_find hfound] at hentry
    dsimp only
    rw [HashMap.find_replace_of_find hfind]
    split
    · rename_i hclient
      subst hclient
      obtain rfl := Option.some.inj (hfind.symm.trans hentry)
      have htaken : taken = true := by
        cases taken with
        | true => rfl
        | false => exact absurd rfl hsmooth
      have hreads : ((topic.subscribers.find client_id).bind ActiveSubscriber.fifo_fd).any self.alive = true := by
        simp [hfind, hfd, alive, hproc, halive]
      rw [hreads, htaken]
      exact ⟨_, rfl, (sub.served_keeps_fd msg).trans hfd⟩
    · exact ⟨entry, hentry, hfd⟩
  · exact ⟨entry, hentry, hfd⟩

/-- The registration of another process does not touch the entries of the name. -/
theorem Sessions.register_spares {self : Broker H} (hsessions : self.Sessions) {client_id : Bytes} {q : Nat}
    (halone : self.Alone client_id q) {p : Nat} {sub : Server.Subscription} (hpending : self.pending = some (p, sub))
    (hp : p ≠ q) (opened : Option Fd) (topic_name : Bytes) :
    (self.server.register_subscriber sub opened).1.entry topic_name client_id =
      self.server.entry topic_name client_id := by
  obtain ⟨_, proc, hproc, hmade⟩ := hsessions.pending p sub hpending
  have hother : sub.client_id ≠ client_id := fun hsame => hp (halone p proc hproc (hmade.client_id.trans hsame))
  cases hserved : self.server.topics.find sub.topic with
  | none => rw [Server.register_subscriber, hserved]
  | some topic => rw [Server.register_subscriber_entry hserved, if_neg fun h => hother h.2.symm]

/-- A live process that is served stays served, unless its registration is replaced or
removed. -/
theorem Serves.step {self next : Broker H} {event : Event} {topic_name client_id : Bytes} {q : Nat} {old : Process}
    (hserves : self.Serves q topic_name client_id) (hsessions : self.Sessions) (hstreams : self.Streams)
    (howned : self.Owned client_id) (halone : self.Alone client_id q) (hmoves : self.Moves event next)
    (hsmooth : event ≠ .deliver topic_name client_id false) (hold : self.procs[q]? = some old)
    (halive : old.alive = true) (htopic : old.command.topic = topic_name) (hname : old.command.subscriber = client_id)
    (hentries : ∀ entry, self.server.entry topic_name client_id = some entry → event = .handle →
      next.server.entry topic_name client_id = some entry) : next.Serves q topic_name client_id := by
  have hhandled : self.pending = none → event = .handle → next.Serves q topic_name client_id := by
    intro hpending hevent
    rcases hserves with ⟨_, hsome⟩ | ⟨entry, hentry, hfd⟩
    · rw [hpending] at hsome
      cases hsome
    · exact .inr ⟨entry, hentries entry hentry hevent, hfd⟩
  cases hmoves with
  | rejected _ hpending => exact hhandled hpending rfl
  | accepted _ hpending => exact hhandled hpending rfl
  | committed _ hpending => exact hhandled hpending rfl
  | disconnected _ hpending => exact hhandled hpending rfl
  | quiet hpending => exact hhandled hpending rfl
  | register hpending =>
    rename_i p sub
    obtain ⟨hown, proc, hproc, hmade⟩ := hsessions.pending p sub hpending
    refine .inr ?_
    dsimp only
    by_cases hp : p = q
    · subst hp
      obtain rfl := Option.some.inj (hold.symm.trans hproc)
      obtain ⟨topic, hfound⟩ := (howned.pending p sub hpending).2
      obtain ⟨fd, hfd⟩ := Option.isSome_iff_exists.mp (holder_isSome hold halive)
      rw [hmade.consumer_ipc] at hfd
      obtain rfl := hown fd (holder_some hfd)
      rw [Server.register_subscriber_entry hfound, if_pos ⟨htopic ▸ hmade.topic, hname ▸ hmade.client_id⟩, hfd]
      exact ⟨_, rfl, rfl⟩
    · rw [hsessions.register_spares halone hpending hp]
      rcases hserves with ⟨_, hsome⟩ | hentry
      · rw [hpending] at hsome
        exact absurd (Prod.mk.inj (Option.some.inj hsome)).1 hp
      · exact hentry
  | deliver hserved hreads hdeliver =>
    subst hreads
    apply hserves.imp id
    rintro ⟨entry, hentry, hfd⟩
    refine Serves.delivered hold halive hentry hfd (hstreams.healthy _ _ hserved).synced ?_ hserved hdeliver
    rintro heq
    cases heq
    exact hsmooth rfl
  | _ => exact hserves

/-- The name is its process's own; and once its SUBSCRIBE is accepted the process is
served, and does not end while the offsets are not those of shutdowns. -/
structure Serving (broker : Broker H) (topic_name client_id : Bytes) (q : Nat) : Prop where
  owned : broker.Owned client_id
  serves : ∀ (proc : Process) start_offset, broker.procs[q]? = some proc → proc.alive = true →
    proc.status = .accepted start_offset → proc.command.topic = topic_name → proc.command.subscriber = client_id →
    proc.phase ≠ .disconnected → broker.Serves q topic_name client_id
  lasts : ∀ (proc : Process) start_offset, broker.procs[q]? = some proc → proc.alive = true →
    proc.status = .accepted start_offset → (broker.server.log proc.command.topic).length < 2 ^ 32 - 1 →
    proc.phase ≠ .done

theorem Serving.serves_step {self next : Broker H} {event : Event} {topic_name client_id : Bytes} {q : Nat}
    (hserving : self.Serving topic_name client_id q) (hsessions : self.Sessions) (hstreams : self.Streams)
    (halone : self.Alone client_id q) (hmoves : self.Moves event next)
    (hsmooth : event ≠ .deliver topic_name client_id false) (howned : next.Owned client_id) :
    ∀ (proc : Process) start_offset, next.procs[q]? = some proc → proc.alive = true →
      proc.status = .accepted start_offset → proc.command.topic = topic_name → proc.command.subscriber = client_id →
      proc.phase ≠ .disconnected → next.Serves q topic_name client_id := by
  intro proc start_offset hproc halive hstatus htopic hname hphase
  rcases hmoves.process_before hproc with ⟨old, hold, _, hcommand, hbefore, _⟩ | ⟨_, _, _, _, _, rfl⟩
  · obtain ⟨found, hfound, hfollows⟩ := hsessions.process_after hmoves hold
    obtain rfl := Option.some.inj (hproc.symm.trans hfound)
    have hconnected : old.phase ≠ .disconnected := fun h => hphase (hfollows.disconnected h)
    rcases hfollows.status with hsame | ⟨_, hqueued⟩ | ⟨-, -, hrejected | ⟨sub, -, hpending, -⟩⟩
    · have haccepted : old.status = .accepted start_offset := hsame ▸ hstatus
      have hserves := hserving.serves old start_offset hold (hbefore halive) haccepted (hcommand ▸ htopic)
        (hcommand ▸ hname) hconnected
      refine hserves.step hsessions hstreams hserving.owned halone hmoves hsmooth hold (hbefore halive)
        (hcommand ▸ htopic) (hcommand ▸ hname) ?_
      rintro entry hentry rfl
      have hstays := howned.stays q proc start_offset hproc halive hstatus hname hphase
      rw [htopic] at hstays
      rcases hstays.entry with ⟨sub, hpending⟩ | ⟨later, hlater, _⟩
      · cases hmoves with
        | accepted _ _ hqueue =>
          exact absurd (Prod.mk.inj (Option.some.inj hpending)).1 (hsessions.not_first hqueue hold haccepted)
        | _ => cases hpending
      · rw [hlater, ← hmoves.entry_old (by simp) (by simp) hlater, hentry]
    · rw [hqueued] at hstatus
      cases hstatus
    · rw [hrejected] at hstatus
      cases hstatus
    · exact .inl ⟨sub, hpending⟩
  · cases hstatus

theorem Serving.lasts_step {self next : Broker H} {event : Event} {topic_name client_id : Bytes} {q : Nat}
    (hserving : self.Serving topic_name client_id q) (hsessions : self.Sessions) (hstreams : self.Streams)
    (hmoves : self.Moves event next) :
    ∀ (proc : Process) start_offset, next.procs[q]? = some proc → proc.alive = true →
      proc.status = .accepted start_offset → (next.server.log proc.command.topic).length < 2 ^ 32 - 1 →
      proc.phase ≠ .done := by
  intro proc start_offset hproc halive hstatus hlog hdone
  rcases hmoves.process_before hproc with ⟨old, hold, _, hcommand, hbefore, _⟩ | ⟨_, _, _, _, _, rfl⟩
  · obtain ⟨found, hfound, hfollows⟩ := hsessions.process_after hmoves hold
    obtain rfl := Option.some.inj (hproc.symm.trans hfound)
    rw [hcommand] at hlog
    have hroom := Nat.lt_of_le_of_lt (hmoves.keeps.log old.command.topic).length_le hlog
    have hconsistent := hsessions.consistent q old hold
    rcases hfollows.status with hsame | ⟨_, hqueued⟩ | ⟨hqueued, -, -⟩
    · have haccepted : old.status = .accepted start_offset := hsame ▸ hstatus
      rcases hmoves.phase_after hold hproc with ⟨hphase, _⟩ | ⟨_, _, frames, hacted⟩
      · exact hserving.lasts old start_offset hold (hbefore halive) haccepted hroom (hphase ▸ hdone)
      · -- It would have read something else than what flows to it.
        have hcreated : old.phase ≠ .created := by
          rw [Process.Consistent, haccepted] at hconsistent
          exact hconsistent
        obtain ⟨stop, unread, hflows⟩ := hstreams.flows q old start_offset hold (hbefore halive) haccepted
          (hacted.active hcreated) hroom
        exact hflows.never_done hstreams.healthy hroom hacted hdone
    · rw [hqueued] at hstatus
      cases hstatus
    · -- A process that waits has nothing to read yet.
      rcases hmoves.phase_after hold hproc with ⟨hphase, _⟩ | ⟨_, hliving, frames, hacted⟩
      · rw [Process.Consistent, hqueued] at hconsistent
        rw [hphase, hconsistent.1] at hdone
        cases hdone
      · rcases hacted.done hdone with ⟨hphase, left, hread⟩ | ⟨hphase, left, hread⟩
        · rcases hconsistent.handshake hliving hphase hread with ⟨_, haccepted⟩ | ⟨hrejected, _⟩
          · rw [hqueued] at haccepted
            cases haccepted
          · rw [hqueued] at hrejected
            cases hrejected
        · rw [Process.Consistent, hqueued, hphase] at hconsistent
          cases hconsistent.1
  · cases hdone

theorem Serving.step {self next : Broker H} {event : Event} {topic_name client_id : Bytes} {q : Nat}
    (hserving : self.Serving topic_name client_id q) (hsessions : self.Sessions) (hstreams : self.Streams)
    (halone : self.Alone client_id q) (hmoves : self.Moves event next)
    (hsmooth : event ≠ .deliver topic_name client_id false) : next.Serving topic_name client_id q := by
  have howned := hserving.owned.step hsessions hmoves (hsessions.orderly_of_alone halone event)
  exact ⟨howned, hserving.serves_step hsessions hstreams halone hmoves hsmooth howned,
    hserving.lasts_step hsessions hstreams hmoves⟩

end Broker

end treenity.broker

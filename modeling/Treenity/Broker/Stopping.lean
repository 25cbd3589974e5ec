import Treenity.Broker.Ownership
import Treenity.Broker.Transcript

open treenity.protocol treenity.data_structures treenity.ipc treenity.client treenity.server treenity.foundation

namespace treenity.broker

/-- Who wrote a DISCONNECT of the name. -/
def Sent.quitter (client_id : Bytes) : Sent → Option Nat
  | .disconnect p name _ => if name = client_id then some p else none
  | _ => none

namespace Broker

variable {H : StdHash}

/-- Only a shutdown sets the flag of a topic. -/
theorem Moves.stopped {self next : Broker H} {event : Event} (hmoves : self.Moves event next) (topic_name : Bytes) :
    next.server.stopped topic_name = self.server.stopped topic_name := by
  cases hmoves with
  | accepted hrequest hpending hqueue haccept haccepted =>
    refine Server.stopped_of_topics ?_ topic_name
    dsimp only
    rw [haccepted.next_eq]
  | committed => exact (self.server.handle_request_touched _ _ _).stopped topic_name
  | disconnected => exact (self.server.handle_request_touched _ _ _).stopped topic_name
  | quiet => exact (self.server.handle_request_touched _ _ _).stopped topic_name
  | register => exact (self.server.register_subscriber_touched _ _ 0 []).stopped topic_name
  | deliver hfound hreads hdeliver =>
    exact Server.set_topic_stopped hfound (Topic.deliver_next_stop_flag hdeliver) topic_name
  | _ => rfl

/-- A descriptor stays in the table of its topic until a DISCONNECT or another SUBSCRIBE
of its name is handled, or a write to it fails. -/
theorem Regular.keeps_wire {self next : Broker H} {event : Event} {effects : List Effect} (hregular : self.Regular)
    (hstep : self.step event = some (next, effects)) {q : Nat} {topic_name client_id : Bytes}
    (hquit : ∀ p hname rest, self.queue ≠ .disconnect p client_id hname :: rest)
    (hfree : ∀ p pending, self.pending = some (p, pending) → pending.client_id ≠ client_id) {sub : ActiveSubscriber}
    (hentry : self.server.entry topic_name client_id = some sub) (hfd : sub.fifo_fd = some q) :
    (∃ later, next.server.entry topic_name client_id = some later ∧ later.fifo_fd = some q) ∨
      effects.any (fails q) = true := by
  have hmoves := step_moves hstep
  cases event with
  | deliver other other_id taken =>
    obtain ⟨topic, served, calls, hfound, hdeliver, rfl, rfl⟩ := deliver_cases hstep
    obtain ⟨entry, msg, hfind, _, rfl, rfl⟩ := (hregular.healthy _ _ hfound).synced.deliver_next_cases hdeliver
    have hset := fun later => Server.set_topic_entry hfound
      { topic with subscribers := topic.subscribers.replace other_id later } topic_name client_id
    by_cases hsame : topic_name = other ∧ client_id = other_id
    · obtain ⟨rfl, rfl⟩ := hsame
      rw [Server.entry_of_find hfound, hfind] at hentry
      obtain rfl := Option.some.inj hentry
      rcases entry.served_loses msg _ with hkept | ⟨fd, hopen, hlost⟩
      · refine .inl ⟨_, (hset _).trans ?_, hkept.trans hfd⟩
        rw [if_pos rfl, HashMap.find_replace_of_find hfind, if_pos rfl]
      · obtain rfl := Option.some.inj (hopen.symm.trans hfd)
        exact .inr (List.any_eq_true.mpr ⟨_, List.mem_map_of_mem hlost, by simp [fails]⟩)
    · refine .inl ⟨sub, (hset _).trans ?_, hfd⟩
      split
      · rename_i htopic
        have hother : client_id ≠ other_id := fun h => hsame ⟨htopic, h⟩
        rw [HashMap.find_replace_of_find hfind, if_neg hother, ← Server.entry_of_find hfound, ← htopic]
        exact hentry
      · exact hentry
  | handle =>
    refine .inl ⟨sub, ?_, hfd⟩
    cases hmoves with
    | rejected => exact hentry
    | accepted hrequest hpending hqueue haccept haccepted =>
      dsimp only
      rw [haccepted.next_eq]
      exact hentry
    | committed hname hpending hqueue hcommitted => exact (hcommitted.entry _ _).trans hentry
    | disconnected hname hpending hqueue hdisconnected =>
      refine (hdisconnected.entry _ _).trans ((if_neg ?_).trans hentry)
      rintro ⟨_, rfl⟩
      exact hquit _ hname _ hqueue
    | quiet hpending hqueue hother hquiet => exact (hquiet.entry _ _).trans hentry
  | register =>
    refine .inl ⟨sub, ?_, hfd⟩
    cases hmoves with
    | register hpending =>
      rename_i p pending
      cases hfound : self.server.topics.find pending.topic with
      | none =>
        rw [Server.register_subscriber, hfound]
        exact hentry
      | some topic =>
        rw [Server.register_subscriber_entry hfound, if_neg fun h => hfree p pending hpending h.2.symm]
        exact hentry
  | _ =>
    cases hmoves
    exact .inl ⟨sub, hentry, hfd⟩

/-- A registration that is completed opens the FIFO of its process, if that lives. -/
theorem Regular.registers {self next : Broker H} (hregular : self.Regular) (hmoves : self.Moves .register next) {q : Nat}
    {old : Process} (hold : self.procs[q]? = some old) (halive : old.alive = true) {sub : Server.Subscription}
    (hpending : self.pending = some (q, sub)) {topic : Topic H} (hfound : self.server.topics.find sub.topic = some topic) :
    ∃ later, next.server.entry old.command.topic old.command.subscriber = some later ∧ later.fifo_fd = some q := by
  obtain ⟨hown, proc, hproc, hmade⟩ := hregular.sessions.pending q sub hpending
  obtain rfl := Option.some.inj (hold.symm.trans hproc)
  cases hmoves with
  | register hpending' =>
    obtain ⟨rfl, rfl⟩ := Prod.mk.inj (Option.some.inj (hpending.symm.trans hpending'))
    obtain ⟨fd, hfd⟩ := Option.isSome_iff_exists.mp (holder_isSome hold halive)
    rw [hmade.consumer_ipc] at hfd
    obtain rfl := hown fd (holder_some hfd)
    rw [Server.register_subscriber_entry hfound, if_pos ⟨hmade.topic, hmade.client_id⟩, hfd]
    exact ⟨_, rfl, rfl⟩

/-- A topic that shuts down writes to every descriptor it has. -/
theorem shutdown_topic_writes {self : Broker H} (hregular : self.Regular) {topic_name client_id : Bytes} {topic : Topic H}
    (hfound : self.server.topics.find topic_name = some topic) (hrunning : topic.stop_flag = false) (taken : Fd → Bool)
    {q : Nat} {sub : ActiveSubscriber} (hfind : topic.subscribers.find client_id = some sub) (hfd : sub.fifo_fd = some q) :
    (self.shutdown_topic topic_name topic taken).2.filterMap (self.reaching q) ≠ [] ∨
      (self.shutdown_topic topic_name topic taken).2.any (fails q) = true := by
  have hwrites : (self.shutdown_topic topic_name topic taken).2.filterMap (self.reaching q) =
      (topic.shutdown (fun fd => taken fd && self.alive fd)).2.filterMap (Syscall.delivered q) :=
    List.filterMap_map
  cases htaken : taken q && self.alive q with
  | true =>
    refine .inl ?_
    rw [hwrites, Topic.shutdown_delivered hrunning _ client_id]
    · simp [hfind, hfd, htaken]
    · intro id other hother hopen
      obtain ⟨proc, hproc, hhas⟩ := hregular.sessions.opened topic_name id other q
        (by rw [Server.entry_of_find hfound, hother]) hopen
      obtain ⟨found, hfound', hhas'⟩ := hregular.sessions.opened topic_name client_id sub q
        (by rw [Server.entry_of_find hfound, hfind]) hfd
      obtain rfl := Option.some.inj (hproc.symm.trans hfound')
      exact hhas.client_id.symm.trans hhas'.client_id
  | false =>
    have hlost := Topic.shutdown_failed hrunning (fun fd => taken fd && self.alive fd) hfind hfd htaken
    exact .inr (List.any_eq_true.mpr ⟨_, List.mem_map_of_mem hlost, by simp [fails]⟩)

/-- A step that gives a name to a process accepts its SUBSCRIBE, so it gives none to a
process that was accepted before. -/
theorem Sessions.owner_before {self next : Broker H} {event : Event} (hsessions : self.Sessions)
    (hmoves : self.Moves event next) {q : Nat} {old : Process} (hold : self.procs[q]? = some old)
    {start_offset : UInt32} (hstatus : old.status = .accepted start_offset) {client_id : Bytes}
    (howner : next.owner client_id = some q) : self.owner client_id = some q := by
  cases hmoves with
  | accepted hrequest hpending hqueue haccept haccepted =>
    rename_i p request rest sub server effects
    have hother := hsessions.not_first hqueue hold hstatus
    dsimp only at howner
    by_cases hname : sub.client_id = client_id
    · rw [hname, Function.update_self] at howner
      exact absurd (Option.some.inj howner) hother
    · rwa [Function.update_of_ne (Ne.symm hname)] at howner
  | _ => exact howner

/-- A shutdown takes nobody's name. -/
theorem Held.shutdown_topic {self : Broker H} {author : Sent → Option Nat} {client_id : Bytes}
    (hheld : self.Held author client_id) {topic_name : Bytes} {topic : Topic H}
    (hfound : self.server.topics.find topic_name = some topic) (taken : Fd → Bool) :
    (self.shutdown_topic topic_name topic taken).1.Held author client_id := by
  have hthins := shutdown_topic_thins hfound taken
  refine ⟨?_, ?_, ?_, ?_⟩
  · rw [hthins.queue, hthins.owner]
    exact hheld.authors
  · rw [hthins.queue]
    intro p hname hsent
    obtain ⟨old, hold, hphase⟩ := hheld.disconnects p hname hsent
    obtain ⟨more, hmore⟩ := hthins.process_after hold
    exact ⟨_, hmore, hphase⟩
  · rw [hthins.pending, hthins.owner]
    intro p sub hsub
    obtain ⟨howner, before, hbefore⟩ := hheld.pending p sub hsub
    refine ⟨howner, ?_⟩
    have hfind := Server.set_topic_find hfound (topic.shutdown (fun fd => taken fd && self.alive fd)).1 sub.topic
    by_cases hsame : sub.topic = topic_name
    · exact ⟨_, hfind.trans (if_pos hsame)⟩
    · exact ⟨before, hfind.trans ((if_neg hsame).trans hbefore)⟩
  · intro q proc start_offset hproc halive hstatus hname hphase
    obtain ⟨old, more, hold, rfl, _⟩ := hthins.process_before hproc
    obtain ⟨howner, hcurrent⟩ := hheld.holds q old start_offset hold halive hstatus hname hphase
    refine ⟨hthins.owner ▸ howner, ?_⟩
    rw [Current, hthins.client_index]
    exact hcurrent

end Broker

namespace Service

variable {H : StdHash}

/-- The process is not registered with a topic that has been shut down. -/
def in_time (self : Service H) (q : Nat) : Event → Bool
  | .turn .register => self.system.pending.all fun (p, sub) => p != q || !self.system.server.stopped sub.topic
  | _ => true

/-- When a SUBSCRIBE of the name is accepted, no DISCONNECT of the name by another
process is still on its way. -/
def unopposed (self : Service H) (client_id : Bytes) : Event → Bool
  | .turn event => self.system.unopposed (Sent.quitter client_id) client_id event
  | _ => true

theorem quitter_authorship (client_id : Bytes) : Broker.Authorship (Sent.quitter client_id) client_id := by
  refine ⟨?_, fun _ _ => if_pos rfl⟩
  intro sent p hquitter
  cases sent with
  | disconnect => exact hquitter
  | _ => cases hquitter

/-- The topics with a descriptor for the process run. -/
def Open (service : Service H) (q : Nat) : Prop :=
  ∀ topic_name client_id sub, service.system.server.entry topic_name client_id = some sub → sub.fifo_fd = some q →
    service.system.server.stopped topic_name = false

theorem new_open (q : Nat) : (new : Service H).Open q := by
  intro topic_name client_id sub hentry
  simp [new, Broker.new] at hentry

theorem Open.step {self next : Service H} {event : Event} {q : Nat} (hopen : self.Open q)
    (hsessions : self.system.Sessions) (hmoves : self.Moves event next) (htime : self.in_time q event = true) :
    next.Open q := by
  cases hmoves with
  | turn hallows hstep =>
    intro topic_name client_id sub hentry hfd
    have hmoves := Broker.step_moves hstep
    apply (hmoves.stopped topic_name).trans
    rcases hmoves.entry_before hentry hfd with ⟨old, hold, hfd', _⟩ | ⟨p, pending, rfl, hpending, rfl, _, hholder, _⟩
    · exact hopen _ _ old hold hfd'
    · obtain ⟨hown, _⟩ := hsessions.pending p pending hpending
      obtain rfl := hown q (holder_some hholder)
      simpa [in_time, hpending] using htime
  | shutdown taken hstopping hfound =>
    rename_i topic_name rest topic
    intro other client_id sub hentry hfd
    have hentry := (Broker.shutdown_topic_entry hfound taken other client_id).symm.trans hentry
    apply (Broker.shutdown_topic_stopped hfound taken other).trans
    split at hentry
    · cases hentry
    · rename_i hkept
      have hruns := hopen other client_id sub hentry hfd
      have hother : other ≠ topic_name := by
        rintro rfl
        refine hkept ⟨rfl, ?_⟩
        simpa [Server.stopped, hfound] using hruns
      simp [hother, hruns]
  | control hevent hsystem =>
    rw [Open, hsystem]
    exact hopen

/-- The process was accepted for its command, and until it disconnects, loses its name or a
write to it fails, it has got a shutdown frame or its topic has its descriptor. -/
def Attached (service : Service H) (q : Nat) (command : Command) : Prop :=
  ∃ proc start_offset, service.system.procs[q]? = some proc ∧ proc.command = command ∧
    proc.status = .accepted start_offset ∧
    (proc.phase ≠ .disconnected → service.system.owner command.subscriber = some q → service.failed q = false →
      service.shut q = true ∨
        ∃ sub, service.system.server.entry command.topic command.subscriber = some sub ∧ sub.fifo_fd = some q)

theorem Attached.turn {self : Service H} {q : Nat} {command : Command} (hattached : self.Attached q command)
    (htranscribed : self.Transcribed) (hheld : self.system.Held (Sent.quitter command.subscriber) command.subscriber)
    {event : broker.Event} {next : Broker H} {effects : List Effect}
    (hstep : self.system.step event = some (next, effects)) (buffered : Nat) :
    Attached { self.record next effects with buffered } q command := by
  have hregular := htranscribed.regular
  have hmoves := Broker.step_moves hstep
  obtain ⟨old, start_offset, hold, hcommand, hstatus, hkept⟩ := hattached
  obtain ⟨proc, hproc, hfollows⟩ := hregular.sessions.process_after hmoves hold
  refine ⟨proc, start_offset, hproc, hfollows.kept.2.1.trans hcommand, hfollows.accepted hstatus, ?_⟩
  intro hphase howner hfailed
  have hstill : old.phase ≠ .disconnected := fun h => hphase (hfollows.disconnected h)
  have hnot : self.failed q = false ∧ effects.any (fails q) = false := Bool.or_eq_false_iff.mp hfailed
  have howned := hregular.sessions.owner_before hmoves hold hstatus howner
  rcases hkept hstill howned hnot.1 with hshut | ⟨sub, hentry, hfd⟩
  · exact .inl hshut
  · refine .inr ?_
    have hquit := hheld.no_disconnect (quitter_authorship _) hold howned hstill
    have hfree : ∀ p pending, self.system.pending = some (p, pending) → pending.client_id ≠ command.subscriber := by
      intro p pending hpending hname
      have hsame := (hheld.pending p pending hpending).1 hname
      obtain rfl := Option.some.inj (howned.symm.trans hsame)
      exact (htranscribed.pending q pending hpending).1 ⟨_, _, sub, hentry, hfd⟩
    rcases hregular.keeps_wire hstep hquit hfree hentry hfd with hlater | hlost
    · exact hlater
    · rw [hnot.2] at hlost
      cases hlost

theorem Attached.shutdown {self : Service H} {q : Nat} {command : Command} (hattached : self.Attached q command)
    (htranscribed : self.Transcribed) (hopen : self.Open q) {topic_name : Bytes} {topic : Topic H}
    (hfound : self.system.server.topics.find topic_name = some topic) (taken : Fd → Bool) (rest : List Bytes) :
    Attached { self.record (self.system.shutdown_topic topic_name topic taken).1
        (self.system.shutdown_topic topic_name topic taken).2 with
      stopping := some rest
      shut := fun q => self.shut q ||
        !((self.system.shutdown_topic topic_name topic taken).2.filterMap (self.system.reaching q)).isEmpty } q
      command := by
  have hthins := Broker.shutdown_topic_thins hfound taken
  obtain ⟨old, start_offset, hold, hcommand, hstatus, hkept⟩ := hattached
  obtain ⟨more, hmore⟩ := hthins.process_after hold
  refine ⟨_, start_offset, hmore, hcommand, hstatus, ?_⟩
  intro hphase howner hfailed
  have hnot : self.failed q = false ∧
      (self.system.shutdown_topic topic_name topic taken).2.any (fails q) = false := Bool.or_eq_false_iff.mp hfailed
  rcases hkept hphase (hthins.owner ▸ howner) hnot.1 with hshut | ⟨sub, hentry, hfd⟩
  · exact .inl (Bool.or_eq_true_iff.mpr (.inl hshut))
  · have hruns := hopen _ _ sub hentry hfd
    by_cases hsame : command.topic = topic_name
    · rw [hsame] at hentry hruns
      have hflag : topic.stop_flag = false := by simpa [Server.stopped, hfound] using hruns
      have hfind : topic.subscribers.find command.subscriber = some sub := (Server.entry_of_find hfound _).symm.trans hentry
      rcases Broker.shutdown_topic_writes htranscribed.regular hfound hflag taken hfind hfd with hwrites | hlost
      · refine .inl (Bool.or_eq_true_iff.mpr (.inr ?_))
        simpa using hwrites
      · rw [hnot.2] at hlost
        cases hlost
    · refine .inr ⟨sub, (Broker.shutdown_topic_entry hfound taken _ _).trans ?_, hfd⟩
      rw [if_neg fun h => hsame h.1]
      exact hentry

/-- At the end the main thread is through, and every topic has been shut down or is about to be. -/
structure Ending (service : Service H) : Prop where
  running : service.running = false
  reading : service.reading = false
  buffered : service.buffered = 0
  pending : service.system.pending = none
  topics : ∃ rest, service.stopping = some rest ∧ ∀ topic_name topic,
    service.system.server.topics.find topic_name = some topic → topic.stop_flag = true ∨ topic_name ∈ rest

/-- Without the main thread no step makes a topic. -/
theorem Ending.find_before {self next : Broker H} {event : broker.Event} (hmoves : self.Moves event next)
    (hpending : self.pending = none) (hevent : event ≠ .handle) {topic_name : Bytes} {topic : Topic H}
    (hfound : next.server.topics.find topic_name = some topic) :
    ∃ before, self.server.topics.find topic_name = some before ∧ topic.stop_flag = before.stop_flag := by
  cases hmoves with
  | deliver hfind hreads hdeliver =>
    have hlater := (Server.set_topic_find hfind _ topic_name).symm.trans hfound
    split at hlater
    · rename_i hsame
      obtain rfl := Option.some.inj hlater
      exact ⟨_, hsame ▸ hfind, Topic.deliver_next_stop_flag hdeliver⟩
    · exact ⟨topic, hlater, rfl⟩
  | register hsome =>
    rw [hpending] at hsome
    cases hsome
  | rejected | accepted | committed | disconnected | quiet => exact absurd rfl hevent
  | _ => exact ⟨topic, hfound, rfl⟩

theorem Ending.step {self next : Service H} {event : Event} {effects : List Effect} (hending : self.Ending)
    (hdestroyed : self.destroyed = true) (hstep : self.step event = some (next, effects)) : next.Ending := by
  obtain ⟨hrunning, hreading, hbuffered, hpending, rest, hstopping, htopics⟩ := hending
  cases event with
  | turn event =>
    simp only [Service.step, Option.ite_none_right_eq_some] at hstep
    obtain ⟨hallows, hstep⟩ := hstep
    obtain ⟨⟨later, made⟩, hturn, heq⟩ := Option.map_eq_some_iff.mp hstep
    cases heq
    have hevent : event ≠ .handle := by
      rintro rfl
      simp [allows, hbuffered] at hallows
    have hmoves := Broker.step_moves hturn
    refine ⟨hrunning, hreading, by rw [if_neg hevent]; exact hbuffered, ?_, rest, hstopping, ?_⟩
    · cases hmoves with
      | register | rejected | committed | disconnected | quiet => rfl
      | accepted => exact absurd rfl hevent
      | _ => exact hpending
    · intro topic_name topic hfound
      obtain ⟨before, hbefore, hflag⟩ := find_before hmoves hpending hevent hfound
      rw [hflag]
      exact htopics topic_name before hbefore
  | loop => simp [Service.step, hrunning] at hstep
  | read frames => simp [Service.step, hreading] at hstep
  | stop => simp [Service.step, hrunning] at hstep
  | lock => simp [Service.step, hstopping] at hstep
  | destroy => simp [Service.step, hdestroyed] at hstep
  | shutdown taken =>
    simp only [Service.step, hstopping] at hstep
    split at hstep
    · rename_i topic_name left heq
      obtain rfl := Option.some.inj heq
      split at hstep
      · rename_i topic hfound
        cases hstep
        refine ⟨hrunning, hreading, hbuffered, hpending, left, rfl, ?_⟩
        intro other later hlater
        have hlater := (Server.set_topic_find hfound _ other).symm.trans hlater
        split at hlater
        · obtain rfl := Option.some.inj hlater
          exact .inl (topic.shutdown_stop_flag _)
        · rename_i hother
          refine (htopics other later hlater).imp id fun hmem => ?_
          exact (List.mem_cons.mp hmem).resolve_left hother
      · rename_i hnone
        cases hstep
        refine ⟨hrunning, hreading, hbuffered, hpending, left, rfl, ?_⟩
        intro other later hlater
        refine (htopics other later hlater).imp id fun hmem => (List.mem_cons.mp hmem).resolve_left ?_
        rintro rfl
        rw [hlater] at hnone
        cases hnone
    · cases hstep

theorem destroyed_before {self next : Service H} {event : Event} {effects : List Effect}
    (hstep : self.step event = some (next, effects)) (hdestroyed : next.destroyed = true) :
    self.destroyed = true ∨ event = .destroy := by
  cases event with
  | destroy => exact .inr rfl
  | turn event =>
    simp only [step, Option.ite_none_right_eq_some] at hstep
    obtain ⟨_, hstep⟩ := hstep
    obtain ⟨_, _, heq⟩ := Option.map_eq_some_iff.mp hstep
    cases heq
    exact .inl hdestroyed
  | shutdown taken =>
    simp only [step] at hstep
    split at hstep
    · split at hstep <;> cases hstep <;> exact .inl hdestroyed
    · cases hstep
  | loop | read | stop | lock =>
    simp only [step, Option.ite_none_right_eq_some] at hstep
    obtain ⟨_, heq⟩ := hstep
    cases heq
    exact .inl hdestroyed

/-- When the object is being destroyed no topic is left out. -/
theorem ending_of_run {labels : List (Event × List Effect)} {service : Service H}
    (hrun : Run (Fires step) new labels service) (hdestroyed : service.destroyed = true) : service.Ending := by
  refine hrun.invariant (P := fun service => service.destroyed = true → service.Ending) ?_ ?_ hdestroyed
  · intro hfalse
    cases hfalse
  · intro self label next hending hstep hdestroyed
    obtain ⟨event, effects⟩ := label
    by_cases hbefore : self.destroyed = true
    · exact (hending hbefore).step hbefore hstep
    · obtain rfl := (destroyed_before hstep hdestroyed).resolve_left hbefore
      simp only [Fires, step, Option.ite_none_right_eq_some] at hstep
      obtain ⟨hallowed, heq⟩ := hstep
      cases heq
      simp only [at_loop, Bool.and_eq_true, beq_iff_eq, Bool.not_eq_true', Option.isNone_iff_eq_none] at hallowed
      obtain ⟨⟨⟨⟨⟨hreading, hbuffered⟩, hpending⟩, hrunning⟩, _⟩, _⟩ := hallowed
      refine ⟨hrunning, hreading, hbuffered, hpending, _, rfl, fun topic_name topic hfound => .inr ?_⟩
      rw [HashMap.mem_keys_iff, hfound]
      rfl

/-- Pids are unique, the process is not registered with a topic that has been shut down,
and its name is not given away while somebody else's DISCONNECT of it is on its way. -/
def orderly (self : Service H) (q : Nat) (client_id : Bytes) (event : Event) : Bool :=
  self.distinct event && self.in_time q event && self.unopposed client_id event

/-- What an orderly run keeps. -/
structure Followed (service : Service H) (q : Nat) (client_id : Bytes) : Prop where
  transcribed : service.Transcribed
  held : service.system.Held (Sent.quitter client_id) client_id
  opened : service.Open q

theorem new_followed (q : Nat) (client_id : Bytes) : (new : Service H).Followed q client_id :=
  ⟨new_transcribed, Broker.new_held _ client_id, new_open q⟩

theorem Followed.step {self next : Service H} {event : Event} {q : Nat} {client_id : Bytes}
    (hfollowed : self.Followed q client_id) (hmoves : self.Moves event next)
    (horderly : self.orderly q client_id event = true) : next.Followed q client_id := by
  obtain ⟨htranscribed, hheld, hopen⟩ := hfollowed
  simp only [orderly, Bool.and_eq_true] at horderly
  obtain ⟨⟨hdistinct, htime⟩, hunopposed⟩ := horderly
  refine ⟨htranscribed.step hmoves hdistinct, ?_, hopen.step htranscribed.regular.sessions hmoves htime⟩
  cases hmoves with
  | turn hallows hstep =>
    exact hheld.step (quitter_authorship client_id) htranscribed.regular.sessions (Broker.step_moves hstep) hunopposed
  | shutdown taken hstopping hfound => exact hheld.shutdown_topic hfound taken
  | control hevent hsystem =>
    rw [hsystem]
    exact hheld

theorem Attached.step {self next : Service H} {event : Event} {q : Nat} {command : Command}
    (hattached : self.Attached q command) (hfollowed : self.Followed q command.subscriber)
    (hmoves : self.Moves event next) : next.Attached q command := by
  obtain ⟨htranscribed, hheld, hopen⟩ := hfollowed
  cases hmoves with
  | turn hallows hstep => exact hattached.turn htranscribed hheld hstep _
  | shutdown taken hstopping hfound => exact hattached.shutdown htranscribed hopen hfound taken _
  | control hevent hsystem hwritten hfailed hshut =>
    rw [Attached, hsystem, hfailed, hshut]
    exact hattached

/-- A process keeps its command, and what was written to it stays written. -/
theorem Moves.process_after {self next : Service H} {event : Event} (hmoves : self.Moves event next) {q : Nat}
    {old : Process} (hold : self.system.procs[q]? = some old) :
    (∃ proc, next.system.procs[q]? = some proc ∧ proc.command = old.command) ∧
      (self.written q ≠ [] → next.written q ≠ []) := by
  have hgrows : ∀ more : List Bytes, self.written q ≠ [] → self.written q ++ more ≠ [] := by
    intro more hsome hnil
    exact hsome (List.append_eq_nil_iff.mp hnil).1
  cases hmoves with
  | turn hallows hstep =>
    obtain ⟨proc, hproc, _, hkept, _⟩ := (Broker.step_moves hstep).process_after hold
    exact ⟨⟨proc, hproc, hkept⟩, hgrows _⟩
  | shutdown taken hstopping hfound =>
    obtain ⟨more, hmore⟩ := (Broker.shutdown_topic_thins hfound taken).process_after hold
    exact ⟨⟨_, hmore, rfl⟩, hgrows _⟩
  | control hevent hsystem hwritten =>
    rw [hsystem, hwritten]
    exact ⟨⟨old, hold, rfl⟩, id⟩

theorem process_after_run {step : Service H → Event → Option (Service H × List Effect)} {q : Nat} {old : Process}
    {labels : List (Event × List Effect)} {self service : Service H}
    (hstep : ∀ self label next, Fires step self label next → self.Moves label.1 next)
    (hrun : Run (Fires step) self labels service) (hold : self.system.procs[q]? = some old) (hsome : self.written q ≠ []) :
    ∃ proc, service.system.procs[q]? = some proc ∧ proc.command = old.command ∧ service.written q ≠ [] := by
  refine hrun.invariant (P := fun service => ∃ proc, service.system.procs[q]? = some proc ∧
    proc.command = old.command ∧ service.written q ≠ []) ⟨old, hold, rfl, hsome⟩ ?_
  rintro self label next ⟨before, hbefore, hcommand, hsome⟩ hfires
  obtain ⟨⟨proc, hproc, hkept⟩, hwritten⟩ := (hstep self label next hfires).process_after hbefore
  exact ⟨proc, hproc, hkept.trans hcommand, hwritten hsome⟩

theorem orderly_moves {q : Nat} {client_id : Bytes} {self next : Service H} {label : Event × List Effect}
    (hfires : Fires (guarded (fun s e => s.orderly q client_id e = true) step) self label next) :
    self.Moves label.1 next ∧ self.orderly q client_id label.1 = true := by
  obtain ⟨hstep, horderly⟩ := fires_guarded_iff.mp hfires
  exact ⟨step_moves hstep, horderly⟩

/-- In every orderly run: a subscriber whose FIFO was opened and that has not disconnected has
got, when the object is destroyed and no write to it failed, its answer, messages of
its topic and one shutdown frame, which is the last. -/
theorem shutdown_reaches_subscriber {q : Nat} {client_id : Bytes} {proc : Process}
    {before after : List (Event × List Effect)} {middle service : Service H}
    (hbefore : Run (Fires (guarded (fun s e => s.orderly q client_id e = true) step)) new before middle)
    (hopened : middle.system.Wired q)
    (hafter : Run (Fires (guarded (fun s e => s.orderly q client_id e = true) step)) middle after service)
    (hproc : service.system.procs[q]? = some proc) (hname : proc.command.subscriber = client_id)
    (hphase : proc.phase ≠ .disconnected)
    (hpresent : proc.alive = true ∨ service.system.owner client_id = some q)
    (hfailed : service.failed q = false) (hdestroyed : service.destroyed = true)
    (hstopping : service.stopping = some []) :
    service.shut q = true ∧ ∃ msgs : List Message,
      (∀ msg ∈ msgs, msg ∈ service.system.server.log proc.command.topic) ∧
      ((service.system.server.log proc.command.topic).length < 2 ^ 32 - 1 → ∀ msg ∈ msgs, msg.offset ≠ SHUTDOWN_OFFSET) ∧
      service.written q = Response.serialize_response .SUCCESS [] :: msgs.map Message.frame ++
        [Response.serialize_shutdown] := by
  subst hname
  have hfollows : middle.Followed q proc.command.subscriber := by
    refine hbefore.invariant (P := fun service => service.Followed q proc.command.subscriber)
      (new_followed q proc.command.subscriber) ?_
    intro self label next hfollowed hlast
    exact hfollowed.step (orderly_moves hlast).1 (orderly_moves hlast).2
  obtain ⟨opener, start_offset, sub, hopener, haccepted, hentry, hfd⟩ :=
    hfollows.transcribed.regular.sessions.wired hopened
  obtain ⟨found, hfound, hcommand, hsome⟩ := process_after_run (fun _ _ _ hlast => (orderly_moves hlast).1) hafter hopener
    (hfollows.transcribed.answered q hopened)
  obtain rfl := Option.some.inj (hproc.symm.trans hfound)
  have hlast : service.Followed q proc.command.subscriber ∧ service.Attached q proc.command := by
    refine hafter.invariant (P := fun service => service.Followed q proc.command.subscriber ∧
      service.Attached q proc.command) ⟨hfollows, ?_⟩ ?_
    · refine ⟨opener, start_offset, hopener, hcommand.symm, haccepted, fun _ _ _ => .inr ⟨sub, ?_, hfd⟩⟩
      rw [hcommand]
      exact hentry
    · rintro self label next ⟨hfollowed, hattached⟩ hlast
      obtain ⟨hmoves, horderly⟩ := orderly_moves hlast
      exact ⟨hfollowed.step hmoves horderly, hattached.step hfollowed hmoves⟩
  obtain ⟨⟨htranscribed, hheld, hopen⟩, found, start_offset, hfound, _, hstatus, hkept⟩ := hlast
  obtain rfl := Option.some.inj (hproc.symm.trans hfound)
  have howner : service.system.owner proc.command.subscriber = some q := by
    refine hpresent.elim (fun halive => ?_) id
    exact (hheld.holds q proc start_offset hproc halive hstatus rfl hphase).1
  have hrun : Run (Fires step) new (before ++ after) service :=
    (hbefore.append hafter).mono fun _ _ _ hlast => (fires_guarded_iff.mp hlast).1
  have hshut : service.shut q = true := by
    apply (hkept hphase howner hfailed).resolve_right
    rintro ⟨sub, hentry, hfd⟩
    have hruns := hopen _ _ sub hentry hfd
    obtain ⟨topic, htopic, _⟩ := Option.bind_eq_some_iff.mp hentry
    obtain ⟨rest, hrest, hall⟩ := (ending_of_run hrun hdestroyed).topics
    rw [hstopping] at hrest
    obtain rfl := Option.some.inj hrest
    have hflag := (hall _ topic htopic).resolve_right List.not_mem_nil
    simp [Server.stopped, htopic, hflag] at hruns
  obtain ⟨msgs, hmsgs, hwritten⟩ := (htranscribed.heard q proc hproc).answered hstatus (.inr hsome)
  rw [hshut] at hwritten
  exact ⟨hshut, msgs, hmsgs,
    fun hlog msg hmsg => Server.log_offset htranscribed.regular.healthy hlog msg (hmsgs msg hmsg), hwritten⟩

/-- A subscriber that is registered before the server stops gets its answer and the shutdown frame. -/
theorem shutdown_reaches_subscriber_stop :
    ∃ (middle service : Service ⟨List.length, UInt8.toNat, UInt32.toNat⟩) (before after : List (Event × List Effect)),
      Run (Fires (guarded (fun s e => s.orderly 0 [99] e = true) step)) new before middle ∧ middle.system.Wired 0 ∧
      Run (Fires (guarded (fun s e => s.orderly 0 [99] e = true) step)) middle after service ∧
      service.destroyed = true ∧ service.shut 0 = true := by
  let orderly_step := guarded
    (fun (s : Service ⟨List.length, UInt8.toNat, UInt32.toNat⟩) e => s.orderly 0 [99] e = true) step
  let opening : List Event := [.turn (.request 1 (Request.named_payload 5 [97])),
    .turn (.start 7 Broker.subscribe_command), .turn (.act 0 .subscribe), .loop, .read 2, .turn .handle, .turn .handle,
    .turn .register]
  let closing : List Event := [.turn (.act 0 .handshake), .stop, .lock, .shutdown (fun _ => true), .destroy,
    .shutdown (fun _ => true)]
  let middle := (after orderly_step new opening).1
  let service := (after orderly_step middle closing).1
  have hbefore : Run (Fires orderly_step) new _ middle := .of_after (by decide +kernel)
  have hafter : Run (Fires orderly_step) middle _ service := .of_after (by decide +kernel)
  have hentry : (middle.system.server.entry [97] [99]).any (fun sub => sub.fifo_fd == some 0) = true := by
    decide +kernel
  obtain ⟨sub, hentry, hfd⟩ := (Option.any_eq_true _ _).mp hentry
  have hwired : middle.system.Wired 0 := ⟨[97], [99], sub, hentry, beq_iff_eq.mp hfd⟩
  have hproc : service.system.procs[0]?.any (fun proc => proc.command == Broker.subscribe_command &&
      proc.phase == .listening && proc.alive) = true := by decide +kernel
  obtain ⟨proc, hfound, hproc⟩ := (Option.any_eq_true _ _).mp hproc
  simp only [Bool.and_eq_true, beq_iff_eq] at hproc
  obtain ⟨⟨hcommand, hphase⟩, halive⟩ := hproc
  have hname : proc.command.subscriber = [99] := by
    rw [hcommand]
    rfl
  have hdestroyed : service.destroyed = true := by decide +kernel
  have hshut : service.shut 0 = true := (shutdown_reaches_subscriber hbefore hwired hafter hfound hname
    (by simp [hphase]) (.inl halive) (by decide +kernel) hdestroyed (by decide +kernel)).1
  exact ⟨middle, service, _, _, hbefore, hwired, hafter, hdestroyed, hshut⟩

/-- The server stops between two frames of `recv_buf`, of which the second is a SUBSCRIBE:
the process is answered SUCCESS and registered with a topic that has shut down, and gets
no shutdown frame. Nor does a process that a late DISCONNECT of its name by another
process has taken from its topic. -/
theorem late_subscriber_gets_no_shutdown :
    (∃ (service : Service ⟨List.length, UInt8.toNat, UInt32.toNat⟩) (labels : List (Event × List Effect)) (proc : Process),
      Run (Fires (guarded (fun s e => s.distinct e = true) step)) new labels service ∧
      service.system.procs[0]? = some proc ∧ proc.alive = true ∧ proc.phase = .listening ∧ service.system.Wired 0 ∧
      service.failed 0 = false ∧ service.destroyed = true ∧ service.stopping = some [] ∧
      service.written 0 = [Response.serialize_response .SUCCESS []]) ∧
    ∃ (middle service : Service ⟨List.length, UInt8.toNat, UInt32.toNat⟩) (before after : List (Event × List Effect))
      (proc : Process),
      Run (Fires (guarded (fun s e => s.distinct e = true) step)) new before middle ∧ middle.system.Wired 1 ∧
      Run (Fires (guarded (fun s e => s.distinct e = true) step)) middle after service ∧
      service.system.procs[1]? = some proc ∧ proc.alive = true ∧ proc.phase = .listening ∧
      service.failed 1 = false ∧ service.destroyed = true ∧ service.stopping = some [] ∧
      service.written 1 = [Response.serialize_response .SUCCESS []] := by
  let distinct_step := guarded
    (fun (s : Service ⟨List.length, UInt8.toNat, UInt32.toNat⟩) e => s.distinct e = true) step
  refine ⟨?_, ?_⟩
  · let events : List Event := [.turn (.request 1 (Request.named_payload 5 [97])),
      .turn (.start 7 Broker.subscribe_command), .turn (.act 0 .subscribe), .loop, .read 2, .turn .handle, .stop, .lock,
      .shutdown (fun _ => true), .turn .handle, .turn .register, .turn (.act 0 .handshake), .destroy,
      .shutdown (fun _ => true)]
    let service := (after distinct_step new events).1
    have hrun : Run (Fires distinct_step) new _ service := .of_after (by decide +kernel)
    have hproc : service.system.procs[0]?.any (fun proc => proc.alive && proc.phase == .listening) = true := by
      decide +kernel
    obtain ⟨proc, hfound, hproc⟩ := (Option.any_eq_true _ _).mp hproc
    simp only [Bool.and_eq_true, beq_iff_eq] at hproc
    have hentry : (service.system.server.entry [97] [99]).any (fun sub => sub.fifo_fd == some 0) = true := by
      decide +kernel
    obtain ⟨sub, hentry, hfd⟩ := (Option.any_eq_true _ _).mp hentry
    exact ⟨service, _, proc, hrun, hfound, hproc.1, hproc.2, ⟨[97], [99], sub, hentry, beq_iff_eq.mp hfd⟩,
      by decide +kernel, by decide +kernel, by decide +kernel, by decide +kernel⟩
  · let opening : List Event := [.turn (.request 1 (Request.named_payload 5 [97])),
      .turn (.start 7 Broker.subscribe_command), .turn (.act 0 .subscribe), .loop, .read 2, .turn .handle, .turn .handle,
      .turn .register, .turn (.act 0 .handshake), .turn (.start 8 Broker.subscribe_command), .turn (.act 1 .subscribe),
      .turn (.act 0 .disconnect), .turn (.exit 0), .loop, .read 1, .turn .handle, .turn .register]
    let closing : List Event := [.turn (.act 1 .handshake), .loop, .read 1, .turn .handle, .loop, .read 0, .stop, .lock,
      .shutdown (fun _ => true), .destroy, .shutdown (fun _ => true)]
    let middle := (after distinct_step new opening).1
    let service := (after distinct_step middle closing).1
    have hbefore : Run (Fires distinct_step) new _ middle := .of_after (by decide +kernel)
    have hafter : Run (Fires distinct_step) middle _ service := .of_after (by decide +kernel)
    have hentry : (middle.system.server.entry [97] [99]).any (fun sub => sub.fifo_fd == some 1) = true := by
      decide +kernel
    obtain ⟨sub, hentry, hfd⟩ := (Option.any_eq_true _ _).mp hentry
    have hproc : service.system.procs[1]?.any (fun proc => proc.alive && proc.phase == .listening) = true := by
      decide +kernel
    obtain ⟨proc, hfound, hproc⟩ := (Option.any_eq_true _ _).mp hproc
    simp only [Bool.and_eq_true, beq_iff_eq] at hproc
    exact ⟨middle, service, _, _, proc, hbefore, ⟨[97], [99], sub, hentry, beq_iff_eq.mp hfd⟩, hafter, hfound, hproc.1,
      hproc.2, by decide +kernel, by decide +kernel, by decide +kernel, by decide +kernel⟩

end Service

end treenity.broker

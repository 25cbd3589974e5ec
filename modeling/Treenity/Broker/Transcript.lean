import Treenity.Broker.Registered
import Treenity.Broker.Shutdown

open treenity.protocol treenity.data_structures treenity.ipc treenity.client treenity.server treenity.foundation

namespace treenity.broker

/-- What a process may have got so far, by what has become of its SUBSCRIBE. An answer
that finds its process gone is lost, and nothing follows it. -/
def Process.Heard (self : Process) (log : List Message) (shut : Bool) (written : List Bytes) : Prop :=
  match self.status with
  | .unsent => written = []
  | .queued => written = []
  | .rejected => (∃ code, code ≠ .SUCCESS ∧ written = [Response.serialize_response code []]) ∨
      self.alive = false ∧ written = []
  | .accepted _ => (∃ msgs : List Message, (∀ msg ∈ msgs, msg ∈ log) ∧
      written = Response.serialize_response .SUCCESS [] :: msgs.map Message.frame ++
        if shut then [Response.serialize_shutdown] else []) ∨
      self.alive = false ∧ written = []

namespace Process

/-- What was heard stays, while the process may die and the log may grow. -/
theorem Heard.keep {old proc : Process} {log later : List Message} {shut : Bool} {written : List Bytes}
    (hheard : old.Heard log shut written) (hstatus : proc.status = old.status)
    (halive : proc.alive = true → old.alive = true) (hlog : log ⊆ later) : proc.Heard later shut written := by
  have hgone : old.alive = false → proc.alive = false := by
    cases hproc : proc.alive with
    | false => exact fun _ => rfl
    | true => simp [halive hproc]
  rw [Heard, hstatus]
  rw [Heard] at hheard
  cases hold : old.status with
  | unsent => simpa only [hold] using hheard
  | queued => simpa only [hold] using hheard
  | rejected =>
    simp only [hold] at hheard ⊢
    exact hheard.imp id (And.imp_left hgone)
  | accepted start_offset =>
    simp only [hold] at hheard ⊢
    refine hheard.imp ?_ (And.imp_left hgone)
    rintro ⟨msgs, hmsgs, hwritten⟩
    exact ⟨msgs, fun msg hmsg => hlog (hmsgs msg hmsg), hwritten⟩

/-- A process without an answer has got nothing. -/
theorem Heard.silent {self : Process} {log : List Message} {shut : Bool} {written : List Bytes}
    (hheard : self.Heard log shut written) (hstatus : self.status = .unsent ∨ self.status = .queued) : written = [] := by
  rw [Heard] at hheard
  rcases hstatus with h | h
  · simpa only [h] using hheard
  · simpa only [h] using hheard

/-- A process that was accepted and got something got the answer first. -/
theorem Heard.answered {self : Process} {log : List Message} {shut : Bool} {written : List Bytes}
    (hheard : self.Heard log shut written) {start_offset : UInt32} (hstatus : self.status = .accepted start_offset)
    (hsome : self.alive = true ∨ written ≠ []) : ∃ msgs : List Message, (∀ msg ∈ msgs, msg ∈ log) ∧
      written = Response.serialize_response .SUCCESS [] :: msgs.map Message.frame ++
        if shut then [Response.serialize_shutdown] else [] := by
  rw [Heard] at hheard
  simp only [hstatus] at hheard
  apply hheard.resolve_right
  rintro ⟨hgone, hnone⟩
  rcases hsome with halive | hsome
  · rw [halive] at hgone
    cases hgone
  · exact hsome hnone

theorem heard_accepted {self : Process} {log : List Message} {shut : Bool} {written : List Bytes}
    {start_offset : UInt32} (hstatus : self.status = .accepted start_offset) {msgs : List Message}
    (hmsgs : ∀ msg ∈ msgs, msg ∈ log) (hwritten : written = Response.serialize_response .SUCCESS [] ::
      msgs.map Message.frame ++ if shut then [Response.serialize_shutdown] else []) : self.Heard log shut written := by
  rw [Heard, hstatus]
  exact .inl ⟨msgs, hmsgs, hwritten⟩

/-- The answer to a SUBSCRIBE is the first that a process gets. -/
theorem Heard.answer {old proc : Process} {log later : List Message} {written : List Bytes}
    (hheard : old.Heard log false written) (hqueued : old.status = .queued) {code : StatusCode}
    (hstatus : code ≠ .SUCCESS ∧ proc.status = .rejected ∨
      code = .SUCCESS ∧ ∃ start_offset, proc.status = .accepted start_offset) :
    proc.Heard later false (written ++ [Response.serialize_response code []]) := by
  rw [hheard.silent (.inr hqueued), List.nil_append]
  rcases hstatus with ⟨hcode, hrejected⟩ | ⟨rfl, start_offset, haccepted⟩
  · rw [Heard, hrejected]
    exact .inl ⟨code, hcode, rfl⟩
  · apply heard_accepted haccepted (List.forall_mem_nil _)
    rfl

/-- An answer that finds its process gone is lost. -/
theorem Heard.lost {old proc : Process} {log later : List Message} {written : List Bytes}
    (hheard : old.Heard log false written) (hqueued : old.status = .queued)
    (hstatus : proc.status = .rejected ∨ ∃ start_offset, proc.status = .accepted start_offset)
    (hgone : proc.alive = false) : proc.Heard later false written := by
  rw [hheard.silent (.inr hqueued)]
  rcases hstatus with hrejected | ⟨start_offset, haccepted⟩
  · rw [Heard, hrejected]
    exact .inr ⟨hgone, rfl⟩
  · rw [Heard, haccepted]
    exact .inr ⟨hgone, rfl⟩

/-- A message follows what was written before, as long as no shutdown frame was. -/
theorem Heard.message {old proc : Process} {log later : List Message} {written : List Bytes}
    (hheard : old.Heard log false written) {start_offset : UInt32} (haccepted : old.status = .accepted start_offset)
    (hsome : written ≠ []) (hstatus : proc.status = old.status) (hlog : log ⊆ later) {msg : Message}
    (hmsg : msg ∈ log) : proc.Heard later false (written ++ [msg.frame]) := by
  obtain ⟨msgs, hmsgs, rfl⟩ := hheard.answered haccepted (.inr hsome)
  refine @heard_accepted proc later false _ start_offset (hstatus.trans haccepted) (msgs ++ [msg]) ?_ ?_
  · intro other hother
    rcases List.mem_append.mp hother with hold | hnew
    · exact hlog (hmsgs other hold)
    · obtain rfl := List.mem_singleton.mp hnew
      exact hlog hmsg
  · simp

/-- The shutdown frame is the last. -/
theorem Heard.shutdown {old proc : Process} {log later : List Message} {written : List Bytes}
    (hheard : old.Heard log false written) {start_offset : UInt32} (haccepted : old.status = .accepted start_offset)
    (hsome : written ≠ []) (hstatus : proc.status = old.status) (hlog : log ⊆ later) :
    proc.Heard later true (written ++ [Response.serialize_shutdown]) := by
  obtain ⟨msgs, hmsgs, rfl⟩ := hheard.answered haccepted (.inr hsome)
  apply heard_accepted (hstatus.trans haccepted) fun msg hmsg => hlog (hmsgs msg hmsg)
  simp

end Process

namespace Broker

variable {H : StdHash}

/-- The invariants of a system with unique pids. -/
structure Regular (broker : Broker H) : Prop where
  exclusive : broker.Exclusive
  sessions : broker.Sessions
  strangers : broker.Strangers
  healthy : ∀ topic_name topic, broker.server.topics.find topic_name = some topic → topic.Healthy

theorem new_regular : (new : Broker H).Regular :=
  ⟨new_exclusive, new_sessions, new_strangers, by simp [new, Server.new]⟩

theorem Regular.step {self next : Broker H} {event : Event} (hregular : self.Regular) (hmoves : self.Moves event next)
    (hdistinct : self.distinct event = true) : next.Regular where
  exclusive := hregular.exclusive.step hmoves
  sessions := hregular.sessions.step hregular.exclusive hmoves (distinct_fresh hdistinct)
  strangers := hregular.strangers.step hmoves hdistinct
  healthy := hmoves.keeps.healthy hregular.healthy

theorem Regular.shutdown_topic {self : Broker H} (hregular : self.Regular) {topic_name : Bytes} {topic : Topic H}
    (hfound : self.server.topics.find topic_name = some topic) (taken : Fd → Bool) :
    (self.shutdown_topic topic_name topic taken).1.Regular :=
  have hthins := shutdown_topic_thins hfound taken
  ⟨hthins.exclusive hregular.exclusive, hthins.sessions hregular.sessions, hthins.strangers hregular.strangers,
    shutdown_topic_healthy hfound taken hregular.healthy⟩

/-- What a shutdown writes to a process: the shutdown frame, if the topic had a
descriptor for it and the write is taken. -/
theorem Regular.shutdown_gets {self : Broker H} (hregular : self.Regular) {topic_name : Bytes} {topic : Topic H}
    (hfound : self.server.topics.find topic_name = some topic) (taken : Fd → Bool) (q : Nat) :
    (self.shutdown_topic topic_name topic taken).2.filterMap (self.reaching q) = [] ∨
      self.Wired q ∧ ¬ (self.shutdown_topic topic_name topic taken).1.Wired q ∧
        (self.shutdown_topic topic_name topic taken).2.filterMap (self.reaching q) = [Response.serialize_shutdown] := by
  have hwrites : (self.shutdown_topic topic_name topic taken).2.filterMap (self.reaching q) =
      (topic.shutdown (fun fd => taken fd && self.alive fd)).2.filterMap (Syscall.delivered q) :=
    List.filterMap_map
  rw [hwrites]
  cases hflag : topic.stop_flag with
  | true => exact .inl (by rw [Topic.shutdown_stopped hflag]; rfl)
  | false =>
    by_cases hserved : ∃ id sub, topic.subscribers.find id = some sub ∧ sub.fifo_fd = some q
    · obtain ⟨id, sub, hfind, hfd⟩ := hserved
      have hname : ∀ {other_topic other entry}, self.server.entry other_topic other = some entry →
          entry.fifo_fd = some q → other_topic = topic_name ∧ other = id := by
        intro other_topic other entry hentry hopen
        obtain ⟨proc, hproc, hhas⟩ := hregular.sessions.opened _ _ entry q hentry hopen
        obtain ⟨found, hfound', hhas'⟩ := hregular.sessions.opened topic_name id sub q
          (by rw [Server.entry_of_find hfound, hfind]) hfd
        obtain rfl := Option.some.inj (hproc.symm.trans hfound')
        exact ⟨hhas.topic.symm.trans hhas'.topic, hhas.client_id.symm.trans hhas'.client_id⟩
      rw [Topic.shutdown_delivered hflag _ id]
      · split
        · refine .inr ⟨⟨topic_name, id, sub, by rw [Server.entry_of_find hfound, hfind], hfd⟩, ?_, rfl⟩
          rintro ⟨other_topic, other, entry, hentry, hopen⟩
          obtain ⟨rfl, _⟩ := hname ((shutdown_topic_thins hfound taken).entry _ _ _ hentry) hopen
          rw [shutdown_topic_entry hfound, if_pos ⟨rfl, hflag⟩] at hentry
          cases hentry
        · exact .inl rfl
      · intro other entry hother hopen
        exact (hname (by rw [Server.entry_of_find hfound, hother]) hopen).2
    · refine .inl (List.filterMap_eq_nil_iff.mpr fun call hcall => ?_)
      exact (Topic.shutdown_spares _ q (fun id sub hfind hfd => hserved ⟨id, sub, hfind, hfd⟩) call hcall).delivered

/-- Registering apart, no step opens a FIFO. -/
theorem Moves.wired_before {self next : Broker H} {event : Event} (hmoves : self.Moves event next) {q : Nat}
    (hwired : next.Wired q) : self.Wired q ∨ event = .register ∧ ∃ p sub, self.pending = some (p, sub) ∧
      holder self.procs sub.consumer_ipc = some q := by
  obtain ⟨topic_name, client_id, entry, hentry, hfd⟩ := hwired
  rcases hmoves.entry_before hentry hfd with ⟨old, hold, hopen, _⟩ | ⟨p, sub, hevent, hpending, _, _, hholder, _⟩
  · exact .inl ⟨topic_name, client_id, old, hold, hopen⟩
  · exact .inr ⟨hevent, p, sub, hpending, hholder⟩

/-- A process with a descriptor in a table was accepted, and its entry is that of its
name in its topic. -/
theorem Sessions.wired {self : Broker H} (hsessions : self.Sessions) {q : Nat} (hwired : self.Wired q) :
    ∃ proc start_offset sub, self.procs[q]? = some proc ∧ proc.status = .accepted start_offset ∧
      self.server.entry proc.command.topic proc.command.subscriber = some sub ∧ sub.fifo_fd = some q := by
  obtain ⟨topic_name, client_id, sub, hentry, hfd⟩ := hwired
  obtain ⟨proc, hproc, hhas⟩ := hsessions.opened _ _ sub q hentry hfd
  obtain ⟨start_offset, haccepted⟩ := hhas.accepted
  exact ⟨proc, start_offset, sub, hproc, haccepted, by rw [hhas.topic, hhas.client_id]; exact hentry, hfd⟩

end Broker

namespace Service

variable {H : StdHash}

/-- Every process has got what its SUBSCRIBE allows and reads that, and who got a shutdown
frame gets nothing more: no table has a descriptor for it and none is to be made. -/
structure Transcribed (service : Service H) : Prop where
  regular : service.system.Regular
  unstarted : ∀ q, service.system.procs[q]? = none → service.written q = []
  heard : ∀ (q : Nat) (proc : Process), service.system.procs[q]? = some proc →
    proc.Heard (service.system.server.log proc.command.topic) (service.shut q) (service.written q)
  piped : ∀ (q : Nat) (proc : Process), service.system.procs[q]? = some proc →
    proc.pipe <:+ (service.written q).flatten
  answered : ∀ q, service.system.Wired q → service.written q ≠ []
  pending : ∀ q sub, service.system.pending = some (q, sub) → ¬ service.system.Wired q ∧ service.shut q = false
  shut : ∀ q, service.shut q = true → ¬ service.system.Wired q ∧
    ∃ proc start_offset, service.system.procs[q]? = some proc ∧ proc.status = .accepted start_offset

theorem new_transcribed : (new : Service H).Transcribed := by
  refine ⟨Broker.new_regular, fun _ _ => rfl, ?_, ?_, ?_, ?_, ?_⟩ <;> simp [new, Broker.new, Broker.Wired]

/-- A process that is not accepted, or is about to be registered, got no shutdown frame. -/
theorem Transcribed.unshut {self : Service H} (htranscribed : self.Transcribed) {q : Nat} {proc : Process}
    (hproc : self.system.procs[q]? = some proc) (hstatus : ∀ start_offset, proc.status ≠ .accepted start_offset) :
    self.shut q = false := by
  cases hshut : self.shut q with
  | false => rfl
  | true =>
    obtain ⟨_, found, start_offset, hfound, haccepted⟩ := htranscribed.shut q hshut
    obtain rfl := Option.some.inj (hproc.symm.trans hfound)
    exact absurd haccepted (hstatus start_offset)

theorem Transcribed.unshut_of_wired {self : Service H} (htranscribed : self.Transcribed) {q : Nat}
    (hwired : self.system.Wired q) : self.shut q = false := by
  cases hshut : self.shut q with
  | false => rfl
  | true => exact absurd hwired (htranscribed.shut q hshut).1

theorem Transcribed.heard_step {self : Service H} (htranscribed : self.Transcribed) {event : broker.Event}
    {next : Broker H} {effects : List Effect} (hstep : self.system.step event = some (next, effects)) (q : Nat)
    (proc : Process) (hproc : next.procs[q]? = some proc) :
    proc.Heard (next.server.log proc.command.topic) (self.shut q)
      (self.written q ++ effects.filterMap (self.system.reaching q)) := by
  obtain ⟨hexclusive, hsessions, hstrangers, hhealthy⟩ := htranscribed.regular
  have hmoves := Broker.step_moves hstep
  rcases hmoves.process_before hproc with ⟨old, hold, _, hcommand, halive, _⟩ | ⟨_, _, _, _, hq, rfl⟩
  · have hheard := htranscribed.heard q old hold
    have hlog := (hmoves.keeps.log old.command.topic).subset
    rw [hcommand]
    have hgets := hsessions.gets hstrangers hhealthy hstep hold hproc
    generalize effects.filterMap (self.system.reaching q) = got at hgets
    cases hgets with
    | nothing hstatus =>
      rw [List.append_nil]
      rcases hstatus with hsame | ⟨hunsent, hqueued⟩
      · exact hheard.keep hsame halive hlog
      · rw [Process.Heard, hqueued]
        exact hheard.silent (.inl hunsent)
    | answer code hqueued hstatus hheard' =>
      have hshut := htranscribed.unshut hold (by simp [hqueued])
      rw [hshut] at hheard ⊢
      exact hheard.answer hqueued hstatus
    | lost hqueued hstatus hgone =>
      have hshut := htranscribed.unshut hold (by simp [hqueued])
      rw [hshut] at hheard ⊢
      rw [List.append_nil]
      exact hheard.lost hqueued hstatus hgone
    | message hentry hfd hmsg hstatus =>
      have hwired : self.system.Wired q := ⟨_, _, _, hentry, hfd⟩
      have hshut := htranscribed.unshut_of_wired hwired
      obtain ⟨found, hfound, hhas⟩ := hsessions.opened _ _ _ q hentry hfd
      obtain rfl := Option.some.inj (hold.symm.trans hfound)
      obtain ⟨start_offset, haccepted⟩ := hhas.accepted
      rw [hshut] at hheard ⊢
      exact hheard.message haccepted (htranscribed.answered q hwired) hstatus hlog (hhas.topic ▸ hmsg)
  · have hnone : self.system.procs[q]? = none := List.getElem?_eq_none (by omega)
    have hgot := hsessions.unstarted hstrangers hhealthy hstep hnone
    rw [htranscribed.unstarted q hnone, hgot]
    rfl

/-- More bytes at the end of a FIFO whose front has been read. -/
theorem suffix_append {left pipe bytes : Bytes} {written : List Bytes} (hleft : left <:+ pipe)
    (hpipe : pipe <:+ written.flatten) (more : List Bytes) (hmore : more.flatten = bytes) :
    left ++ bytes <:+ (written ++ more).flatten := by
  obtain ⟨read, hread⟩ := hleft.trans hpipe
  exact ⟨read, by rw [List.flatten_append, ← hread, hmore, List.append_assoc]⟩

theorem Transcribed.piped_step {self : Service H} (htranscribed : self.Transcribed) {event : broker.Event}
    {next : Broker H} {effects : List Effect} (hstep : self.system.step event = some (next, effects)) (q : Nat)
    (proc : Process) (hproc : next.procs[q]? = some proc) :
    proc.pipe <:+ (self.written q ++ effects.filterMap (self.system.reaching q)).flatten := by
  rcases (Broker.step_moves hstep).process_before hproc with ⟨old, hold, _⟩ | ⟨_, _, _, _, _, rfl⟩
  · obtain ⟨left, hleft, hpipe⟩ := htranscribed.regular.sessions.pipe_after htranscribed.regular.strangers hstep hold hproc
    rw [hpipe]
    exact suffix_append hleft (htranscribed.piped q old hold) _ rfl
  · exact List.nil_suffix

/-- Who is registered now has got its answer before. -/
theorem Transcribed.answered_step {self : Service H} (htranscribed : self.Transcribed) {event : broker.Event}
    {next : Broker H} {effects : List Effect} (hstep : self.system.step event = some (next, effects)) (q : Nat)
    (hwired : next.Wired q) : self.written q ++ effects.filterMap (self.system.reaching q) ≠ [] := by
  have hbefore : self.written q ≠ [] := by
    rcases (Broker.step_moves hstep).wired_before hwired with hold | ⟨_, p, sub, hpending, hholder⟩
    · exact htranscribed.answered q hold
    · obtain ⟨hown, proc, hproc, hmade⟩ := htranscribed.regular.sessions.pending p sub hpending
      obtain rfl := hown q (holder_some hholder)
      obtain ⟨found, hfound, halive, _⟩ := holder_some hholder
      obtain rfl := Option.some.inj (hproc.symm.trans hfound)
      obtain ⟨msgs, _, hwritten⟩ := (htranscribed.heard q proc hproc).answered hmade.status (.inl halive)
      simp [hwritten]
  exact fun hnil => hbefore (List.append_eq_nil_iff.mp hnil).1

theorem Transcribed.pending_step {self : Service H} (htranscribed : self.Transcribed) {event : broker.Event}
    {next : Broker H} (hmoves : self.system.Moves event next) (q : Nat) (sub : Server.Subscription)
    (hsub : next.pending = some (q, sub)) : ¬ next.Wired q ∧ self.shut q = false := by
  by_cases hbefore : self.system.pending = some (q, sub)
  · obtain ⟨hunwired, hshut⟩ := htranscribed.pending q sub hbefore
    refine ⟨fun hwired => ?_, hshut⟩
    rcases hmoves.wired_before hwired with hold | ⟨rfl, _⟩
    · exact hunwired hold
    · cases hmoves with
      | register => cases hsub
  · obtain ⟨request, rest, server, effects, hrequest, hevent, hqueue, _, _⟩ := hmoves.pending_new hsub hbefore
    obtain ⟨old, hold, hqueued, _⟩ := htranscribed.regular.sessions.first hqueue
    refine ⟨fun hwired => ?_, htranscribed.unshut hold (by simp [hqueued])⟩
    rcases hmoves.wired_before hwired with hwired | ⟨hregister, _⟩
    · obtain ⟨found, start_offset, _, hfound, haccepted, _⟩ := htranscribed.regular.sessions.wired hwired
      obtain rfl := Option.some.inj (hold.symm.trans hfound)
      rw [hqueued] at haccepted
      cases haccepted
    · rw [hevent] at hregister
      cases hregister

/-- No FIFO is opened again after a shutdown frame. -/
theorem Transcribed.shut_step {self : Service H} (htranscribed : self.Transcribed) {event : broker.Event}
    {next : Broker H} (hmoves : self.system.Moves event next) (q : Nat) (hshut : self.shut q = true) :
    ¬ next.Wired q ∧ ∃ proc start_offset, next.procs[q]? = some proc ∧ proc.status = .accepted start_offset := by
  obtain ⟨hunwired, old, start_offset, hold, haccepted⟩ := htranscribed.shut q hshut
  refine ⟨fun hwired => ?_, ?_⟩
  · rcases hmoves.wired_before hwired with hwired | ⟨_, p, sub, hpending, hholder⟩
    · exact hunwired hwired
    · obtain ⟨hown, _⟩ := htranscribed.regular.sessions.pending p sub hpending
      obtain rfl := hown q (holder_some hholder)
      rw [(htranscribed.pending q sub hpending).2] at hshut
      cases hshut
  · obtain ⟨proc, hproc, hfollows⟩ := htranscribed.regular.sessions.process_after hmoves hold
    exact ⟨proc, start_offset, hproc, hfollows.accepted haccepted⟩

theorem Transcribed.turn {self : Service H} (htranscribed : self.Transcribed) {event : broker.Event}
    {next : Broker H} {effects : List Effect} (hstep : self.system.step event = some (next, effects))
    (hdistinct : self.system.distinct event = true) (buffered : Nat) :
    Transcribed { self.record next effects with buffered } := by
  have hmoves := Broker.step_moves hstep
  obtain ⟨_, hsessions, hstrangers, hhealthy⟩ := htranscribed.regular
  refine ⟨htranscribed.regular.step hmoves hdistinct, ?_, htranscribed.heard_step hstep,
    htranscribed.piped_step hstep, htranscribed.answered_step hstep, htranscribed.pending_step hmoves, htranscribed.shut_step hmoves⟩
  intro q hnone
  have hbefore : self.system.procs[q]? = none := by
    have hlength := hmoves.length_le
    rw [List.getElem?_eq_none_iff] at hnone ⊢
    exact hlength.trans hnone
  have hgot := hsessions.unstarted hstrangers hhealthy hstep hbefore
  show self.written q ++ effects.filterMap (self.system.reaching q) = []
  rw [htranscribed.unstarted q hbefore, hgot]
  rfl

theorem Transcribed.shutdown {self : Service H} (htranscribed : self.Transcribed) {topic_name : Bytes}
    {topic : Topic H} (hfound : self.system.server.topics.find topic_name = some topic) (taken : Fd → Bool)
    (rest : List Bytes) :
    Transcribed { self.record (self.system.shutdown_topic topic_name topic taken).1
        (self.system.shutdown_topic topic_name topic taken).2 with
      stopping := some rest
      shut := fun q => self.shut q ||
        !((self.system.shutdown_topic topic_name topic taken).2.filterMap (self.system.reaching q)).isEmpty } := by
  have hthins := Broker.shutdown_topic_thins hfound taken
  have hgets := htranscribed.regular.shutdown_gets hfound taken
  have hlog := Broker.shutdown_topic_log hfound taken
  have hpipes := self.system.shutdown_topic_procs topic_name topic taken
  generalize (self.system.shutdown_topic topic_name topic taken).2 = effects at hgets hpipes
  have hregular := htranscribed.regular.shutdown_topic hfound taken
  generalize (self.system.shutdown_topic topic_name topic taken).1 = next at hthins hgets hlog hregular hpipes
  refine ⟨hregular, ?_, ?_, ?_, ?_, ?_, ?_⟩
  · intro q hnone
    have hbefore : self.system.procs[q]? = none := by
      rw [List.getElem?_eq_none_iff] at hnone ⊢
      exact hthins.length ▸ hnone
    show self.written q ++ effects.filterMap (self.system.reaching q) = []
    rcases hgets q with hnothing | ⟨hwired, _⟩
    · rw [htranscribed.unstarted q hbefore, hnothing]
      rfl
    · obtain ⟨_, _, _, hproc, _⟩ := htranscribed.regular.sessions.wired hwired
      rw [hbefore] at hproc
      cases hproc
  · intro q proc hproc
    obtain ⟨old, more, hold, rfl, _⟩ := hthins.process_before hproc
    have hheard := htranscribed.heard q old hold
    show Process.Heard _ _ (self.shut q || !(effects.filterMap (self.system.reaching q)).isEmpty)
      (self.written q ++ effects.filterMap (self.system.reaching q))
    have hkept : self.system.server.log old.command.topic ⊆ next.server.log old.command.topic :=
      hlog old.command.topic ▸ List.Subset.refl _
    rcases hgets q with hnothing | ⟨hwired, _, hframe⟩
    · rw [hnothing, List.isEmpty_nil, Bool.not_true, Bool.or_false, List.append_nil]
      exact hheard.keep rfl id hkept
    · obtain ⟨found, start_offset, _, hfound, haccepted, _⟩ := htranscribed.regular.sessions.wired hwired
      obtain rfl := Option.some.inj (hold.symm.trans hfound)
      rw [htranscribed.unshut_of_wired hwired] at hheard
      rw [hframe, List.isEmpty_cons, Bool.not_false, Bool.or_true]
      exact hheard.shutdown haccepted (htranscribed.answered q hwired) rfl hkept
  · intro q proc hproc
    obtain ⟨old, hold, rfl⟩ := Option.map_eq_some_iff.mp ((hpipes q).symm.trans hproc)
    exact suffix_append List.suffix_rfl (htranscribed.piped q old hold) _ rfl
  · intro q hwired hnil
    exact htranscribed.answered q (hthins.wired hwired) (List.append_eq_nil_iff.mp hnil).1
  · intro q sub hsub
    obtain ⟨hunwired, hshut⟩ := htranscribed.pending q sub (hthins.pending.symm.trans hsub)
    refine ⟨fun hwired => hunwired (hthins.wired hwired), ?_⟩
    rcases hgets q with hnothing | ⟨hwired, _⟩
    · simp [hshut, hnothing]
    · exact absurd hwired hunwired
  · intro q hshut
    have hcases : ¬ next.Wired q ∧ ∃ old start_offset, self.system.procs[q]? = some old ∧
        old.status = .accepted start_offset := by
      rcases hgets q with hnothing | ⟨hwired, hunwired, _⟩
      · have hbefore : self.shut q = true := by simpa [hnothing] using hshut
        obtain ⟨hunwired, haccepted⟩ := htranscribed.shut q hbefore
        exact ⟨fun hwired => hunwired (hthins.wired hwired), haccepted⟩
      · obtain ⟨proc, start_offset, _, hproc, haccepted, _⟩ := htranscribed.regular.sessions.wired hwired
        exact ⟨hunwired, proc, start_offset, hproc, haccepted⟩
    obtain ⟨hunwired, old, start_offset, hold, haccepted⟩ := hcases
    obtain ⟨more, hmore⟩ := hthins.process_after hold
    exact ⟨hunwired, _, start_offset, hmore, haccepted⟩

/-- Pids are unique in the system. -/
def distinct (self : Service H) : Event → Bool
  | .turn event => self.system.distinct event
  | _ => true

theorem Transcribed.step {self next : Service H} {event : Event} (htranscribed : self.Transcribed)
    (hmoves : self.Moves event next) (hdistinct : self.distinct event = true) : next.Transcribed := by
  cases hmoves with
  | turn hallows hstep => exact htranscribed.turn hstep hdistinct _
  | shutdown taken hstopping hfound => exact htranscribed.shutdown hfound taken _
  | control hevent hsystem hwritten hfailed hshut =>
    obtain ⟨hregular, hunstarted, hheard, hpiped, hanswered, hpending, hshutdown⟩ := htranscribed
    rw [← hsystem] at hregular hunstarted hheard hpiped hanswered hpending hshutdown
    rw [← hwritten] at hunstarted hheard hpiped hanswered
    rw [← hshut] at hheard hpending hshutdown
    exact ⟨hregular, hunstarted, hheard, hpiped, hanswered, hpending, hshutdown⟩

theorem transcribed_of_run {labels : List (Event × List Effect)} {service : Service H}
    (hrun : Run (Fires (guarded (fun s e => s.distinct e = true) step)) new labels service) : service.Transcribed := by
  apply hrun.invariant new_transcribed
  rintro self label next htranscribed hfires
  obtain ⟨hstep, hdistinct⟩ := fires_guarded_iff.mp hfires
  exact htranscribed.step (step_moves hstep) hdistinct

/-- In every interleaving of the main thread, the workers and the shutdowns, the writes
to the FIFO of a subscriber process are one response of five bytes and then, only if it
is a SUCCESS, whole messages of its topic, none of which reads as a shutdown, and at
most one shutdown frame, with nothing after it. The FIFO of a process that has got
nothing has no answer yet, or was gone when the answer came. -/
theorem subscriber_transcript {labels : List (Event × List Effect)} {service : Service H}
    (hrun : Run (Fires (guarded (fun s e => s.distinct e = true) step)) new labels service) {q : Nat} {proc : Process}
    (hproc : service.system.procs[q]? = some proc)
    (hlog : (service.system.server.log proc.command.topic).length < 2 ^ 32 - 1) :
    proc.pipe <:+ (service.written q).flatten ∧
    (service.written q = [] ∧ (proc.status = .unsent ∨ proc.status = .queued ∨ proc.alive = false) ∨
      ∃ code, (Response.serialize_response code []).length = 5 ∧
        (code ≠ .SUCCESS ∧ proc.status = .rejected ∧ service.written q = [Response.serialize_response code []] ∨
          code = .SUCCESS ∧ (∃ start_offset, proc.status = .accepted start_offset) ∧
            ∃ msgs : List Message,
              (∀ msg ∈ msgs, msg ∈ service.system.server.log proc.command.topic ∧ msg.offset ≠ SHUTDOWN_OFFSET) ∧
              service.written q = Response.serialize_response .SUCCESS [] :: msgs.map Message.frame ++
                if service.shut q then [Response.serialize_shutdown] else [])) := by
  have htranscribed := transcribed_of_run hrun
  refine ⟨htranscribed.piped q proc hproc, ?_⟩
  have hheard := htranscribed.heard q proc hproc
  have hfive : ∀ code, (Response.serialize_response code []).length = 5 := by
    intro code
    simp [Response.serialize_response, write_uint32_le_eq]
  cases hstatus : proc.status with
  | unsent => exact .inl ⟨hheard.silent (.inl hstatus), .inl rfl⟩
  | queued => exact .inl ⟨hheard.silent (.inr hstatus), .inr (.inl rfl)⟩
  | rejected =>
    rw [Process.Heard] at hheard
    simp only [hstatus] at hheard
    rcases hheard with ⟨code, hcode, hwritten⟩ | ⟨hgone, hwritten⟩
    · exact .inr ⟨code, hfive code, .inl ⟨hcode, rfl, hwritten⟩⟩
    · exact .inl ⟨hwritten, .inr (.inr hgone)⟩
  | accepted start_offset =>
    rw [Process.Heard] at hheard
    simp only [hstatus] at hheard
    rcases hheard with ⟨msgs, hmsgs, hwritten⟩ | ⟨hgone, hwritten⟩
    · refine .inr ⟨.SUCCESS, hfive _, .inr ⟨rfl, ⟨start_offset, rfl⟩, msgs, fun msg hmsg => ⟨hmsgs msg hmsg, ?_⟩, hwritten⟩⟩
      exact Server.log_offset htranscribed.regular.healthy hlog msg (hmsgs msg hmsg)
    · exact .inl ⟨hwritten, .inr (.inr hgone)⟩

/-- A subscriber gets its answer, the one message there is, and the shutdown frame. -/
theorem subscriber_transcript_shutdown :
    ∃ (service : Service ⟨List.length, UInt8.toNat, UInt32.toNat⟩) (labels : List (Event × List Effect)) (proc : Process),
      Run (Fires (guarded (fun s e => s.distinct e = true) step)) new labels service ∧
      service.system.procs[0]? = some proc ∧ service.destroyed = true ∧
      service.written 0 = [[0, 0, 0, 0, 0], [0, 0, 0, 0, 1, 0, 0, 0, 1, 0, 0, 0, 107, 118],
        [255, 255, 255, 255, 0, 0, 0, 0, 0, 0, 0, 0]] ∧
      ∃ msgs : List Message, (∀ msg ∈ msgs, msg ∈ service.system.server.log [97] ∧ msg.offset ≠ SHUTDOWN_OFFSET) ∧
        service.written 0 = Response.serialize_response .SUCCESS [] :: msgs.map Message.frame ++
          [Response.serialize_shutdown] := by
  let distinct_step := guarded
    (fun (s : Service ⟨List.length, UInt8.toNat, UInt32.toNat⟩) e => s.distinct e = true) step
  let events : List Event := [.turn (.request 1 (Request.named_payload 5 [97])),
    .turn (.start 7 Broker.subscribe_command), .turn (.act 0 .subscribe),
    .turn (.request 5 (Request.produce_payload [97] [107] [118])), .loop, .read 3, .turn .handle, .turn .handle,
    .turn .register, .turn .handle, .turn (.deliver [97] [99] true), .stop, .lock, .shutdown (fun _ => true),
    .destroy, .shutdown (fun _ => true)]
  let service := (after distinct_step new events).1
  have hrun : Run (Fires distinct_step) new _ service := .of_after (by decide +kernel)
  have hproc : service.system.procs[0]?.any (fun proc => proc.command == Broker.subscribe_command &&
      proc.status == .accepted 0) = true := by decide +kernel
  obtain ⟨proc, hfound, hproc⟩ := (Option.any_eq_true _ _).mp hproc
  simp only [Bool.and_eq_true, beq_iff_eq] at hproc
  obtain ⟨hcommand, hstatus⟩ := hproc
  have htopic : proc.command.topic = [97] := by
    rw [hcommand]
    rfl
  have hwritten : service.written 0 = [[0, 0, 0, 0, 0], [0, 0, 0, 0, 1, 0, 0, 0, 1, 0, 0, 0, 107, 118],
      [255, 255, 255, 255, 0, 0, 0, 0, 0, 0, 0, 0]] := by decide +kernel
  have hshut : service.shut 0 = true := by decide +kernel
  refine ⟨service, _, proc, hrun, hfound, by decide +kernel, hwritten, ?_⟩
  obtain ⟨_, ⟨hnone, _⟩ | ⟨code, _, ⟨_, hrejected, _⟩ | ⟨_, _, msgs, hmsgs, hmade⟩⟩⟩ :=
    subscriber_transcript hrun hfound (by rw [htopic]; decide +kernel)
  · rw [hwritten] at hnone
    cases hnone
  · rw [hstatus] at hrejected
    cases hrejected
  · rw [htopic] at hmsgs
    rw [hshut] at hmade
    exact ⟨msgs, hmsgs, hmade⟩

end Service

end treenity.broker

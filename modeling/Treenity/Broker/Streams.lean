import Treenity.Broker.Sessions

open treenity.protocol treenity.data_structures treenity.ipc treenity.client treenity.server treenity.foundation

namespace treenity.broker

namespace Process

/-- What the FIFO of an accepted process holds before the messages. -/
def answer (self : Process) : Bytes :=
  if self.phase = .waiting then Response.serialize_response .SUCCESS [] else []

def accepts (self : Process) (msg : Message) : Bool := self.command.pref.isPrefixOf msg.key

/-- The process waits for its answer or is in the loop. -/
def Active (self : Process) : Prop :=
  self.phase = .waiting ∨ self.phase = .listening ∨ ∃ next_offset, self.phase = .acking next_offset

/-- Nothing is printed before the SUBSCRIBE is accepted, and the message to be
acknowledged is the last that was printed. -/
structure Prints (proc : Process) : Prop where
  silent : (∀ start_offset, proc.status ≠ .accepted start_offset) → proc.output = []
  acking : ∀ next_offset, proc.phase = .acking next_offset →
    ∃ seen msg, proc.output = seen ++ [msg] ∧ next_offset = msg.offset + 1

end Process

namespace Broker

variable {H : StdHash}

/-- Only its own actions take a process further. -/
theorem Moves.phase_after {self next : Broker H} {event : Event} (hmoves : self.Moves event next) {q : Nat}
    {old proc : Process} (hold : self.procs[q]? = some old) (hproc : next.procs[q]? = some proc) :
    proc.phase = old.phase ∧ proc.output = old.output ∨
      (∃ action, event = .act q action) ∧ old.alive = true ∧ ∃ frames, Acted old q proc frames := by
  have hmarked : ∀ (procs : List Process) (p : Nat) (mark : Process → Process),
      (∃ more, procs[q]? = self.procs[q]?.map (Process.receive more)) →
      (∀ old : Process, (mark old).phase = old.phase ∧ (mark old).output = old.output) →
      (procs.modify p mark)[q]? = some proc → proc.phase = old.phase ∧ proc.output = old.output := by
    rintro procs p mark ⟨more, hmore⟩ hmark hnext
    rw [List.getElem?_modify, hmore, hold] at hnext
    obtain rfl := Option.some.inj hnext
    split
    · exact hmark (old.receive more)
    · exact ⟨rfl, rfl⟩
  have hsame : self.procs[q]? = some proc → proc.phase = old.phase ∧ proc.output = old.output := by
    intro hproc
    obtain rfl := Option.some.inj (hold.symm.trans hproc)
    exact ⟨rfl, rfl⟩
  cases hmoves with
  | start =>
    obtain ⟨hlt, _⟩ := List.getElem?_eq_some_iff.mp hold
    rw [List.getElem?_append_left hlt] at hproc
    exact .inl (hsame hproc)
  | act hacting halive hacted =>
    rename_i p action acting moved frames
    rcases set_cases hacting hold hproc with ⟨rfl, rfl, rfl⟩ | ⟨_, hproc⟩
    · exact .inr ⟨⟨action, rfl⟩, halive, frames, hacted⟩
    · exact .inl (hsame hproc)
  | exit p => exact .inl (hmarked self.procs p Process.kill ⟨[], by simp⟩ (fun _ => ⟨rfl, rfl⟩) hproc)
  | rejected => exact .inl (hmarked _ _ (Process.note .rejected) (post_receive _ _ _ q) (fun _ => ⟨rfl, rfl⟩) hproc)
  | accepted => exact .inl (hmarked _ _ (Process.note _) (post_receive _ _ _ q) (fun _ => ⟨rfl, rfl⟩) hproc)
  | deliver =>
    obtain ⟨more, hmore⟩ := perform_receive _ self.procs q
    dsimp only at hproc
    rw [hmore, hold] at hproc
    obtain rfl := Option.some.inj hproc
    exact .inl ⟨rfl, rfl⟩
  | _ => exact .inl (hsame hproc)

theorem prints_step {self next : Broker H} {event : Event} (hsessions : self.Sessions)
    (hprints : ∀ (q : Nat) (proc : Process), self.procs[q]? = some proc → proc.Prints)
    (hmoves : self.Moves event next) : ∀ (q : Nat) (proc : Process), next.procs[q]? = some proc → proc.Prints := by
  intro q proc hproc
  rcases hmoves.process_before hproc with ⟨old, hold, _⟩ | ⟨_, _, _, _, _, rfl⟩
  · obtain ⟨found, hfound, hfollows⟩ := hsessions.process_after hmoves hold
    obtain rfl := Option.some.inj (hproc.symm.trans hfound)
    have hbefore := hprints q old hold
    have hunaccepted : (∀ start_offset, proc.status ≠ .accepted start_offset) →
        ∀ start_offset, old.status ≠ .accepted start_offset :=
      fun hnever start_offset haccepted => hnever start_offset (hfollows.accepted haccepted)
    rcases hmoves.phase_after hold hproc with ⟨hphase, houtput⟩ | ⟨_, halive, frames, hacted⟩
    · refine ⟨?_, ?_⟩
      · rw [houtput]
        exact fun hnever => hbefore.silent (hunaccepted hnever)
      · rw [hphase, houtput]
        exact hbefore.acking
    · have hloop := (hsessions.consistent q old hold).accepted
      cases hacted with
      | output hphase hread =>
        refine ⟨fun hnever => ?_, ?_⟩
        · obtain ⟨start_offset, haccepted⟩ := hloop (by simp [hphase]) (by simp [hphase]) (by simp [hphase])
          exact absurd haccepted (hnever start_offset)
        · rintro next_offset hacking
          exact ⟨_, _, rfl, (Phase.acking.inj hacking).symm⟩
      | subscribe hphase =>
        refine ⟨fun _ => hbefore.silent ?_, by simp⟩
        rw [(hsessions.consistent q old hold).unsent hphase]
        simp
      | _ => exact ⟨fun hnever => hbefore.silent (hunaccepted hnever), by simp⟩
  · exact ⟨fun _ => rfl, by simp [Process.create]⟩

/-- What an accepted process has printed and the messages in its FIFO are together
what the cursor of its entry has passed since its start offset, in order. -/
structure Flows (broker : Broker H) (q : Nat) (proc : Process) (start_offset : UInt32) (stop : Nat)
    (unread : List Message) : Prop where
  reached : stop = start_offset.toNat ∨
    start_offset.toNat ≤ stop ∧ stop ≤ (broker.server.log proc.command.topic).length
  read : proc.output ++ unread = window (broker.server.log proc.command.topic) proc.accepts start_offset.toNat stop
  pipe : proc.pipe = proc.answer ++ unread.flatMap Message.frame
  pending : ∀ sub, broker.pending = some (q, sub) → stop = start_offset.toNat
  cursor : ∀ sub, broker.server.entry proc.command.topic proc.command.subscriber = some sub →
    sub.fifo_fd = some q → sub.next_offset.toNat = stop

/-- All topics are healthy, and the messages flow to every process that lives, was
accepted and is in its loop, as long as their offsets are not those of shutdowns. -/
structure Streams (broker : Broker H) : Prop where
  healthy : ∀ topic_name topic, broker.server.topics.find topic_name = some topic → topic.Healthy
  prints : ∀ (q : Nat) (proc : Process), broker.procs[q]? = some proc → proc.Prints
  flows : ∀ (q : Nat) (proc : Process) start_offset, broker.procs[q]? = some proc → proc.alive = true →
    proc.status = .accepted start_offset → proc.Active →
    (broker.server.log proc.command.topic).length < 2 ^ 32 - 1 →
      ∃ stop unread, broker.Flows q proc start_offset stop unread

theorem new_streams : (new : Broker H).Streams := by
  refine ⟨?_, ?_, ?_⟩ <;> simp [new, Server.new]

theorem Flows.start_le {self : Broker H} {q : Nat} {proc : Process} {start_offset : UInt32} {stop : Nat}
    {unread : List Message} (hflows : self.Flows q proc start_offset stop unread) : start_offset.toNat ≤ stop := by
  rcases hflows.reached with hstart | ⟨hle, _⟩
  · exact hstart.ge
  · exact hle

/-- The log may grow beyond a cursor. -/
theorem Flows.grow {self : Broker H} {q : Nat} {old proc : Process} {start_offset : UInt32} {stop : Nat}
    {unread : List Message} (hflows : self.Flows q old start_offset stop unread) (next : Broker H)
    (hcommand : proc.command = old.command)
    (hlog : self.server.log old.command.topic <+: next.server.log old.command.topic) :
    (stop = start_offset.toNat ∨
      start_offset.toNat ≤ stop ∧ stop ≤ (next.server.log proc.command.topic).length) ∧
    window (next.server.log proc.command.topic) proc.accepts start_offset.toNat stop =
      window (self.server.log old.command.topic) old.accepts start_offset.toNat stop := by
  have haccepts : proc.accepts = old.accepts := by
    funext msg
    rw [Process.accepts, Process.accepts, hcommand]
  obtain ⟨more, hmore⟩ := hlog
  rw [hcommand, haccepts, ← hmore]
  rcases hflows.reached with hstart | ⟨hle, hinside⟩
  · exact ⟨.inl hstart, by rw [hstart, window_self, window_self]⟩
  · refine ⟨.inr ⟨hle, ?_⟩, window_append _ _ hinside more⟩
    rw [List.length_append]
    omega

/-- Steps that leave the process, its registration and its entry alone. -/
theorem Flows.spared {self next : Broker H} {q : Nat} {old proc : Process} {start_offset : UInt32} {stop : Nat}
    {unread : List Message} (hflows : self.Flows q old start_offset stop unread)
    (hcommand : proc.command = old.command) (houtput : proc.output = old.output) (hpipe : proc.pipe = old.pipe)
    (hanswer : proc.answer = old.answer)
    (hlog : self.server.log old.command.topic <+: next.server.log old.command.topic)
    (hpending : ∀ sub, next.pending = some (q, sub) → self.pending = some (q, sub))
    (hcursor : ∀ sub, next.server.entry old.command.topic old.command.subscriber = some sub →
      sub.fifo_fd = some q → self.server.entry old.command.topic old.command.subscriber = some sub) :
    next.Flows q proc start_offset stop unread := by
  obtain ⟨hreached, hwindow⟩ := hflows.grow next hcommand hlog
  refine ⟨hreached, ?_, ?_, ?_, ?_⟩
  · rw [houtput, hwindow, hflows.read]
  · rw [hpipe, hanswer, hflows.pipe]
  · exact fun sub hsub => hflows.pending sub (hpending sub hsub)
  · intro sub hentry hfd
    rw [hcommand] at hentry
    exact hflows.cursor sub (hcursor sub hentry hfd) hfd

/-- A process can read every message in its FIFO. -/
theorem Flows.readable {self : Broker H} {q : Nat} {proc : Process} {start_offset : UInt32} {stop : Nat}
    {unread : List Message} (hflows : self.Flows q proc start_offset stop unread)
    (hhealthy : ∀ topic_name topic, self.server.topics.find topic_name = some topic → topic.Healthy)
    (hlog : (self.server.log proc.command.topic).length < 2 ^ 32 - 1) :
    ∀ msg ∈ unread, msg.key.length + msg.value.length ≤ MAX_PAYLOAD_SIZE ∧ msg.offset ≠ SHUTDOWN_OFFSET := by
  intro msg hmsg
  have hmem : msg ∈ window (self.server.log proc.command.topic) proc.accepts start_offset.toNat stop := by
    rw [← hflows.read]
    exact List.mem_append_right _ hmsg
  obtain ⟨hentry, _, _⟩ := (Server.log_indexed hhealthy (by omega)).pos_of_mem_window hmem
  have hlogged := List.mem_of_getElem? hentry
  exact ⟨Server.log_bounded hhealthy msg hlogged, Server.log_offset hhealthy hlog msg hlogged⟩

/-- What a process does keeps its stream flowing while it stays in its loop. -/
theorem Flows.acted {self : Broker H} {q : Nat} {old proc : Process} {frames : List Sent} {start_offset : UInt32}
    {stop : Nat} {unread : List Message} (hflows : self.Flows q old start_offset stop unread)
    (hhealthy : ∀ topic_name topic, self.server.topics.find topic_name = some topic → topic.Healthy)
    (hlog : (self.server.log old.command.topic).length < 2 ^ 32 - 1) (hcreated : old.phase ≠ .created)
    (hacted : Acted old q proc frames) (hactive : proc.Active) (queue : List Sent) (procs : List Process) :
    ∃ left, Flows { self with queue, procs } q proc start_offset stop left := by
  have hreadable := hflows.readable hhealthy hlog
  have hpipe := hflows.pipe
  have hspared : proc.command = old.command → proc.output = old.output → proc.pipe = old.pipe →
      proc.answer = old.answer → Flows { self with queue, procs } q proc start_offset stop unread :=
    fun hcommand houtput hpipe hanswer =>
      hflows.spared hcommand houtput hpipe hanswer List.prefix_rfl (fun _ h => h) (fun _ h _ => h)
  cases hacted with
  | subscribe hphase => exact absurd hphase hcreated
  | accepted hphase hread =>
    rw [Process.answer, if_pos hphase] at hpipe
    rw [hpipe, handshake_serialize_response] at hread
    obtain ⟨_, rfl⟩ := Prod.mk.inj (Option.some.inj hread)
    refine ⟨unread, hflows.reached, hflows.read, ?_, hflows.pending, hflows.cursor⟩
    simp [Process.answer]
  | refused hphase hread =>
    rw [Process.answer, if_pos hphase] at hpipe
    rw [hpipe, handshake_serialize_response] at hread
    simp at hread
  | output hphase hread =>
    rw [Process.answer, if_neg (by simp [hphase]), List.nil_append] at hpipe
    rw [hpipe] at hread
    obtain ⟨msg, rest, rfl, hmsg, rfl⟩ := read_delivery_frames hreadable hread
    obtain rfl := Option.some.inj hmsg
    refine ⟨rest, hflows.reached, ?_, ?_, hflows.pending, hflows.cursor⟩
    · rw [List.append_assoc]
      exact hflows.read
    · simp [Process.answer]
  | stop hphase hread =>
    rw [Process.answer, if_neg (by simp [hphase]), List.nil_append] at hpipe
    rw [hpipe] at hread
    obtain ⟨_, _, _, hmsg, _⟩ := read_delivery_frames hreadable hread
    cases hmsg
  | ack hphase => exact ⟨unread, hspared rfl rfl rfl (by simp [Process.answer, hphase])⟩
  | disconnect => simp [Process.Active] at hactive

/-- A turn of the worker for the entry of the process takes its cursor over one
message, or loses the descriptor. -/
theorem Flows.served {self : Broker H} {q : Nat} {proc : Process} {start_offset : UInt32} {stop : Nat}
    {unread : List Message} (hflows : self.Flows q proc start_offset stop unread) {topic : Topic H}
    {sub : ActiveSubscriber} {msg : Message} (taken : Bool)
    (hfound : self.server.topics.find proc.command.topic = some topic)
    (hfind : topic.subscribers.find proc.command.subscriber = some sub) (hfd : sub.fifo_fd = some q)
    (hpref : proc.command.pref = sub.pref) (hmsg : topic.messages[sub.next_offset.toNat]? = some msg)
    (hlog : topic.messages.length < 2 ^ 32) (hsettled : ∀ sub, self.pending ≠ some (q, sub))
    {procs : List Process} (hproc : self.procs[q]? = some proc)
    (hprocs : procs = ((sub.served msg taken).2.map Effect.syscall).foldl perform self.procs) :
    ∃ later stop unread, procs[q]? = some later ∧ later.command = proc.command ∧
      Flows { self with
        server := self.server.set_topic proc.command.topic { topic with
          subscribers := topic.subscribers.replace proc.command.subscriber (sub.served msg taken).1 }
        procs } q later start_offset stop unread := by
  have hcursor := hflows.cursor sub (by rw [Server.entry_of_find hfound, hfind]) hfd
  have hlogged := Server.log_of_find hfound
  have hstart := hflows.start_le
  rw [hcursor] at hmsg
  obtain ⟨hinside, _⟩ := List.getElem?_eq_some_iff.mp hmsg
  have hsucc : (sub.next_offset + 1).toNat = stop + 1 := by
    rw [UInt32.toNat_add, hcursor]
    exact Nat.mod_eq_of_lt (by simpa using show stop + 1 < 2 ^ 32 by omega)
  have hmoved := window_succ proc.accepts (hlogged ▸ hmsg) hstart
  -- What the new topic holds: the log as it was, and the served entry.
  have hsame : ∀ later : ActiveSubscriber, (self.server.set_topic proc.command.topic { topic with
      subscribers := topic.subscribers.replace proc.command.subscriber later }).log proc.command.topic =
        self.server.log proc.command.topic := by
    intro later
    rw [Server.set_topic_log hfound, if_pos rfl, hlogged]
  have hentry : ∀ later entry : ActiveSubscriber, (self.server.set_topic proc.command.topic { topic with
      subscribers := topic.subscribers.replace proc.command.subscriber later }).entry proc.command.topic
        proc.command.subscriber = some entry → entry = later := by
    intro later entry hentry
    rw [Server.set_topic_entry hfound, if_pos rfl, HashMap.find_replace_of_find hfind, if_pos rfl] at hentry
    exact (Option.some.inj hentry).symm
  have hread := hflows.read
  cases haccepts : proc.accepts msg with
  | false =>
    have hsilent : sub.pref.isPrefixOf msg.key = false := hpref ▸ haccepts
    rw [sub.served_silent taken (.inr hsilent)] at hprocs ⊢
    obtain rfl : procs = self.procs := hprocs
    refine ⟨proc, stop + 1, unread, hproc, rfl, .inr ?_, ?_, hflows.pipe, fun other hsub => absurd hsub (hsettled other),
      fun other hother _ => ?_⟩
    · rw [hsame, hlogged]
      exact ⟨by omega, hinside⟩
    · rw [hsame, hmoved, haccepts, hread]
      simp
    · rw [hentry _ _ hother]
      exact hsucc
  | true =>
    have hmatch : sub.pref.isPrefixOf msg.key = true := hpref ▸ haccepts
    cases taken with
    | true =>
      rw [sub.served_taken hfd hmatch] at hprocs ⊢
      obtain rfl : procs = self.procs.modify q (Process.receive msg.frame) := hprocs
      refine ⟨proc.receive msg.frame, stop + 1, unread ++ [msg], by simp [hproc], rfl, .inr ?_, ?_, ?_,
        fun other hsub => absurd hsub (hsettled other), fun other hother _ => ?_⟩
      · rw [show (proc.receive msg.frame).command = proc.command from rfl, hsame, hlogged]
        exact ⟨by omega, hinside⟩
      · rw [show (proc.receive msg.frame).command = proc.command from rfl, hsame,
          show (proc.receive msg.frame).accepts = proc.accepts from rfl, hmoved, haccepts, ← hread]
        simp [Process.receive]
      · rw [show (proc.receive msg.frame).pipe = proc.pipe ++ msg.frame from rfl, hflows.pipe]
        rw [show (proc.receive msg.frame).answer = proc.answer from rfl]
        simp
      · rw [hentry _ _ hother]
        exact hsucc
    | false =>
      rw [sub.served_failed hfd hmatch] at hprocs ⊢
      obtain rfl : procs = self.procs := hprocs
      refine ⟨proc, stop, unread, hproc, rfl, ?_, ?_, hflows.pipe, hflows.pending, fun other hother hopen => ?_⟩
      · rw [hsame]
        exact hflows.reached
      · rw [hsame]
        exact hread
      · rw [hentry _ _ hother] at hopen
        cases hopen

/-- A process that is accepted now has heard that, and nothing else yet. -/
theorem Streams.started {self next : Broker H} (hstreams : self.Streams) (hsessions : self.Sessions)
    (hmoves : self.Moves .handle next) {q : Nat} {old proc : Process} {request : Request.Subscribe}
    {hrequest : Request.parse_subscribe (Request.subscribe_payload request) = .ok request}
    (hqueue : self.queue = .subscribe q request hrequest :: next.queue) (hold : self.procs[q]? = some old)
    (halive : old.alive = true) {start_offset : UInt32}
    (hprocs : next.procs = (self.answer request .SUCCESS).modify q (Process.note (.accepted start_offset)))
    (hproc : next.procs[q]? = some proc) : next.Flows q proc start_offset start_offset.toNat [] := by
  obtain ⟨found, hfound, hqueued, hphase, _⟩ := hsessions.first hqueue
  obtain rfl := Option.some.inj (hold.symm.trans hfound)
  have hempty : old.pipe = [] := by
    have hconsistent := hsessions.consistent q old hold
    rw [Process.Consistent, hqueued] at hconsistent
    exact hconsistent.2 halive
  have houtput : old.output = [] := (hstreams.prints q old hold).silent (by simp [hqueued])
  rw [hprocs, hsessions.answer_getElem? hqueue, if_pos rfl, hold, Option.map_some,
    if_pos (hsessions.holder_eq hqueue hold halive)] at hproc
  obtain rfl := Option.some.inj hproc
  refine ⟨.inl rfl, ?_, ?_, fun _ _ => rfl, ?_⟩
  · rw [window_self]
    simp [Process.note, Process.receive, houtput]
  · simp [Process.note, Process.receive, Process.answer, hempty, hphase]
  · intro sub hentry hfd
    have hbefore := hmoves.entry_old (by simp) (by simp) hentry
    obtain ⟨owner, howner, hhas⟩ := hsessions.opened _ _ sub q hbefore hfd
    obtain rfl := Option.some.inj (hold.symm.trans howner)
    obtain ⟨_, haccepted⟩ := hhas.accepted
    rw [hqueued] at haccepted
    cases haccepted

/-- The pending registration puts the cursor of its process to the start. -/
theorem Flows.registered {self : Broker H} (hsessions : self.Sessions) {q : Nat} {proc : Process}
    {start_offset : UInt32} {stop : Nat} {unread : List Message}
    (hflows : self.Flows q proc start_offset stop unread) (hstatus : proc.status = .accepted start_offset)
    (hproc : self.procs[q]? = some proc) {p : Nat} {sub : Server.Subscription} (hpending : self.pending = some (p, sub)) :
    Flows { self with
      server := (self.server.register_subscriber sub (holder self.procs sub.consumer_ipc)).1
      pending := none } q proc start_offset stop unread := by
  obtain ⟨hown, registered, hregistered, hmade⟩ := hsessions.pending p sub hpending
  have hkeeps := self.server.register_subscriber_keeps sub (holder self.procs sub.consumer_ipc)
  obtain ⟨hreached, hwindow⟩ := hflows.grow { self with
    server := (self.server.register_subscriber sub (holder self.procs sub.consumer_ipc)).1, pending := none }
    rfl (hkeeps.log _)
  refine ⟨hreached, hwindow ▸ hflows.read, hflows.pipe, by simp, fun entry hentry hfd => ?_⟩
  dsimp only at hentry
  cases hfound : self.server.topics.find sub.topic with
  | none =>
    rw [Server.register_subscriber, hfound] at hentry
    exact hflows.cursor entry hentry hfd
  | some topic =>
    rw [Server.register_subscriber_entry hfound] at hentry
    split at hentry
    · obtain ⟨fd, hholder, rfl⟩ := Option.map_eq_some_iff.mp hentry
      obtain rfl := Option.some.inj hfd
      obtain rfl := hown fd (holder_some hholder)
      obtain rfl := Option.some.inj (hproc.symm.trans hregistered)
      obtain rfl := Status.accepted.inj (hstatus.symm.trans hmade.status)
      exact (hflows.pending sub hpending).symm
    · exact hflows.cursor entry hentry hfd

theorem Flows.delivered {self : Broker H} (hexclusive : self.Exclusive) (hsessions : self.Sessions)
    (hstreams : self.Streams) {q : Nat} {proc : Process} {start_offset : UInt32} {stop : Nat} {unread : List Message}
    (hflows : self.Flows q proc start_offset stop unread) (hproc : self.procs[q]? = some proc)
    (halive : proc.alive = true) (hlog : (self.server.log proc.command.topic).length < 2 ^ 32 - 1)
    {topic_name client_id : Bytes} {taken : Bool} {topic next : Topic H} {calls : List Syscall}
    (hfound : self.server.topics.find topic_name = some topic)
    (hdeliver : topic.deliver_next client_id taken = some (next, calls)) :
    ∃ later stop unread, ((calls.map Effect.syscall).foldl perform self.procs)[q]? = some later ∧
      later.command = proc.command ∧
      Flows { self with
        server := self.server.set_topic topic_name next
        procs := (calls.map Effect.syscall).foldl perform self.procs } q later start_offset stop unread := by
  have hwritten := deliver_perform hdeliver self.procs
  obtain ⟨sub, msg, hfind, hmsg, hcalls, hnext⟩ :=
    (hstreams.healthy topic_name topic hfound).synced.deliver_next_cases hdeliver
  have hentry : self.server.entry topic_name client_id = some sub := by
    rw [Server.entry_of_find hfound, hfind]
  by_cases hmine : sub.fifo_fd = some q
  · obtain ⟨owner, howner, hhas⟩ := hsessions.opened _ _ sub q hentry hmine
    obtain rfl := Option.some.inj (hproc.symm.trans howner)
    obtain rfl := hhas.topic
    obtain rfl := hhas.client_id
    have hsettled : ∀ other, self.pending ≠ some (q, other) := by
      intro other hpending
      obtain ⟨_, registered, hregistered, hmade⟩ := hsessions.pending q other hpending
      obtain rfl := Option.some.inj (hproc.symm.trans hregistered)
      refine (hexclusive.pending q other hpending).2 proc.command.topic q _ _ ⟨sub, ?_, hmine, rfl⟩
        ⟨proc, hproc, halive, rfl⟩
      rw [← hmade.client_id]
      exact hentry
    rw [Server.log_of_find hfound] at hlog
    subst hcalls hnext
    exact hflows.served taken hfound hfind hmine hhas.pref hmsg (by omega) hsettled hproc rfl
  · have hsame : ((calls.map Effect.syscall).foldl perform self.procs)[q]? = some proc := by
      rcases hwritten with hnobody | ⟨target, p, bytes, htarget, hfd, _, hmodified⟩
      · rw [hnobody, hproc]
      · obtain rfl := Option.some.inj (hfind.symm.trans htarget)
        have hp : p ≠ q := fun h => hmine (h ▸ hfd)
        rw [hmodified, List.getElem?_modify]
        simp [hp, hproc]
    refine ⟨proc, stop, unread, hsame, rfl, hflows.spared rfl rfl rfl rfl ?_ (fun _ h => h) ?_⟩
    · dsimp only
      rw [Server.set_topic_log hfound]
      split
      · rename_i htopic
        rw [htopic, Server.log_of_find hfound, hnext]
      · exact List.prefix_rfl
    · intro entry hafter hfd
      dsimp only at hafter
      rw [Server.set_topic_entry hfound] at hafter
      split at hafter
      · rename_i htopic
        rw [hnext] at hafter
        dsimp only at hafter
        rw [HashMap.find_replace_of_find hfind] at hafter
        split at hafter
        · obtain rfl := Option.some.inj hafter
          exact absurd (ActiveSubscriber.served_fifo_fd hfd) hmine
        · rw [htopic, Server.entry_of_find hfound]
          exact hafter
      · exact hafter

end Broker

theorem Acted.active {old proc : Process} {p : Nat} {frames : List Sent} (hacted : Acted old p proc frames)
    (hcreated : old.phase ≠ .created) : old.Active := by
  cases hacted with
  | subscribe hphase => exact absurd hphase hcreated
  | accepted hphase => exact .inl hphase
  | refused hphase => exact .inl hphase
  | output hphase => exact .inr (.inl hphase)
  | stop hphase => exact .inr (.inl hphase)
  | ack hphase => exact .inr (.inr ⟨_, hphase⟩)
  | disconnect hphase => exact .inr (.inl hphase)

namespace Broker

variable {H : StdHash}

theorem Streams.flows_step {self next : Broker H} {event : Event} (hstreams : self.Streams)
    (hexclusive : self.Exclusive) (hsessions : self.Sessions) (hmoves : self.Moves event next) :
    ∀ (q : Nat) (proc : Process) start_offset, next.procs[q]? = some proc → proc.alive = true →
      proc.status = .accepted start_offset → proc.Active →
      (next.server.log proc.command.topic).length < 2 ^ 32 - 1 →
        ∃ stop unread, next.Flows q proc start_offset stop unread := by
  intro q proc start_offset hproc halive hstatus hactive hlog
  rcases hmoves.process_before hproc with ⟨old, hold, _, hcommand, hbefore, _⟩ | ⟨_, _, _, _, _, rfl⟩
  · obtain ⟨found, hfound, hfollows⟩ := hsessions.process_after hmoves hold
    obtain rfl := Option.some.inj (hproc.symm.trans hfound)
    have hliving := hbefore halive
    have hgrows := hmoves.keeps.log old.command.topic
    rw [hcommand] at hlog
    have hroom : (self.server.log old.command.topic).length < 2 ^ 32 - 1 :=
      Nat.lt_of_le_of_lt hgrows.length_le hlog
    rcases hfollows.status with hsame | ⟨_, hqueued⟩ | ⟨-, -, hrejected | ⟨sub, hnone, hpending, hdone⟩⟩
    · -- The process was accepted before, so its messages were flowing.
      have haccepted : old.status = .accepted start_offset := hsame ▸ hstatus
      have hcreated : old.phase ≠ .created := by
        have hconsistent := hsessions.consistent q old hold
        rw [Process.Consistent, haccepted] at hconsistent
        exact hconsistent
      have hwas : old.Active := by
        rcases hmoves.phase_after hold hproc with ⟨hphase, _⟩ | ⟨_, _, frames, hacted⟩
        · rw [Process.Active, ← hphase]
          exact hactive
        · exact hacted.active hcreated
      obtain ⟨stop, unread, hflows⟩ := hstreams.flows q old start_offset hold hliving haccepted hwas hroom
      have hspared : proc = old → (∀ sub, next.pending = some (q, sub) → self.pending = some (q, sub)) →
          event ≠ .register → (∀ topic_name client_id taken, event ≠ .deliver topic_name client_id taken) →
            ∃ stop unread, next.Flows q proc start_offset stop unread := by
        rintro rfl hpending hregister hdeliver
        exact ⟨stop, unread, hflows.spared rfl rfl rfl rfl hgrows hpending
          (fun _ hentry _ => hmoves.entry_old hregister hdeliver hentry)⟩
      have hsame_proc : self.procs[q]? = some proc → proc = old :=
        fun hproc => Option.some.inj (hproc.symm.trans hold)
      cases hmoves with
      | start =>
        obtain ⟨hlt, _⟩ := List.getElem?_eq_some_iff.mp hold
        rw [List.getElem?_append_left hlt] at hproc
        exact hspared (hsame_proc hproc) (fun _ h => h) (by simp) (by simp)
      | request => exact hspared (hsame_proc hproc) (fun _ h => h) (by simp) (by simp)
      | act hacting _ hacted =>
        rename_i p action acting moved frames _
        rcases set_cases hacting hold hproc with ⟨rfl, rfl, rfl⟩ | ⟨_, hproc⟩
        · exact ⟨stop, hflows.acted hstreams.healthy hroom hcreated hacted hactive _ _⟩
        · exact hspared (hsame_proc hproc) (fun _ h => h) (by simp) (by simp)
      | exit p =>
        have hp : p ≠ q := by
          rintro rfl
          obtain rfl : old.kill = proc := by simpa [hold] using hproc
          simp [Process.kill] at halive
        refine hspared (hsame_proc ?_) (fun _ h => h) (by simp) (by simp)
        simpa [hp] using hproc
      | rejected hrequest _ hqueue =>
        have hp := hsessions.not_first hqueue hold haccepted
        rw [hsessions.answer_getElem? hqueue, if_neg hp] at hproc
        exact hspared (hsame_proc hproc) (by simp) (by simp) (by simp)
      | accepted hrequest _ hqueue =>
        have hp := hsessions.not_first hqueue hold haccepted
        rw [hsessions.answer_getElem? hqueue, if_neg hp] at hproc
        exact hspared (hsame_proc hproc) (by simp [hp]) (by simp) (by simp)
      | register hpending =>
        obtain rfl := hsame_proc hproc
        exact ⟨stop, unread, hflows.registered hsessions haccepted hold hpending⟩
      | deliver hserved hreads hdeliver =>
        obtain ⟨later, stop, unread, hlater, _, hflows⟩ :=
          hflows.delivered hexclusive hsessions hstreams hold hliving hroom hserved hdeliver
        obtain rfl := Option.some.inj (hproc.symm.trans hlater)
        exact ⟨stop, unread, hflows⟩
      | _ => exact hspared (hsame_proc hproc) (by simp) (by simp) (by simp)
    · rw [hqueued] at hstatus
      cases hstatus
    · rw [hrejected] at hstatus
      cases hstatus
    · obtain rfl := Status.accepted.inj (hdone.symm.trans hstatus)
      obtain ⟨request, rest, server, effects, hrequest, rfl, hqueue, haccepted, rfl⟩ :=
        hmoves.pending_new hpending (by simp [hnone])
      exact ⟨_, _, hstreams.started hsessions hmoves hqueue hold hliving rfl hproc⟩
  · cases hstatus

theorem Streams.step {self next : Broker H} {event : Event} (hstreams : self.Streams) (hexclusive : self.Exclusive)
    (hsessions : self.Sessions) (hmoves : self.Moves event next) : next.Streams where
  healthy := hmoves.keeps.healthy hstreams.healthy
  prints := prints_step hsessions hstreams.prints hmoves
  flows := hstreams.flows_step hexclusive hsessions hmoves

/-- The three invariants hold in every run in which pids are fresh. -/
theorem streams_of_run {labels : List (Event × List Effect)} {broker : Broker H}
    (hrun : Run (Fires (guarded (fun s e => s.fresh e = true) step)) new labels broker) :
    broker.Exclusive ∧ broker.Sessions ∧ broker.Streams := by
  refine hrun.invariant (P := fun b => b.Exclusive ∧ b.Sessions ∧ b.Streams)
    ⟨new_exclusive, new_sessions, new_streams⟩ ?_
  rintro self label next ⟨hexclusive, hsessions, hstreams⟩ hfires
  obtain ⟨hstep, hfresh⟩ := fires_guarded_iff.mp hfires
  have hmoves := step_moves hstep
  exact ⟨hexclusive.step hmoves, hsessions.step hexclusive hmoves hfresh, hstreams.step hexclusive hsessions hmoves⟩

end Broker

end treenity.broker

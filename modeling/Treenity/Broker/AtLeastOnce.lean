import Treenity.Broker.Registered
import Treenity.Broker.Streams

open treenity.protocol treenity.data_structures treenity.ipc treenity.client treenity.server treenity.foundation

namespace treenity.broker.Broker

variable {H : StdHash} {client_id topic_name pref : Bytes}

/-- A process that subscribes under the name has printed the message. -/
def Seen (broker : Broker H) (client_id : Bytes) (msg : Message) : Prop :=
  ∃ (q : Nat) (proc : Process), broker.procs[q]? = some proc ∧ proc.command.subscriber = client_id ∧
    msg ∈ proc.output

/-- Every message before the offset that has the prefix was seen. -/
structure Covered (client_id topic_name pref : Bytes) (broker : Broker H) (offset : UInt32) : Prop where
  inside : offset.toNat ≤ (broker.server.log topic_name).length
  seen : ∀ (i : Nat) (msg : Message), (broker.server.log topic_name)[i]? = some msg → i < offset.toNat →
    pref.isPrefixOf msg.key = true → broker.Seen client_id msg

/-- Whoever subscribes under the name subscribes to the topic, with the prefix and
without `--offset`. -/
def alike (client_id topic_name pref : Bytes) : Event → Bool
  | .start _ command => command.subscriber != client_id ||
      (command.topic == topic_name && command.pref == pref && !command.has_offset)
  | _ => true

/-- The processes that subscribe under the name are alike. -/
def Alike (client_id topic_name pref : Bytes) (broker : Broker H) : Prop :=
  ∀ (q : Nat) (proc : Process), broker.procs[q]? = some proc → proc.command.subscriber = client_id →
    proc.command.topic = topic_name ∧ proc.command.pref = pref ∧ proc.command.has_offset = false

/-- Wherever an offset of the name is kept, in the index, in an ACK on its way or as
the start of a process, it is covered. -/
structure AtLeastOnce (client_id topic_name pref : Bytes) (broker : Broker H) : Prop where
  recorded : ∀ recorded, broker.server.client_index.find client_id = some recorded →
    Covered client_id topic_name pref broker recorded.offset
  acks : ∀ p next_offset hname, .ack p client_id next_offset hname ∈ broker.queue →
    Covered client_id topic_name pref broker next_offset
  started : ∀ (q : Nat) (proc : Process) start_offset, broker.procs[q]? = some proc →
    proc.command.subscriber = client_id → proc.status = .accepted start_offset →
      Covered client_id topic_name pref broker start_offset

theorem covered_zero (broker : Broker H) : Covered client_id topic_name pref broker 0 :=
  ⟨Nat.zero_le _, fun _ _ _ hbefore => absurd hbefore (Nat.not_lt_zero _)⟩

theorem Seen.step {self next : Broker H} {event : Event} {msg : Message} (hseen : self.Seen client_id msg)
    (hmoves : self.Moves event next) : next.Seen client_id msg := by
  obtain ⟨q, old, hold, hname, hmsg⟩ := hseen
  obtain ⟨proc, hproc, _, hcommand, _, houtput⟩ := hmoves.process_after hold
  exact ⟨q, proc, hproc, by rw [hcommand, hname], houtput.subset hmsg⟩

/-- What is covered stays covered: the log only grows at its end, and nothing that
was printed is taken back. -/
theorem Covered.step {self next : Broker H} {event : Event} {offset : UInt32}
    (hcovered : Covered client_id topic_name pref self offset) (hmoves : self.Moves event next) :
    Covered client_id topic_name pref next offset := by
  obtain ⟨more, hmore⟩ := hmoves.keeps.log topic_name
  refine ⟨?_, fun i msg hmsg hbefore hpref => ?_⟩
  · rw [← hmore, List.length_append]
    exact Nat.le_add_right_of_le hcovered.inside
  · rw [← hmore, List.getElem?_append_left (Nat.lt_of_lt_of_le hbefore hcovered.inside)] at hmsg
    exact (hcovered.seen i msg hmsg hbefore hpref).step hmoves

theorem Alike.step {self next : Broker H} {event : Event} (halike : Alike client_id topic_name pref self)
    (hmoves : self.Moves event next) (hevent : alike client_id topic_name pref event = true) :
    Alike client_id topic_name pref next := by
  intro q proc hproc hname
  rcases hmoves.process_before hproc with ⟨old, hold, _, hcommand, _⟩ | ⟨client_pid, command, runs, rfl, _, rfl⟩
  · rw [hcommand] at hname ⊢
    exact halike q old hold hname
  · have hname : command.subscriber = client_id := hname
    have hsame : command.topic = topic_name ∧ command.pref = pref ∧ command.has_offset = false := by
      simpa [alike, hname, and_assoc] using hevent
    exact hsame

/-- The offset that an accepted SUBSCRIBE of the name starts from is covered. -/
theorem AtLeastOnce.accepted {self : Broker H} (hsafe : AtLeastOnce client_id topic_name pref self)
    (halike : Alike client_id topic_name pref self) (hsessions : self.Sessions) {p : Nat} {request : Request.Subscribe}
    {hrequest : Request.parse_subscribe (Request.subscribe_payload request) = .ok request} {rest : List Sent}
    (hqueue : self.queue = .subscribe p request hrequest :: rest) {sub : Server.Subscription} {server : Server H}
    {effects : List Effect}
    (haccepted : self.server.Accepted (Request.subscribe_payload request) self.kernel.reader_active sub server effects
      request)
    (hname : sub.client_id = client_id) : Covered client_id topic_name pref self sub.start_offset := by
  obtain ⟨proc, hproc, _, _, rfl⟩ := hsessions.first hqueue
  have hclient : sub.client_id = proc.command.subscriber := by rw [haccepted.sub_eq]; rfl
  obtain ⟨_, _, hoffset⟩ := halike p proc hproc (hclient.symm.trans hname)
  have hunset : proc.request.offset = OFFSET_UNSET := by simp [Process.request, subscribe_request, hoffset]
  have hstart : sub.start_offset = Server.start_offset proc.request.offset
      (self.server.client_index.find sub.client_id) := by rw [haccepted.sub_eq]
  rw [hstart, hunset, hname]
  cases hfind : self.server.client_index.find client_id with
  | none => exact covered_zero self
  | some recorded => exact hsafe.recorded recorded hfind

/-- An ACK is written when the message it acknowledges, and so every message of the
stream before it, has been printed. -/
theorem Flows.covered {self : Broker H} {q : Nat} {proc : Process} {start_offset : UInt32} {stop : Nat}
    {unread : List Message} (hflows : self.Flows q proc start_offset stop unread) (hstreams : self.Streams)
    (hproc : self.procs[q]? = some proc) (hlog : (self.server.log proc.command.topic).length < 2 ^ 32 - 1)
    (hstarted : Covered proc.command.subscriber proc.command.topic proc.command.pref self start_offset)
    {next_offset : UInt32} (hphase : proc.phase = .acking next_offset) :
    Covered proc.command.subscriber proc.command.topic proc.command.pref self next_offset := by
  obtain ⟨seen, msg, houtput, rfl⟩ := (hstreams.prints q proc hproc).acking next_offset hphase
  have hindexed : Indexed (fun msg => msg.offset.toNat) (self.server.log proc.command.topic) :=
    Server.log_indexed hstreams.healthy (by omega)
  have hwindow := hflows.read
  rw [houtput, List.append_assoc, List.singleton_append] at hwindow
  have hmem : msg ∈ window (self.server.log proc.command.topic) proc.accepts start_offset.toNat stop := by
    simp [← hwindow]
  obtain ⟨hmsg, _, _⟩ := hindexed.pos_of_mem_window hmem
  obtain ⟨hinside, _⟩ := List.getElem?_eq_some_iff.mp hmsg
  have hnext : (msg.offset + 1).toNat = msg.offset.toNat + 1 := by
    rw [UInt32.toNat_add]
    exact Nat.mod_eq_of_lt (by simpa using show msg.offset.toNat + 1 < 2 ^ 32 by omega)
  refine ⟨by omega, fun i other hother hbefore hpref => ?_⟩
  rcases Nat.lt_or_ge i start_offset.toNat with hearlier | hlater
  · exact hstarted.seen i other hother hearlier hpref
  · refine ⟨q, proc, hproc, rfl, ?_⟩
    rw [houtput]
    exact hindexed.mem_of_window hwindow.symm hother hpref hlater (by omega)

theorem AtLeastOnce.recorded_step {self next : Broker H} {event : Event}
    (hsafe : AtLeastOnce client_id topic_name pref self) (halike : Alike client_id topic_name pref self)
    (hsessions : self.Sessions) (hmoves : self.Moves event next) :
    ∀ recorded, next.server.client_index.find client_id = some recorded →
      Covered client_id topic_name pref next recorded.offset := by
  intro recorded hfind
  refine Covered.step ?_ hmoves
  cases hmoves with
  | accepted hrequest hpending hqueue haccept haccepted =>
    dsimp only at hfind
    rw [haccepted.next_eq, HashMap.find_insert_or_assign] at hfind
    split at hfind
    · rename_i hname
      obtain rfl := Option.some.inj hfind
      exact hsafe.accepted halike hsessions hqueue haccepted hname.symm
    · exact hsafe.recorded recorded hfind
  | committed hname hpending hqueue hcommitted =>
    dsimp only at hfind
    rw [hcommitted.index] at hfind
    split at hfind
    · rename_i hsame
      obtain rfl := Option.some.inj hfind
      subst hsame
      exact hsafe.acks _ _ hname (hqueue ▸ List.mem_cons_self)
    · exact hsafe.recorded recorded hfind
  | disconnected hname hpending hqueue hdisconnected =>
    dsimp only at hfind
    rw [hdisconnected.index] at hfind
    split at hfind
    · rename_i hsame
      obtain rfl := Option.some.inj hfind
      have hknown := hdisconnected.known
      rw [← hsame] at hknown
      have hcovered := hsafe.recorded _ hknown
      exact hcovered
    · exact hsafe.recorded recorded hfind
  | quiet hpending hqueue hother hquiet =>
    dsimp only at hfind
    rw [hquiet.client_index] at hfind
    exact hsafe.recorded recorded hfind
  | register =>
    dsimp only at hfind
    rw [Server.register_subscriber_client_index] at hfind
    exact hsafe.recorded recorded hfind
  | _ => exact hsafe.recorded recorded hfind

theorem AtLeastOnce.acks_step {self next : Broker H} {event : Event}
    (hsafe : AtLeastOnce client_id topic_name pref self) (halike : Alike client_id topic_name pref self)
    (hsessions : self.Sessions) (hstreams : self.Streams) (hmoves : self.Moves event next)
    (hlog : (self.server.log topic_name).length < 2 ^ 32 - 1) :
    ∀ p next_offset hname, .ack p client_id next_offset hname ∈ next.queue →
      Covered client_id topic_name pref next next_offset := by
  intro p next_offset hname hsent
  refine Covered.step ?_ hmoves
  rcases hmoves.sent_before hsent with hold | ⟨_, _, _, _, hother, _⟩ | ⟨q, _, proc, _, _, _, hproc, halive, hacted, _, hnew⟩
  · exact hsafe.acks p next_offset hname hold
  · cases hother
  · cases hacted with
    | ack hphase =>
      cases List.mem_singleton.mp hnew
      obtain ⟨rfl, rfl, _⟩ := halike _ proc hproc rfl
      obtain ⟨start_offset, hstatus⟩ :=
        (hsessions.consistent _ proc hproc).accepted (by simp [hphase]) (by simp [hphase]) (by simp [hphase])
      obtain ⟨stop, unread, hflows⟩ :=
        hstreams.flows _ proc start_offset hproc halive hstatus (.inr (.inr ⟨_, hphase⟩)) hlog
      exact hflows.covered hstreams hproc hlog (hsafe.started _ proc start_offset hproc rfl hstatus) hphase
    | _ => simp at hnew

theorem AtLeastOnce.started_step {self next : Broker H} {event : Event}
    (hsafe : AtLeastOnce client_id topic_name pref self) (halike : Alike client_id topic_name pref self)
    (hsessions : self.Sessions) (hmoves : self.Moves event next) :
    ∀ (q : Nat) (proc : Process) start_offset, next.procs[q]? = some proc → proc.command.subscriber = client_id →
      proc.status = .accepted start_offset → Covered client_id topic_name pref next start_offset := by
  intro q proc start_offset hproc hname hstatus
  rcases hmoves.process_before hproc with ⟨old, hold, _, hcommand, _⟩ | ⟨_, _, _, _, _, rfl⟩
  · obtain ⟨found, hfound, hfollows⟩ := hsessions.process_after hmoves hold
    obtain rfl := Option.some.inj (hproc.symm.trans hfound)
    rw [hcommand] at hname
    rcases hfollows.status with hsame | ⟨_, hqueued⟩ | ⟨-, -, hrejected | ⟨sub, hnone, hpending, haccepted⟩⟩
    · exact (hsafe.started q old start_offset hold hname (hsame ▸ hstatus)).step hmoves
    · rw [hqueued] at hstatus
      cases hstatus
    · rw [hrejected] at hstatus
      cases hstatus
    · obtain rfl := Status.accepted.inj (haccepted.symm.trans hstatus)
      refine Covered.step ?_ hmoves
      obtain ⟨request, rest, server, effects, hrequest, _, hqueue, hdone, _⟩ :=
        hmoves.pending_new hpending (by simp [hnone])
      obtain ⟨sender, hsender, _, _, rfl⟩ := hsessions.first hqueue
      obtain rfl := Option.some.inj (hold.symm.trans hsender)
      apply hsafe.accepted halike hsessions hqueue hdone
      rw [hdone.sub_eq, ← hname]
      rfl
  · cases hstatus

theorem AtLeastOnce.step {self next : Broker H} {event : Event} (hsafe : AtLeastOnce client_id topic_name pref self)
    (halike : Alike client_id topic_name pref self) (hsessions : self.Sessions) (hstreams : self.Streams)
    (hmoves : self.Moves event next) (hlog : (self.server.log topic_name).length < 2 ^ 32 - 1) :
    AtLeastOnce client_id topic_name pref next where
  recorded := hsafe.recorded_step halike hsessions hmoves
  acks := hsafe.acks_step halike hsessions hstreams hmoves hlog
  started := hsafe.started_step halike hsessions hmoves

end treenity.broker.Broker

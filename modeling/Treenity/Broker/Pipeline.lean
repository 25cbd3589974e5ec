import Treenity.Broker.Feed
import Treenity.Broker.Serving
import Treenity.Client.Text

open treenity.protocol treenity.data_structures treenity.ipc treenity.client treenity.server treenity.foundation

namespace treenity.broker

/-- The steps of the server, of the worker for the name and of its process `q`, less
the end that a signal asks for. -/
def Event.internal (topic_name client_id : Bytes) (q : Nat) : Event → Bool
  | .handle | .register => true
  | .deliver name id taken => name == topic_name && id == client_id && taken
  | .act p action => p == q && (action == .handshake || action == .output || action == .ack)
  | _ => false

/-- What a process still has to do before it can read on. -/
def Phase.debt : Phase → Nat
  | .waiting => 1
  | .acking _ => 3
  | _ => 0

/-- Only a signal makes a process disconnect. -/
theorem Process.act_phase {self next : Process} {p : Nat} {action : Process.Action} {frames : List Sent}
    (hact : self.act p action = some (next, frames)) (haction : action ≠ .disconnect) :
    next.phase ≠ .disconnected := by
  cases action with
  | subscribe =>
    simp only [Process.act, Option.ite_none_right_eq_some, Option.some.injEq, Prod.mk.injEq] at hact
    obtain ⟨_, rfl, _⟩ := hact
    simp
  | handshake =>
    simp only [Process.act, Option.ite_none_right_eq_some, Option.map_eq_some_iff, Prod.mk.injEq] at hact
    obtain ⟨_, ⟨success, _⟩, _, rfl, _⟩ := hact
    cases success <;> simp
  | output =>
    simp only [Process.act, Option.ite_none_right_eq_some, Option.map_eq_some_iff] at hact
    obtain ⟨_, ⟨read, _⟩, _, hnext⟩ := hact
    cases read <;> (cases hnext; simp)
  | ack =>
    simp only [Process.act] at hact
    split at hact
    · cases hact
      simp
    · cases hact
  | disconnect => exact absurd rfl haction

namespace Broker

variable {H : StdHash}

/-- None of these can take another step. -/
def AtRest (self : Broker H) (topic_name client_id : Bytes) (q : Nat) : Prop :=
  ∀ event : Event, event.internal topic_name client_id q = true → self.step event = none

/-- The invariants of a run that is smooth for a name. -/
structure Piped (broker : Broker H) (topic_name client_id : Bytes) (q : Nat) : Prop where
  exclusive : broker.Exclusive
  sessions : broker.Sessions
  streams : broker.Streams
  unnamed : broker.server.topics.find [] = none
  serving : broker.Alone client_id q → broker.Serving topic_name client_id q

theorem Piped.step {self next : Broker H} {event : Event} {topic_name client_id : Bytes} {q : Nat}
    (hpiped : self.Piped topic_name client_id q) (hmoves : self.Moves event next)
    (hsmooth : self.smooth topic_name client_id event = true) : next.Piped topic_name client_id q := by
  obtain ⟨hfresh, htaken⟩ := Bool.and_eq_true_iff.mp hsmooth
  refine ⟨hpiped.exclusive.step hmoves, hpiped.sessions.step hpiped.exclusive hmoves hfresh,
    hpiped.streams.step hpiped.exclusive hpiped.sessions hmoves, hmoves.unnamed hpiped.unnamed, fun halone => ?_⟩
  have hbefore := hmoves.alone_before halone
  exact (hpiped.serving hbefore).step hpiped.sessions hpiped.streams hbefore hmoves (bne_iff_ne.mp htaken)

/-- The phases in which a subscriber prints what it is sent. -/
theorem Piped.active {self : Broker H} {topic_name client_id : Bytes} {q : Nat} (hpiped : self.Piped topic_name client_id q)
    (halone : self.Alone client_id q) {proc : Process} (hproc : self.procs[q]? = some proc) (halive : proc.alive = true)
    {start_offset : UInt32} (hstatus : proc.status = .accepted start_offset) (hphase : proc.phase ≠ .disconnected)
    (hlog : (self.server.log proc.command.topic).length < 2 ^ 32 - 1) : proc.Active := by
  have hcreated : proc.phase ≠ .created := by
    have hconsistent := hpiped.sessions.consistent q proc hproc
    rw [Process.Consistent, hstatus] at hconsistent
    exact hconsistent
  have hdone := (hpiped.serving halone).lasts proc start_offset hproc halive hstatus hlog
  unfold Process.Active
  cases hfound : proc.phase with
  | created => exact absurd hfound hcreated
  | done => exact absurd hfound hdone
  | disconnected => exact absurd hfound hphase
  | waiting => exact .inl rfl
  | listening => exact .inr (.inl rfl)
  | acking next_offset => exact .inr (.inr ⟨next_offset, rfl⟩)

theorem log_of_mono {handled posted : List (Bytes × Bytes)} (hgrows : handled <+: posted) :
    Server.log_of handled <+: Server.log_of posted := by
  obtain ⟨rest, rfl⟩ := hgrows
  rw [Server.log_of, Server.log_of, List.mapIdx_append]
  exact List.prefix_append _ _

theorem Feeds.log {self : Broker H} {topic_name : Bytes} {posted : List (Bytes × Bytes)}
    (hfeeds : self.Feeds topic_name posted) : ∃ handled, self.server.log topic_name = Server.log_of handled ∧
      handled ++ self.queue.filterMap (Sent.posts topic_name) = posted := by
  obtain ⟨handled, hcontents, hposted⟩ := hfeeds
  refine ⟨handled, ?_, hposted⟩
  rw [Server.log_eq_contents, hcontents]
  rfl

theorem Feeds.log_length_le {self : Broker H} {topic_name : Bytes} {posted : List (Bytes × Bytes)}
    (hfeeds : self.Feeds topic_name posted) : (self.server.log topic_name).length ≤ posted.length := by
  obtain ⟨handled, hlog, hposted⟩ := hfeeds.log
  rw [hlog, Server.log_of, List.length_mapIdx, ← hposted, List.length_append]
  omega

/-- A process that starts at the start of a topic has printed the first of the posted
messages that it accepts. -/
theorem Flows.output_prefix {self : Broker H} {q : Nat} {proc : Process} {stop : Nat} {unread : List Message}
    (hflows : self.Flows q proc 0 stop unread) {posted : List (Bytes × Bytes)}
    (hfeeds : self.Feeds proc.command.topic posted) :
    proc.output <+: (Server.log_of posted).filter proc.accepts := by
  obtain ⟨handled, hlog, hposted⟩ := hfeeds.log
  have hread : proc.output ++ unread = window (Server.log_of handled) proc.accepts 0 stop := hlog ▸ hflows.read
  have hseen := window_isPrefix (Server.log_of handled) proc.accepts 0 stop
  rw [List.drop_zero, ← hread] at hseen
  have hgrows := log_of_mono (hposted ▸ List.prefix_append handled _)
  exact ((List.prefix_append _ _).trans hseen).trans (hgrows.filter proc.accepts)

/-- How far the worker has come for the name. -/
def cursor (self : Broker H) (topic_name client_id : Bytes) : Nat :=
  ((self.server.entry topic_name client_id).map fun entry => entry.next_offset.toNat).getD 0

/-- The registration that waits. That of `q` may put its cursor back to the start. -/
def registering (self : Broker H) (q count : Nat) : Nat :=
  match self.pending with
  | none => 0
  | some (p, _) => if p = q then count + 1 else 1

/-- What is left to do until `count` messages have gone through the server, the worker
and the process `q`. -/
def backlog (self : Broker H) (topic_name client_id : Bytes) (q count : Nat) : Nat :=
  2 * self.queue.length + self.registering q count + (count - self.cursor topic_name client_id) +
    ((self.procs[q]?).map fun proc => 4 * (count - proc.output.length) + proc.phase.debt).getD 0

theorem Moves.queue_of_handle {self next : Broker H} (hmoves : self.Moves .handle next) :
    self.queue.length = next.queue.length + 1 ∧ self.pending = none := by
  cases hmoves with
  | rejected _ hpending hqueue => exact ⟨by simp [hqueue], hpending⟩
  | accepted _ hpending hqueue => exact ⟨by simp [hqueue], hpending⟩
  | committed _ hpending hqueue => exact ⟨by simp [hqueue], hpending⟩
  | disconnected _ hpending hqueue => exact ⟨by simp [hqueue], hpending⟩
  | quiet hpending hqueue => exact ⟨by simp [hqueue], hpending⟩

/-- The process `q` subscribed to the topic from its start, and is to print the posted
messages. -/
structure Listens (broker : Broker H) (topic_name client_id : Bytes) (q : Nat) (posted : List (Bytes × Bytes))
    (proc : Process) : Prop where
  piped : broker.Piped topic_name client_id q
  alone : broker.Alone client_id q
  feeds : broker.Feeds topic_name posted
  few : posted.length < 2 ^ 32 - 1
  found : broker.procs[q]? = some proc
  alive : proc.alive = true
  status : proc.status = .accepted 0
  topic : proc.command.topic = topic_name
  subscriber : proc.command.subscriber = client_id
  phase : proc.phase ≠ .disconnected

/-- Handling a frame leaves an accepted process and its entry as they are. -/
theorem Listens.handled {self next : Broker H} {topic_name client_id : Bytes} {q : Nat} {posted : List (Bytes × Bytes)}
    {proc : Process} (hlistens : self.Listens topic_name client_id q posted proc) (hmoves : self.Moves .handle next) :
    next.procs[q]? = some proc ∧ ∀ sub, next.pending ≠ some (q, sub) := by
  have hsessions := hlistens.piped.sessions
  cases hmoves with
  | rejected hrequest hpending hqueue =>
    have hp := hsessions.not_first hqueue hlistens.found hlistens.status
    exact ⟨by rw [hsessions.answer_getElem? hqueue, if_neg hp, hlistens.found], by simp⟩
  | accepted hrequest hpending hqueue =>
    have hp := hsessions.not_first hqueue hlistens.found hlistens.status
    exact ⟨by rw [hsessions.answer_getElem? hqueue, if_neg hp, hlistens.found], by simp [hp]⟩
  | _ => exact ⟨hlistens.found, by simp⟩

theorem Listens.serves {self : Broker H} {topic_name client_id : Bytes} {q : Nat} {posted : List (Bytes × Bytes)}
    {proc : Process} (hlistens : self.Listens topic_name client_id q posted proc) : self.Serves q topic_name client_id :=
  (hlistens.piped.serving hlistens.alone).serves proc 0 hlistens.found hlistens.alive hlistens.status hlistens.topic
    hlistens.subscriber hlistens.phase

/-- It has not printed more than was posted. -/
theorem Listens.output_length_le {self : Broker H} {topic_name client_id : Bytes} {q : Nat}
    {posted : List (Bytes × Bytes)} {proc : Process} (hlistens : self.Listens topic_name client_id q posted proc) :
    proc.output.length ≤ posted.length := by
  have hlog := Nat.lt_of_le_of_lt hlistens.feeds.log_length_le hlistens.few
  rw [← hlistens.topic] at hlog
  have hactive := hlistens.piped.active hlistens.alone hlistens.found hlistens.alive hlistens.status hlistens.phase hlog
  obtain ⟨stop, unread, hflows⟩ :=
    hlistens.piped.streams.flows q proc 0 hlistens.found hlistens.alive hlistens.status hactive hlog
  have hprinted := (hflows.output_prefix (hlistens.topic ▸ hlistens.feeds)).length_le
  have hfilter := List.length_filter_le proc.accepts (Server.log_of posted)
  rw [Server.log_of, List.length_mapIdx] at hfilter
  rw [Server.log_of] at hprinted
  omega

/-- A step of these parts goes on with the same process. -/
theorem Listens.later {self next : Broker H} {event : Event} {topic_name client_id : Bytes} {q : Nat}
    {posted : List (Bytes × Bytes)} {proc later : Process}
    (hlistens : self.Listens topic_name client_id q posted proc) (hmoves : self.Moves event next)
    (hinternal : event.internal topic_name client_id q = true) (hfound : next.procs[q]? = some later)
    (halive : later.alive = true) (hphase : later.phase ≠ .disconnected) :
    next.Listens topic_name client_id q posted later := by
  have hsmooth : self.smooth topic_name client_id event = true := by
    rw [smooth, Bool.and_eq_true, bne_iff_ne]
    cases event with
    | deliver name id taken =>
      simp only [Event.internal, Bool.and_eq_true, beq_iff_eq] at hinternal
      exact ⟨rfl, by simp [hinternal.2]⟩
    | start => cases hinternal
    | _ => exact ⟨rfl, by simp⟩
  have hposts : event.posts topic_name = none := by
    unfold Event.internal at hinternal
    split at hinternal <;> first | rfl | cases hinternal
  have hpiped := hlistens.piped.step hmoves hsmooth
  have hfeeds := hlistens.feeds.step hlistens.piped.unnamed hmoves
  rw [hposts, Option.toList_none, List.append_nil] at hfeeds
  obtain ⟨known, hknown, hfollows⟩ := hlistens.piped.sessions.process_after hmoves hlistens.found
  obtain rfl := Option.some.inj (hfound.symm.trans hknown)
  obtain ⟨_, hcommand, _⟩ := hfollows.kept
  refine ⟨hpiped, ?_, hfeeds, hlistens.few, hfound, halive, hfollows.accepted hlistens.status, ?_, ?_, hphase⟩
  · intro p other hother hname
    rcases hmoves.process_before hother with ⟨old, hold, _, hsame, _⟩ | ⟨_, _, _, rfl, _⟩
    · exact hlistens.alone p old hold (hsame ▸ hname)
    · cases hinternal
  · rw [hcommand, hlistens.topic]
  · rw [hcommand, hlistens.subscriber]

theorem Listens.backlog_eq {self : Broker H} {topic_name client_id : Bytes} {q : Nat} {posted : List (Bytes × Bytes)}
    {proc : Process} (hlistens : self.Listens topic_name client_id q posted proc) :
    self.backlog topic_name client_id q posted.length =
      2 * self.queue.length + self.registering q posted.length +
        (posted.length - self.cursor topic_name client_id) +
        (4 * (posted.length - proc.output.length) + proc.phase.debt) := by
  rw [backlog, hlistens.found]
  rfl

/-- Handling a frame takes it off the queue; only the registration of another process can
begin with it. -/
theorem Listens.handle_step {self next : Broker H} {topic_name client_id : Bytes} {q : Nat}
    {posted : List (Bytes × Bytes)} {proc : Process} (hlistens : self.Listens topic_name client_id q posted proc)
    (hmoves : self.Moves .handle next) :
    next.Listens topic_name client_id q posted proc ∧
      next.backlog topic_name client_id q posted.length < self.backlog topic_name client_id q posted.length := by
  obtain ⟨hfound, hpending⟩ := hlistens.handled hmoves
  obtain ⟨hqueue, hnone⟩ := hmoves.queue_of_handle
  have hnext := hlistens.later hmoves rfl hfound hlistens.alive hlistens.phase
  have hcursor : next.cursor topic_name client_id = self.cursor topic_name client_id := by
    rcases hnext.serves with ⟨sub, hsome⟩ | ⟨entry, hentry, _⟩
    · exact absurd hsome (hpending sub)
    · rw [cursor, cursor, hentry, hmoves.entry_old (by simp) (by simp) hentry]
  have hregistering : next.registering q posted.length ≤ 1 := by
    unfold registering
    split
    · omega
    · rename_i p sub hsome
      have hp : p ≠ q := by
        rintro rfl
        exact hpending sub hsome
      rw [if_neg hp]
  have hidle : self.registering q posted.length = 0 := by rw [registering, hnone]
  refine ⟨hnext, ?_⟩
  rw [hnext.backlog_eq, hlistens.backlog_eq, hcursor, hqueue, hidle]
  omega

/-- A registration ends; that of the process itself begins its deliveries. -/
theorem Listens.register_step {self next : Broker H} {topic_name client_id : Bytes} {q : Nat}
    {posted : List (Bytes × Bytes)} {proc : Process} (hlistens : self.Listens topic_name client_id q posted proc)
    (hmoves : self.Moves .register next) :
    next.Listens topic_name client_id q posted proc ∧
      next.backlog topic_name client_id q posted.length < self.backlog topic_name client_id q posted.length := by
  have hfound : next.procs[q]? = some proc := by
    cases hmoves
    exact hlistens.found
  have hnext := hlistens.later hmoves rfl hfound hlistens.alive hlistens.phase
  refine ⟨hnext, ?_⟩
  rw [hnext.backlog_eq, hlistens.backlog_eq]
  cases hmoves with
  | register hpending =>
    rename_i p sub
    simp only [registering, hpending]
    by_cases hp : p = q
    · rw [if_pos hp]
      omega
    · have hcursor : cursor { self with
          server := (self.server.register_subscriber sub (holder self.procs sub.consumer_ipc)).1, pending := none }
            topic_name client_id = self.cursor topic_name client_id := by
        rw [cursor, cursor, hlistens.piped.sessions.register_spares hlistens.alone hpending hp]
      rw [hcursor, if_neg hp]
      omega

/-- A turn of the worker takes the cursor over one of the posted messages. -/
theorem Listens.deliver_step {self next : Broker H} {topic_name client_id : Bytes} {q : Nat}
    {posted : List (Bytes × Bytes)} {proc : Process} (hlistens : self.Listens topic_name client_id q posted proc)
    (hmoves : self.Moves (.deliver topic_name client_id true) next) :
    ∃ later, next.Listens topic_name client_id q posted later ∧
      next.backlog topic_name client_id q posted.length < self.backlog topic_name client_id q posted.length := by
  have hlog := hlistens.feeds.log_length_le
  have hfew := hlistens.few
  have hinternal : Event.internal topic_name client_id q (.deliver topic_name client_id true) = true := by
    simp [Event.internal]
  have hlater : ∀ later, next.procs[q]? = some later → later.alive = true → later.phase ≠ .disconnected →
      next.Listens topic_name client_id q posted later := fun _ => hlistens.later hmoves hinternal
  cases hmoves with
  | deliver hfound hreads hdeliver =>
    rename_i reads topic served calls
    obtain ⟨more, hmore⟩ := perform_receive (calls.map Effect.syscall) self.procs q
    rw [hlistens.found, Option.map_some] at hmore
    have hnext := hlater _ hmore hlistens.alive hlistens.phase
    refine ⟨_, hnext, ?_⟩
    obtain ⟨sub, msg, hfind, hmsg, _, rfl⟩ :=
      (hlistens.piped.streams.healthy topic_name topic hfound).synced.deliver_next_cases hdeliver
    obtain ⟨hinside, _⟩ := List.getElem?_eq_some_iff.mp hmsg
    rw [Server.log_of_find hfound] at hlog
    have hsucc : (sub.next_offset + 1).toNat = sub.next_offset.toNat + 1 := by
      rw [UInt32.toNat_add]
      exact Nat.mod_eq_of_lt (by simpa using show sub.next_offset.toNat + 1 < 2 ^ 32 by omega)
    have hbefore : self.cursor topic_name client_id = sub.next_offset.toNat := by
      rw [cursor, Server.entry_of_find hfound, hfind]
      rfl
    rw [hnext.backlog_eq, hlistens.backlog_eq, hbefore]
    have hafter : cursor { self with
        server := self.server.set_topic topic_name { topic with
          subscribers := topic.subscribers.replace client_id (sub.served msg (true && reads)).1 }
        procs := (calls.map Effect.syscall).foldl perform self.procs } topic_name client_id =
          (sub.next_offset + 1).toNat := by
      rw [cursor, Server.set_topic_entry hfound, if_pos rfl, HashMap.find_replace_of_find hfind, if_pos rfl]
      rfl
    rw [hafter, hsucc]
    simp only [Process.receive, registering]
    omega

/-- An action of the process pays its debt, prints, or puts an ACK on its way. -/
theorem Listens.act_step {self next : Broker H} {topic_name client_id : Bytes} {q : Nat}
    {posted : List (Bytes × Bytes)} {proc moved : Process} {action : Process.Action} {frames : List Sent}
    (hlistens : self.Listens topic_name client_id q posted proc) (hact : proc.act q action = some (moved, frames))
    (hinternal : (Event.act q action).internal topic_name client_id q = true)
    (hnext : next = { self with queue := self.queue ++ frames, procs := self.procs.set q moved }) :
    next.Listens topic_name client_id q posted moved ∧
      next.backlog topic_name client_id q posted.length < self.backlog topic_name client_id q posted.length := by
  have hacted := Process.act_acted hact
  have hmoves : self.Moves (.act q action) next := hnext ▸ .act hlistens.found hlistens.alive hacted
  have hsignal : action ≠ .disconnect := by
    rintro rfl
    simp [Event.internal] at hinternal
  obtain ⟨hlt, _⟩ := List.getElem?_eq_some_iff.mp hlistens.found
  have hfound : next.procs[q]? = some moved := by
    rw [hnext]
    exact List.getElem?_set_self hlt
  have hliving : moved.alive = true := hacted.same.2.2.1.trans hlistens.alive
  have hlater := hlistens.later hmoves hinternal hfound hliving (Process.act_phase hact hsignal)
  refine ⟨hlater, ?_⟩
  have hprinted := hlater.output_length_le
  have hlog := Nat.lt_of_le_of_lt hlater.feeds.log_length_le hlater.few
  rw [← hlater.topic] at hlog
  have hdone := (hlater.piped.serving hlater.alone).lasts moved 0 hfound hliving hlater.status hlog
  have hcursor : next.cursor topic_name client_id = self.cursor topic_name client_id := by rw [cursor, cursor, hnext]
  have hregistering : next.registering q posted.length = self.registering q posted.length := by
    rw [registering, registering, hnext]
  have hqueue : next.queue.length = self.queue.length + frames.length := by rw [hnext, List.length_append]
  rw [hlater.backlog_eq, hlistens.backlog_eq, hcursor, hregistering, hqueue]
  cases hacted with
  | subscribe hphase =>
    have hconsistent := hlistens.piped.sessions.consistent q proc hlistens.found
    rw [Process.Consistent, hlistens.status] at hconsistent
    exact absurd hphase hconsistent
  | accepted hphase =>
    simp only [hphase, Phase.debt, List.length_nil]
    omega
  | refused => exact absurd rfl hdone
  | output hphase =>
    simp only [hphase, Phase.debt, List.length_nil, List.length_append, List.length_singleton] at hprinted ⊢
    omega
  | stop => exact absurd rfl hdone
  | ack hphase =>
    simp only [hphase, Phase.debt, List.length_singleton]
    omega
  | disconnect => exact absurd rfl hlater.phase

/-- Every step of these parts leaves less to do. -/
theorem Listens.step {self next : Broker H} {event : Event} {effects : List Effect} {topic_name client_id : Bytes}
    {q : Nat} {posted : List (Bytes × Bytes)} {proc : Process}
    (hlistens : self.Listens topic_name client_id q posted proc) (hstep : self.step event = some (next, effects))
    (hinternal : event.internal topic_name client_id q = true) :
    ∃ later, next.Listens topic_name client_id q posted later ∧
      next.backlog topic_name client_id q posted.length < self.backlog topic_name client_id q posted.length := by
  have hmoves := step_moves hstep
  cases event with
  | handle => exact ⟨proc, hlistens.handle_step hmoves⟩
  | register => exact ⟨proc, hlistens.register_step hmoves⟩
  | deliver name id taken =>
    simp only [Event.internal, Bool.and_eq_true, beq_iff_eq] at hinternal
    obtain ⟨⟨rfl, rfl⟩, rfl⟩ := hinternal
    exact hlistens.deliver_step hmoves
  | act p action =>
    have hp : p = q := by
      simp only [Event.internal, Bool.and_eq_true, beq_iff_eq] at hinternal
      exact hinternal.1
    subst hp
    simp only [Broker.step, hlistens.found, hlistens.alive, if_true, Option.map_eq_some_iff] at hstep
    obtain ⟨⟨moved, frames⟩, hact, heq⟩ := hstep
    exact ⟨moved, hlistens.act_step hact hinternal (Prod.mk.inj heq).1.symm⟩
  | _ => cases hinternal

/-- The message a PRODUCE for the topic would add to its log. -/
def next_message (server : Server H) (topic_name key value : Bytes) : Message :=
  ⟨to_uint32 (server.log topic_name).length, key, value⟩

end Broker

end treenity.broker

import Treenity.Broker.Exclusion

open treenity.protocol treenity.data_structures treenity.ipc treenity.client treenity.server treenity.foundation

namespace treenity.broker

/-- The frame is one that the process whose number it carries can have written. -/
def Sent.From (procs : List Process) : Sent → Prop
  | .subscribe p request _ => ∃ proc, procs[p]? = some proc ∧ proc.request = request
  | .ack p client_id _ _ => ∃ proc, procs[p]? = some proc ∧ proc.command.subscriber = client_id
  | .disconnect p client_id _ => ∃ proc, procs[p]? = some proc ∧ proc.command.subscriber = client_id
  | .other _ _ _ _ => True

/-- The process that subscribes with the frame. -/
def Sent.subscriber : Sent → Option Nat
  | .subscribe p _ _ => some p
  | _ => none

@[simp] theorem Sent.subscriber_subscribe (p : Nat) (request : Request.Subscribe)
    (hrequest : Request.parse_subscribe (Request.subscribe_payload request) = .ok request) :
    (Sent.subscribe p request hrequest).subscriber = some p := rfl

@[simp] theorem Sent.subscriber_ack (p : Nat) (client_id : Bytes) (next_offset : UInt32)
    (hname : client_id.length ≤ 32) : (Sent.ack p client_id next_offset hname).subscriber = none := rfl

@[simp] theorem Sent.subscriber_disconnect (p : Nat) (client_id : Bytes) (hname : client_id.length ≤ 32) :
    (Sent.disconnect p client_id hname).subscriber = none := rfl

@[simp] theorem Sent.subscriber_other (action : UInt8) (payload : Bytes)
    (hother : action.toNat ≠ 6 ∧ action.toNat ≠ 7 ∧ action.toNat ≠ 8) (hsize : payload.length < 2 ^ 32) :
    (Sent.other action payload hother hsize).subscriber = none := rfl

namespace Process

/-- How far a process has come and what its FIFO holds, by what has become of its
SUBSCRIBE. A FIFO that is gone holds nothing that matters. -/
def Consistent (self : Process) : Prop :=
  match self.status with
  | .unsent => self.phase = .created ∧ (self.alive = true → self.pipe = [])
  | .queued => self.phase = .waiting ∧ (self.alive = true → self.pipe = [])
  | .rejected => self.phase = .done ∨ self.phase = .waiting ∧
      (self.alive = true → ∃ status, status ≠ .SUCCESS ∧ self.pipe = Response.serialize_response status [])
  | .accepted _ => self.phase ≠ .created

/-- The subscription is the one that the SUBSCRIBE of the process was accepted with. -/
structure Made (proc : Process) (sub : Server.Subscription) : Prop where
  topic : proc.command.topic = sub.topic
  client_id : proc.command.subscriber = sub.client_id
  pref : proc.command.pref = sub.pref
  consumer_ipc : proc.fifo_path = sub.consumer_ipc
  status : proc.status = .accepted sub.start_offset

/-- The entry is one for the process in this table. -/
structure Has (proc : Process) (topic_name client_id : Bytes) (sub : ActiveSubscriber) : Prop where
  topic : proc.command.topic = topic_name
  client_id : proc.command.subscriber = client_id
  pref : proc.command.pref = sub.pref
  accepted : ∃ start_offset, proc.status = .accepted start_offset

theorem create_consistent (client_pid : UInt32) (command : Command) (runs : subscribes command = true) :
    (create client_pid command runs).Consistent := ⟨rfl, fun _ => rfl⟩

theorem Consistent.unsent {self : Process} (hconsistent : self.Consistent) (hphase : self.phase = .created) :
    self.status = .unsent := by
  unfold Consistent at hconsistent
  split at hconsistent
  · assumption
  · simp [hphase] at hconsistent
  · simp [hphase] at hconsistent
  · exact absurd hphase hconsistent

/-- A process that is in the loop has been accepted. -/
theorem Consistent.accepted {self : Process} (hconsistent : self.Consistent) (hcreated : self.phase ≠ .created)
    (hwaiting : self.phase ≠ .waiting) (hdone : self.phase ≠ .done) :
    ∃ start_offset, self.status = .accepted start_offset := by
  unfold Consistent at hconsistent
  split at hconsistent
  · exact absurd hconsistent.1 hcreated
  · exact absurd hconsistent.1 hwaiting
  · exact absurd hconsistent (by simp [hdone, hwaiting])
  · exact ⟨_, ‹_›⟩

/-- Only a process whose SUBSCRIBE was accepted can read a SUCCESS. -/
theorem Consistent.handshake {self : Process} (hconsistent : self.Consistent) (halive : self.alive = true)
    (hphase : self.phase = .waiting) {success : Bool} {left : Bytes}
    (hread : handshake self.pipe = some (success, left)) :
    (∃ start_offset, self.status = .accepted start_offset) ∨ self.status = .rejected ∧ success = false := by
  unfold Consistent at hconsistent
  split at hconsistent
  · simp [hphase] at hconsistent
  · rw [hconsistent.2 halive] at hread
    cases hread
  · rename_i hrejected
    rcases hconsistent with hdone | ⟨_, hanswer⟩
    · rw [hphase] at hdone
      cases hdone
    · obtain ⟨status, hstatus, hpipe⟩ := hanswer halive
      have hreads := handshake_serialize_response status []
      rw [List.append_nil, ← hpipe, hread] at hreads
      obtain ⟨rfl, _⟩ := Prod.mk.inj (Option.some.inj hreads)
      exact .inr ⟨hrejected, by simpa using hstatus⟩
  · exact .inl ⟨_, ‹_›⟩

theorem consistent_of_accepted {self : Process} {start_offset : UInt32} (hstatus : self.status = .accepted start_offset)
    (hphase : self.phase ≠ .created) : self.Consistent := by
  rw [Consistent, hstatus]
  exact hphase

theorem Consistent.acted {self next : Process} {p : Nat} {sent : List Sent} (hconsistent : self.Consistent)
    (halive : self.alive = true) (hacted : Acted self p next sent) : next.Consistent := by
  have hloop := hconsistent.accepted
  cases hacted with
  | subscribe hphase =>
    have hunsent := hconsistent.unsent hphase
    unfold Consistent at hconsistent
    rw [hunsent] at hconsistent
    exact ⟨rfl, hconsistent.2⟩
  | accepted hphase hread =>
    rcases hconsistent.handshake halive hphase hread with ⟨_, hstatus⟩ | ⟨_, hsuccess⟩
    · exact consistent_of_accepted hstatus (by simp)
    · cases hsuccess
  | refused hphase hread =>
    rcases hconsistent.handshake halive hphase hread with ⟨_, hstatus⟩ | ⟨hrejected, _⟩
    · exact consistent_of_accepted hstatus (by simp)
    · simp [Consistent, hrejected]
  | output hphase =>
    obtain ⟨_, hstatus⟩ := hloop (by simp [hphase]) (by simp [hphase]) (by simp [hphase])
    exact consistent_of_accepted hstatus (by simp)
  | stop hphase =>
    obtain ⟨_, hstatus⟩ := hloop (by simp [hphase]) (by simp [hphase]) (by simp [hphase])
    exact consistent_of_accepted hstatus (by simp)
  | ack hphase =>
    obtain ⟨_, hstatus⟩ := hloop (by simp [hphase]) (by simp [hphase]) (by simp [hphase])
    exact consistent_of_accepted hstatus (by simp)
  | disconnect hphase =>
    obtain ⟨_, hstatus⟩ := hloop (by simp [hphase]) (by simp [hphase]) (by simp [hphase])
    exact consistent_of_accepted hstatus (by simp)

theorem Consistent.kill {self : Process} (hconsistent : self.Consistent) : self.kill.Consistent := by
  cases hstatus : self.status with
  | unsent =>
    simp only [Consistent, Process.kill, hstatus] at hconsistent ⊢
    exact ⟨hconsistent.1, by simp⟩
  | queued =>
    simp only [Consistent, Process.kill, hstatus] at hconsistent ⊢
    exact ⟨hconsistent.1, by simp⟩
  | rejected =>
    simp only [Consistent, Process.kill, hstatus] at hconsistent ⊢
    exact hconsistent.imp id (fun h => ⟨h.1, by simp⟩)
  | accepted => simpa only [Consistent, Process.kill, hstatus] using hconsistent

/-- A process that waits hears of a refusal if it is still alive. -/
theorem Consistent.rejected {self : Process} (hconsistent : self.Consistent) (hqueued : self.status = .queued)
    {code : StatusCode} (hcode : code ≠ .SUCCESS) {heard : Prop} [Decidable heard] (hheard : self.alive = true → heard) :
    ((if heard then self.receive (Response.serialize_response code []) else self).note .rejected).Consistent := by
  rw [Consistent, hqueued] at hconsistent
  obtain ⟨hphase, hpipe⟩ := hconsistent
  refine .inr ⟨?_, ?_⟩
  · split <;> exact hphase
  · intro halive
    have hliving : self.alive = true := by
      revert halive
      split <;> exact id
    rw [if_pos (hheard hliving)]
    exact ⟨code, hcode, by simp [note, receive, hpipe hliving]⟩

end Process

/-- The processes write only their own frames. -/
theorem Acted.written {proc moved : Process} {p : Nat} {frames : List Sent} (hacted : Acted proc p moved frames)
    {procs : List Process} (hproc : procs[p]? = some proc) : ∀ sent ∈ frames, sent.From procs := by
  cases hacted with
  | subscribe => exact List.forall_mem_singleton.mpr ⟨proc, hproc, rfl⟩
  | ack => exact List.forall_mem_singleton.mpr ⟨proc, hproc, rfl⟩
  | disconnect => exact List.forall_mem_singleton.mpr ⟨proc, hproc, rfl⟩
  | _ => simp

namespace Broker

variable {H : StdHash}

/-- No SUBSCRIBE of a process with this pid is on its way, in the server FIFO or
between its answer and its registration. -/
def settled (self : Broker H) (client_pid : UInt32) : Bool :=
  self.queue.all (fun sent =>
    match sent with
    | .subscribe _ request _ => request.pid != client_pid
    | _ => true) &&
    self.pending.all (fun (_, sub) => sub.consumer_ipc != client_fifo_path client_pid)

/-- A pid is given out again only when the SUBSCRIBE of its last owner is settled. -/
def fresh (self : Broker H) : Event → Bool
  | .start client_pid _ => self.settled client_pid
  | _ => true

theorem settled_queue {self : Broker H} {client_pid : UInt32} (hsettled : self.settled client_pid = true) {p : Nat}
    {request : Request.Subscribe}
    {hrequest : Request.parse_subscribe (Request.subscribe_payload request) = .ok request}
    (hsent : .subscribe p request hrequest ∈ self.queue) :
    client_fifo_path request.pid ≠ client_fifo_path client_pid := by
  intro hpath
  have hall := List.all_eq_true.mp (Bool.and_eq_true_iff.mp hsettled).1 _ hsent
  simp [client_fifo_path_injective hpath] at hall

theorem settled_pending {self : Broker H} {client_pid : UInt32} (hsettled : self.settled client_pid = true) {p : Nat}
    {sub : Server.Subscription} (hpending : self.pending = some (p, sub)) :
    sub.consumer_ipc ≠ client_fifo_path client_pid := by
  have hall := (Bool.and_eq_true_iff.mp hsettled).2
  simpa [hpending] using hall

/-- The frames on their way are those of the processes, each has sent one SUBSCRIBE
at most, and what the server has of a process it has from that. -/
structure Sessions (broker : Broker H) : Prop where
  genuine : ∀ sent ∈ broker.queue, sent.From broker.procs
  once : (broker.queue.filterMap Sent.subscriber).Nodup
  queued : ∀ p ∈ broker.queue.filterMap Sent.subscriber,
    ∃ proc, broker.procs[p]? = some proc ∧ proc.status = .queued
  own : ∀ p request hrequest, .subscribe p request hrequest ∈ broker.queue →
    ∀ q, Live broker.procs q (client_fifo_path request.pid) → q = p
  pending : ∀ p sub, broker.pending = some (p, sub) → (∀ q, Live broker.procs q sub.consumer_ipc → q = p) ∧
    ∃ proc, broker.procs[p]? = some proc ∧ proc.Made sub
  consistent : ∀ (p : Nat) (proc : Process), broker.procs[p]? = some proc → proc.Consistent
  opened : ∀ topic_name client_id sub q, broker.server.entry topic_name client_id = some sub →
    sub.fifo_fd = some q → ∃ proc, broker.procs[q]? = some proc ∧ proc.Has topic_name client_id sub

theorem new_sessions : (new : Broker H).Sessions := by
  refine ⟨?_, ?_, ?_, ?_, ?_, ?_, ?_⟩ <;> simp [new]

/-- An answer reaches the process that sent the SUBSCRIBE, if it reaches anybody. -/
theorem Sessions.answer_getElem? {self : Broker H} (hsessions : self.Sessions) {p : Nat} {request : Request.Subscribe}
    {hrequest : Request.parse_subscribe (Request.subscribe_payload request) = .ok request} {rest : List Sent}
    (hqueue : self.queue = .subscribe p request hrequest :: rest) (code : StatusCode) (status : Status) (q : Nat) :
    ((self.answer request code).modify p (Process.note status))[q]? =
      if p = q then
        self.procs[q]?.map fun proc =>
          (if holder self.procs (client_fifo_path request.pid) = some p then
            proc.receive (Response.serialize_response code [])
          else proc).note status
      else self.procs[q]? := by
  rw [List.getElem?_modify, answer, post_getElem?]
  by_cases hp : p = q
  · subst hp
    simp [Function.comp_def]
  · have hnobody : holder self.procs (client_fifo_path request.pid) ≠ some q := by
      intro hholder
      have hmem : .subscribe p request hrequest ∈ self.queue := hqueue ▸ List.mem_cons_self
      exact hp (hsessions.own p request hrequest hmem q (holder_some hholder)).symm
    simp [hp, hnobody]

/-- A live process that waits for the answer to its SUBSCRIBE gets it. -/
theorem Sessions.holder_eq {self : Broker H} (hsessions : self.Sessions) {p : Nat} {request : Request.Subscribe}
    {hrequest : Request.parse_subscribe (Request.subscribe_payload request) = .ok request} {rest : List Sent}
    (hqueue : self.queue = .subscribe p request hrequest :: rest) {proc : Process}
    (hproc : self.procs[p]? = some proc) (halive : proc.alive = true) :
    holder self.procs (client_fifo_path request.pid) = some p := by
  have hmem : .subscribe p request hrequest ∈ self.queue := hqueue ▸ List.mem_cons_self
  obtain ⟨sender, hsender, hmade⟩ := hsessions.genuine _ hmem
  obtain rfl := Option.some.inj (hproc.symm.trans hsender)
  have hpath : client_fifo_path request.pid = proc.fifo_path := by
    rw [← hmade]
    rfl
  have hsome := holder_isSome hproc halive
  rw [← hpath] at hsome
  obtain ⟨q, hq⟩ := Option.isSome_iff_exists.mp hsome
  rw [hq, hsessions.own p request hrequest hmem q (holder_some hq)]

/-- What a step makes of the process `q`, as far as its session goes. Its SUBSCRIBE
is sent once and answered once. -/
structure Follows (before after : Broker H) (q : Nat) (old proc : Process) : Prop where
  kept : Kept old proc
  consistent : proc.Consistent
  disconnected : old.phase = .disconnected → proc.phase = .disconnected
  status : proc.status = old.status ∨ old.status = .unsent ∧ proc.status = .queued ∨
    old.status = .queued ∧ (∃ request hrequest, before.queue = .subscribe q request hrequest :: after.queue) ∧
      (proc.status = .rejected ∨
        ∃ sub, before.pending = none ∧ after.pending = some (q, sub) ∧ proc.status = .accepted sub.start_offset)

theorem Follows.accepted {self next : Broker H} {q : Nat} {old proc : Process} (hfollows : Follows self next q old proc)
    {start_offset : UInt32} (haccepted : old.status = .accepted start_offset) :
    proc.status = .accepted start_offset := by
  rcases hfollows.status with hsame | ⟨hunsent, _⟩ | ⟨hqueued, _⟩
  · rw [hsame, haccepted]
  · rw [hunsent] at haccepted
    cases haccepted
  · rw [hqueued] at haccepted
    cases haccepted

theorem Follows.same {self next : Broker H} (q : Nat) {old : Process} (hconsistent : old.Consistent) :
    Follows self next q old old := ⟨.refl old, hconsistent, id, .inl rfl⟩

theorem Sessions.acted {self next : Broker H} {p : Nat} {proc moved : Process} {sent : List Sent}
    (hconsistent : proc.Consistent) (halive : proc.alive = true) (hacted : Acted proc p moved sent) :
    Follows self next p proc moved := by
  refine ⟨hacted.kept, hconsistent.acted halive hacted, ?_, ?_⟩
  · intro hdisconnected
    cases hacted <;> simp_all
  · cases hacted with
    | subscribe hphase => exact .inr (.inl ⟨hconsistent.unsent hphase, rfl⟩)
    | _ => exact .inl rfl

/-- The first SUBSCRIBE in the queue is that of a process which waits for it. -/
theorem Sessions.first {self : Broker H} (hsessions : self.Sessions) {p : Nat} {request : Request.Subscribe}
    {hrequest : Request.parse_subscribe (Request.subscribe_payload request) = .ok request} {rest : List Sent}
    (hqueue : self.queue = .subscribe p request hrequest :: rest) :
    ∃ proc, self.procs[p]? = some proc ∧ proc.status = .queued ∧ proc.phase = .waiting ∧ proc.request = request := by
  have hmem : .subscribe p request hrequest ∈ self.queue := hqueue ▸ List.mem_cons_self
  obtain ⟨proc, hproc, hqueued⟩ := hsessions.queued p (List.mem_filterMap.mpr ⟨_, hmem, rfl⟩)
  obtain ⟨sender, hsender, hmade⟩ := hsessions.genuine _ hmem
  obtain rfl := Option.some.inj (hproc.symm.trans hsender)
  have hconsistent := hsessions.consistent p proc hproc
  rw [Process.Consistent, hqueued] at hconsistent
  exact ⟨proc, hproc, hqueued, hconsistent.1, hmade⟩

theorem Sessions.not_first {self : Broker H} (hsessions : self.Sessions) {p : Nat} {request : Request.Subscribe}
    {hrequest : Request.parse_subscribe (Request.subscribe_payload request) = .ok request} {rest : List Sent}
    (hqueue : self.queue = .subscribe p request hrequest :: rest) {q : Nat} {proc : Process}
    (hproc : self.procs[q]? = some proc) {start_offset : UInt32} (haccepted : proc.status = .accepted start_offset) :
    p ≠ q := by
  rintro rfl
  obtain ⟨found, hfound, hqueued, _⟩ := hsessions.first hqueue
  obtain rfl := Option.some.inj (hproc.symm.trans hfound)
  rw [hqueued] at haccepted
  cases haccepted

theorem Sessions.process_after {self next : Broker H} {event : Event} (hsessions : self.Sessions)
    (hmoves : self.Moves event next) {q : Nat} {old : Process} (hold : self.procs[q]? = some old) :
    ∃ proc, next.procs[q]? = some proc ∧ Follows self next q old proc := by
  have hconsistent := hsessions.consistent q old hold
  cases hmoves with
  | start =>
    obtain ⟨hlt, _⟩ := List.getElem?_eq_some_iff.mp hold
    exact ⟨old, by rw [List.getElem?_append_left hlt, hold], .same q hconsistent⟩
  | act hproc halive hacted =>
    rename_i p action proc moved sent
    by_cases hp : p = q
    · subst hp
      obtain rfl := Option.some.inj (hproc.symm.trans hold)
      obtain ⟨hlt, _⟩ := List.getElem?_eq_some_iff.mp hold
      exact ⟨moved, List.getElem?_set_self hlt, Sessions.acted hconsistent halive hacted⟩
    · exact ⟨old, by rw [List.getElem?_set_ne hp, hold], .same q hconsistent⟩
  | exit p =>
    by_cases hp : p = q
    · exact ⟨old.kill, by simp [hp, hold], .kill old, hconsistent.kill, id, .inl rfl⟩
    · exact ⟨old, by simp [hp, hold], .same q hconsistent⟩
  | rejected hrequest hpending hqueue hstatus =>
    rename_i p request rest code
    by_cases hp : p = q
    · subst hp
      obtain ⟨found, hfound, hqueued, hphase, _⟩ := hsessions.first hqueue
      obtain rfl := Option.some.inj (hold.symm.trans hfound)
      refine ⟨_, by rw [hsessions.answer_getElem? hqueue, if_pos rfl, hold]; rfl, ?_, ?_, ?_, ?_⟩
      · split <;> exact ⟨rfl, rfl, id, List.prefix_rfl⟩
      · exact hconsistent.rejected hqueued hstatus (hsessions.holder_eq hqueue hold)
      · simp [hphase]
      · exact .inr (.inr ⟨hqueued, ⟨request, hrequest, hqueue⟩, .inl rfl⟩)
    · exact ⟨old, by rw [hsessions.answer_getElem? hqueue, if_neg hp, hold], .same q hconsistent⟩
  | accepted hrequest hpending hqueue haccept haccepted =>
    rename_i p request rest sub server effects
    by_cases hp : p = q
    · subst hp
      obtain ⟨found, hfound, hqueued, hphase, _⟩ := hsessions.first hqueue
      obtain rfl := Option.some.inj (hold.symm.trans hfound)
      refine ⟨_, by rw [hsessions.answer_getElem? hqueue, if_pos rfl, hold]; rfl, ?_, ?_, ?_, ?_⟩
      · split <;> exact ⟨rfl, rfl, id, List.prefix_rfl⟩
      · apply Process.consistent_of_accepted rfl
        split <;> simp [Process.note, Process.receive, hphase]
      · simp [hphase]
      · exact .inr (.inr ⟨hqueued, ⟨request, hrequest, hqueue⟩, .inr ⟨sub, hpending, rfl, rfl⟩⟩)
    · exact ⟨old, by rw [hsessions.answer_getElem? hqueue, if_neg hp, hold], .same q hconsistent⟩
  | deliver hfound hreads hdeliver =>
    rcases deliver_perform hdeliver self.procs with hnobody | ⟨sub, p, bytes, hfind, hfd, _, hwritten⟩
    · exact ⟨old, by dsimp only; rw [hnobody, hold], .same q hconsistent⟩
    · dsimp only
      rw [hwritten, List.getElem?_modify]
      by_cases hp : p = q
      · subst hp
        obtain ⟨proc, hproc, hhas⟩ := hsessions.opened _ _ sub p (by rw [Server.entry_of_find hfound]; exact hfind) hfd
        obtain rfl := Option.some.inj (hold.symm.trans hproc)
        obtain ⟨start_offset, haccepted⟩ := hhas.accepted
        refine ⟨old.receive bytes, by simp [hold], .receive bytes old, ?_, id, .inl rfl⟩
        rw [Process.Consistent, haccepted] at hconsistent
        exact Process.consistent_of_accepted haccepted hconsistent
      · exact ⟨old, by simp [hp, hold], .same q hconsistent⟩
  | _ => exact ⟨old, hold, .same q hconsistent⟩

/-- Where a frame in the server FIFO comes from. -/
theorem Moves.sent_before {self next : Broker H} {event : Event} (hmoves : self.Moves event next) {sent : Sent}
    (hsent : sent ∈ next.queue) :
    sent ∈ self.queue ∨
      (∃ action payload hother hsize, sent = .other action payload hother hsize ∧ event = .request action payload) ∨
      ∃ p action proc moved frames, event = .act p action ∧ self.procs[p]? = some proc ∧ proc.alive = true ∧
        Acted proc p moved frames ∧ next.procs[p]? = some moved ∧ sent ∈ frames := by
  cases hmoves with
  | request hother hsize =>
    rcases List.mem_append.mp hsent with hold | hnew
    · exact .inl hold
    · exact .inr (.inl ⟨_, _, hother, hsize, List.mem_singleton.mp hnew, rfl⟩)
  | act hproc halive hacted =>
    rcases List.mem_append.mp hsent with hold | hnew
    · exact .inl hold
    · obtain ⟨hlt, _⟩ := List.getElem?_eq_some_iff.mp hproc
      exact .inr (.inr ⟨_, _, _, _, _, rfl, hproc, halive, hacted, List.getElem?_set_self hlt, hnew⟩)
  | rejected _ _ hqueue => exact .inl (hqueue ▸ List.mem_cons_of_mem _ hsent)
  | accepted _ _ hqueue => exact .inl (hqueue ▸ List.mem_cons_of_mem _ hsent)
  | committed _ _ hqueue => exact .inl (hqueue ▸ List.mem_cons_of_mem _ hsent)
  | disconnected _ _ hqueue => exact .inl (hqueue ▸ List.mem_cons_of_mem _ hsent)
  | quiet _ hqueue => exact .inl (hqueue ▸ List.mem_cons_of_mem _ hsent)
  | _ => exact .inl hsent

theorem Moves.from_after {self next : Broker H} {event : Event} (hmoves : self.Moves event next) {sent : Sent}
    (hfrom : sent.From self.procs) : sent.From next.procs := by
  cases sent with
  | subscribe p request hrequest =>
    obtain ⟨old, hold, hmade⟩ := hfrom
    obtain ⟨proc, hproc, hpid, hcommand, _⟩ := hmoves.process_after hold
    exact ⟨proc, hproc, by rw [← hmade, Process.request, Process.request, hpid, hcommand]⟩
  | ack p client_id next_offset hname =>
    obtain ⟨old, hold, hmade⟩ := hfrom
    obtain ⟨proc, hproc, _, hcommand, _⟩ := hmoves.process_after hold
    exact ⟨proc, hproc, by rw [hcommand, hmade]⟩
  | disconnect p client_id hname =>
    obtain ⟨old, hold, hmade⟩ := hfrom
    obtain ⟨proc, hproc, _, hcommand, _⟩ := hmoves.process_after hold
    exact ⟨proc, hproc, by rw [hcommand, hmade]⟩
  | other => trivial

theorem Sessions.genuine_step {self next : Broker H} {event : Event} (hsessions : self.Sessions)
    (hmoves : self.Moves event next) : ∀ sent ∈ next.queue, sent.From next.procs := by
  intro sent hsent
  rcases hmoves.sent_before hsent with hold | ⟨_, _, _, _, rfl, _⟩ | ⟨p, action, proc, moved, frames, _, hproc, _, hacted, _, hnew⟩
  · exact hmoves.from_after (hsessions.genuine sent hold)
  · trivial
  · exact hmoves.from_after (hacted.written hproc sent hnew)

/-- The subscribers on their way: one joins them when it writes its SUBSCRIBE, and
the first leaves when the server takes it. -/
theorem Moves.subscribers_after {self next : Broker H} {event : Event} (hmoves : self.Moves event next) :
    next.queue.filterMap Sent.subscriber <:+ self.queue.filterMap Sent.subscriber ∨
      ∃ p proc, self.procs[p]? = some proc ∧ proc.phase = .created ∧
        next.queue.filterMap Sent.subscriber = self.queue.filterMap Sent.subscriber ++ [p] ∧
        ∃ moved, next.procs[p]? = some moved ∧ moved.status = .queued := by
  have htail : ∀ {sent : Sent} {rest : List Sent}, self.queue = sent :: rest →
      rest.filterMap Sent.subscriber <:+ self.queue.filterMap Sent.subscriber := by
    intro sent rest hqueue
    rw [hqueue]
    exact (List.suffix_cons sent rest).filterMap _
  cases hmoves with
  | request => exact .inl (by simp [List.filterMap_cons])
  | act hproc halive hacted =>
    obtain ⟨hlt, _⟩ := List.getElem?_eq_some_iff.mp hproc
    cases hacted with
    | subscribe hphase =>
      exact .inr ⟨_, _, hproc, hphase, by simp, _,
        List.getElem?_set_self hlt, rfl⟩
    | _ => exact .inl (by simp [List.filterMap_cons])
  | rejected _ _ hqueue => exact .inl (htail hqueue)
  | accepted _ _ hqueue => exact .inl (htail hqueue)
  | committed _ _ hqueue => exact .inl (htail hqueue)
  | disconnected _ _ hqueue => exact .inl (htail hqueue)
  | quiet _ hqueue => exact .inl (htail hqueue)
  | _ => exact .inl List.suffix_rfl

theorem Sessions.once_step {self next : Broker H} {event : Event} (hsessions : self.Sessions)
    (hmoves : self.Moves event next) : (next.queue.filterMap Sent.subscriber).Nodup := by
  rcases hmoves.subscribers_after with hsuffix | ⟨p, proc, hproc, hphase, hnext, _⟩
  · exact hsessions.once.sublist hsuffix.sublist
  · rw [hnext, List.nodup_append]
    refine ⟨hsessions.once, List.nodup_singleton p, ?_⟩
    rintro q hq _ hp rfl
    obtain rfl := List.mem_singleton.mp hp
    obtain ⟨found, hfound, hqueued⟩ := hsessions.queued q hq
    obtain rfl := Option.some.inj (hproc.symm.trans hfound)
    rw [(hsessions.consistent q proc hproc).unsent hphase] at hqueued
    cases hqueued

theorem Sessions.queued_step {self next : Broker H} {event : Event} (hsessions : self.Sessions)
    (hmoves : self.Moves event next) : ∀ p ∈ next.queue.filterMap Sent.subscriber,
      ∃ proc, next.procs[p]? = some proc ∧ proc.status = .queued := by
  have hold : ∀ p ∈ self.queue.filterMap Sent.subscriber, p ∈ next.queue.filterMap Sent.subscriber →
      ∃ proc, next.procs[p]? = some proc ∧ proc.status = .queued := by
    intro p hbefore hafter
    obtain ⟨old, hold, hqueued⟩ := hsessions.queued p hbefore
    obtain ⟨proc, hproc, hfollows⟩ := hsessions.process_after hmoves hold
    refine ⟨proc, hproc, ?_⟩
    rcases hfollows.status with hsame | ⟨_, hsent⟩ | ⟨_, ⟨request, hrequest, hqueue⟩, _⟩
    · rw [hsame, hqueued]
    · exact hsent
    · have honce := hsessions.once
      rw [hqueue] at honce
      exact absurd hafter (List.nodup_cons.mp honce).1
  intro p hp
  rcases hmoves.subscribers_after with hsuffix | ⟨q, _, _, _, hnext, hmoved⟩
  · exact hold p (hsuffix.subset hp) hp
  · have hcases := hp
    rw [hnext, List.mem_append, List.mem_singleton] at hcases
    rcases hcases with hbefore | rfl
    · exact hold p hbefore hp
    · exact hmoved

/-- A process that becomes live now has a FIFO that no SUBSCRIBE on its way asks to
be opened. -/
theorem live_of_unsettled {self next : Broker H} {event : Event} (hmoves : self.Moves event next)
    (hfresh : self.fresh event = true) {path : Bytes}
    (hunsettled : ∀ client_pid, self.settled client_pid = true → path ≠ client_fifo_path client_pid) {q : Nat}
    (hlive : Live next.procs q path) : Live self.procs q path := by
  obtain ⟨proc, hproc, halive, hpath⟩ := hlive
  rcases hmoves.process_before hproc with ⟨old, hold, hpid, _, hbefore, _⟩ | ⟨client_pid, command, runs, hevent, _, hnew⟩
  · exact ⟨old, hold, hbefore halive, by rw [← hpath, Process.fifo_path, Process.fifo_path, hpid]⟩
  · subst hevent
    refine absurd ?_ (hunsettled client_pid hfresh)
    rw [← hpath, hnew]
    rfl

theorem Sessions.own_step {self next : Broker H} {event : Event} (hsessions : self.Sessions)
    (hexclusive : self.Exclusive) (hmoves : self.Moves event next) (hfresh : self.fresh event = true) :
    ∀ p request hrequest, .subscribe p request hrequest ∈ next.queue →
      ∀ q, Live next.procs q (client_fifo_path request.pid) → q = p := by
  intro p request hrequest hsent q hlive
  rcases hmoves.sent_before hsent with hold | ⟨_, _, _, _, hother, _⟩ |
      ⟨p', action, proc, moved, frames, rfl, hproc, halive, hacted, _, hnew⟩
  · refine hsessions.own p request hrequest hold q (live_of_unsettled hmoves hfresh ?_ hlive)
    exact fun client_pid hsettled => settled_queue hsettled hold
  · cases hother
  · -- The SUBSCRIBE is being written now, by the live process it names.
    have hown : p = p' ∧ request = proc.request := by
      cases hacted with
      | subscribe => simpa using hnew
      | _ => simp at hnew
    obtain ⟨rfl, rfl⟩ := hown
    obtain ⟨other, hother, hliving, hsame⟩ := hlive
    rcases hmoves.process_before hother with ⟨old, hold, hpid, _, hbefore, _⟩ | ⟨_, _, _, hevent, _⟩
    · have hpath : old.fifo_path = client_fifo_path proc.request.pid := by
        rw [← hsame, Process.fifo_path, Process.fifo_path, hpid]
      exact hexclusive.distinct q p _ ⟨old, hold, hbefore hliving, hpath⟩ ⟨proc, hproc, halive, rfl⟩
    · cases hevent

theorem Sessions.pending_step {self next : Broker H} {event : Event} (hsessions : self.Sessions)
    (hmoves : self.Moves event next) (hfresh : self.fresh event = true) : ∀ p sub, next.pending = some (p, sub) →
      (∀ q, Live next.procs q sub.consumer_ipc → q = p) ∧
        ∃ proc, next.procs[p]? = some proc ∧ proc.Made sub := by
  intro p sub hsub
  by_cases hbefore : self.pending = some (p, sub)
  · obtain ⟨hown, old, hold, hmade⟩ := hsessions.pending p sub hbefore
    obtain ⟨proc, hproc, hfollows⟩ := hsessions.process_after hmoves hold
    obtain ⟨hpid, hcommand, _⟩ := hfollows.kept
    refine ⟨fun q hlive => hown q (live_of_unsettled hmoves hfresh ?_ hlive), proc, hproc, ?_⟩
    · exact fun client_pid hsettled => settled_pending hsettled hbefore
    · refine ⟨?_, ?_, ?_, ?_, hfollows.accepted hmade.status⟩
      · rw [hcommand, hmade.topic]
      · rw [hcommand, hmade.client_id]
      · rw [hcommand, hmade.pref]
      · rw [← hmade.consumer_ipc, Process.fifo_path, Process.fifo_path, hpid]
  · obtain ⟨request, rest, server, effects, hrequest, _, hqueue, haccepted, rfl⟩ := hmoves.pending_new hsub hbefore
    have hmem : .subscribe p request hrequest ∈ self.queue := hqueue ▸ List.mem_cons_self
    have hipc : sub.consumer_ipc = client_fifo_path request.pid := by rw [haccepted.sub_eq]
    obtain ⟨old, hold, rfl⟩ := hsessions.genuine _ hmem
    have hnext := hsessions.answer_getElem? hqueue .SUCCESS (.accepted sub.start_offset) p
    rw [if_pos rfl, hold] at hnext
    refine ⟨fun q hlive => ?_, _, hnext, ?_⟩
    · rw [hipc] at hlive
      have hlived := live_of_unsettled hmoves hfresh (fun client_pid hsettled => settled_queue hsettled hmem) hlive
      exact hsessions.own p _ hrequest hmem q hlived
    · refine ⟨?_, ?_, ?_, ?_, rfl⟩
      · rw [haccepted.sub_eq]
        split <;> rfl
      · rw [haccepted.sub_eq]
        split <;> rfl
      · rw [haccepted.sub_eq]
        split <;> rfl
      · rw [hipc]
        split <;> rfl

theorem Sessions.consistent_step {self next : Broker H} {event : Event} (hsessions : self.Sessions)
    (hmoves : self.Moves event next) : ∀ (p : Nat) (proc : Process), next.procs[p]? = some proc → proc.Consistent := by
  intro p proc hproc
  rcases hmoves.process_before hproc with ⟨old, hold, _⟩ | ⟨client_pid, command, runs, _, _, rfl⟩
  · obtain ⟨found, hfound, hfollows⟩ := hsessions.process_after hmoves hold
    obtain rfl := Option.some.inj (hproc.symm.trans hfound)
    exact hfollows.consistent
  · exact Process.create_consistent client_pid command runs

theorem Sessions.opened_step {self next : Broker H} {event : Event} (hsessions : self.Sessions)
    (hmoves : self.Moves event next) : ∀ topic_name client_id sub q,
      next.server.entry topic_name client_id = some sub → sub.fifo_fd = some q →
        ∃ proc, next.procs[q]? = some proc ∧ proc.Has topic_name client_id sub := by
  intro topic_name client_id entry q hentry hfd
  rcases hmoves.entry_before hentry hfd with ⟨old, hold, hopen, _, hpref⟩ |
      ⟨p, sub, _, hpending, rfl, rfl, hholder, rfl⟩
  · obtain ⟨before, hbefore, hhas⟩ := hsessions.opened _ _ old q hold hopen
    obtain ⟨proc, hproc, hfollows⟩ := hsessions.process_after hmoves hbefore
    obtain ⟨_, hcommand, _⟩ := hfollows.kept
    obtain ⟨start_offset, haccepted⟩ := hhas.accepted
    refine ⟨proc, hproc, ?_, ?_, ?_, start_offset, hfollows.accepted haccepted⟩
    · rw [hcommand, hhas.topic]
    · rw [hcommand, hhas.client_id]
    · rw [hcommand, hhas.pref, hpref]
  · obtain ⟨hown, before, hbefore, hmade⟩ := hsessions.pending p sub hpending
    obtain rfl := hown q (holder_some hholder)
    obtain ⟨proc, hproc, hfollows⟩ := hsessions.process_after hmoves hbefore
    obtain ⟨_, hcommand, _⟩ := hfollows.kept
    refine ⟨proc, hproc, ?_, ?_, ?_, _, hfollows.accepted hmade.status⟩
    · rw [hcommand, hmade.topic]
    · rw [hcommand, hmade.client_id]
    · rw [hcommand, hmade.pref]

theorem Sessions.step {self next : Broker H} {event : Event} (hsessions : self.Sessions)
    (hexclusive : self.Exclusive) (hmoves : self.Moves event next) (hfresh : self.fresh event = true) : next.Sessions where
  genuine := hsessions.genuine_step hmoves
  once := hsessions.once_step hmoves
  queued := hsessions.queued_step hmoves
  own := hsessions.own_step hexclusive hmoves hfresh
  pending := hsessions.pending_step hmoves hfresh
  consistent := hsessions.consistent_step hmoves
  opened := hsessions.opened_step hmoves

end Broker

end treenity.broker

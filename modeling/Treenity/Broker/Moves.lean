import Treenity.Broker.State
import Treenity.Server.Topics

open treenity.protocol treenity.data_structures treenity.ipc treenity.client treenity.server

namespace treenity.broker

theorem holder_some {procs : List Process} {path : Bytes} {q : Nat} (hholder : holder procs path = some q) :
    ∃ proc, procs[q]? = some proc ∧ proc.alive = true ∧ proc.fifo_path = path := by
  obtain ⟨hlt, htest, _⟩ := List.findIdx?_eq_some_iff_getElem.mp hholder
  simp only [Bool.and_eq_true, beq_iff_eq] at htest
  exact ⟨procs[q], List.getElem?_eq_getElem hlt, htest⟩

theorem holder_none {procs : List Process} {path : Bytes} (hholder : holder procs path = none) {q : Nat}
    {proc : Process} (hproc : procs[q]? = some proc) (halive : proc.alive = true) : proc.fifo_path ≠ path := by
  have htest := List.findIdx?_eq_none_iff.mp hholder proc (List.mem_of_getElem? hproc)
  simpa [halive] using htest

/-- A live process has its FIFO open. -/
theorem holder_isSome {procs : List Process} {q : Nat} {proc : Process} (hproc : procs[q]? = some proc)
    (halive : proc.alive = true) : (holder procs proc.fifo_path).isSome = true := by
  by_contra hnone
  rw [Option.not_isSome_iff_eq_none] at hnone
  exact holder_none hnone hproc halive rfl

@[simp] theorem post_getElem? (procs : List Process) (path bytes : Bytes) (q : Nat) :
    (post procs path bytes)[q]? =
      procs[q]?.map (fun proc => if holder procs path = some q then proc.receive bytes else proc) := by
  unfold post
  cases hholder : holder procs path with
  | none => simp
  | some p =>
    rw [List.getElem?_modify]
    by_cases hp : p = q <;> simp [hp]

@[simp] theorem Process.receive_nil : Process.receive [] = id := by
  funext proc
  simp [Process.receive]

theorem Process.receive_receive (first second : Bytes) (self : Process) :
    (self.receive first).receive second = self.receive (first ++ second) := by
  simp [Process.receive]

/-- Writing puts bytes into FIFOs and changes nothing else of a process. -/
theorem post_receive (procs : List Process) (path bytes : Bytes) (q : Nat) :
    ∃ more, (post procs path bytes)[q]? = procs[q]?.map (Process.receive more) := by
  rw [post_getElem?]
  by_cases hholder : holder procs path = some q
  · exact ⟨bytes, by simp [hholder]⟩
  · exact ⟨[], by simp [hholder]⟩

/-- When a process has acted, it is what its action made of it and the others are
as they were. -/
theorem set_cases {procs : List Process} {p q : Nat} {acting moved old proc : Process}
    (hacting : procs[p]? = some acting) (hold : procs[q]? = some old) (hproc : (procs.set p moved)[q]? = some proc) :
    p = q ∧ acting = old ∧ moved = proc ∨ p ≠ q ∧ procs[q]? = some proc := by
  by_cases hp : p = q
  · subst hp
    obtain ⟨hlt, _⟩ := List.getElem?_eq_some_iff.mp hold
    rw [List.getElem?_set_self hlt] at hproc
    exact .inl ⟨rfl, Option.some.inj (hacting.symm.trans hold), Option.some.inj hproc⟩
  · rw [List.getElem?_set_ne hp] at hproc
    exact .inr ⟨hp, hproc⟩

theorem perform_receive (effects : List Effect) (procs : List Process) (q : Nat) :
    ∃ more, (effects.foldl perform procs)[q]? = procs[q]?.map (Process.receive more) := by
  induction effects generalizing procs with
  | nil => exact ⟨[], by simp⟩
  | cons effect rest ih =>
    have hone : ∃ more, (perform procs effect)[q]? = procs[q]?.map (Process.receive more) := by
      unfold perform
      split
      · exact post_receive procs _ _ q
      · rename_i p bytes
        rw [List.getElem?_modify]
        by_cases hp : p = q
        · exact ⟨bytes, by simp [hp]⟩
        · exact ⟨[], by simp [hp]⟩
      · exact ⟨[], by simp⟩
    obtain ⟨first, hfirst⟩ := hone
    obtain ⟨second, hsecond⟩ := ih (perform procs effect)
    refine ⟨first ++ second, ?_⟩
    rw [List.foldl_cons, hsecond, hfirst, Option.map_map]
    congr 1
    exact funext (Process.receive_receive first second)

/-- A turn of the worker writes to the process its entry has a descriptor for, or to
nobody. -/
theorem deliver_perform {H : StdHash} {topic next : Topic H} {client_id : Bytes} {taken : Bool} {calls : List Syscall}
    (hdeliver : topic.deliver_next client_id taken = some (next, calls)) (procs : List Process) :
    (calls.map Effect.syscall).foldl perform procs = procs ∨
      ∃ sub p bytes, topic.subscribers.find client_id = some sub ∧ sub.fifo_fd = some p ∧ taken = true ∧
        (calls.map Effect.syscall).foldl perform procs = procs.modify p (Process.receive bytes) := by
  obtain ⟨sub, msg, is_matched, hfind, rfl⟩ := Topic.deliver_next_calls hdeliver
  rcases sub.offer_calls msg is_matched taken with hnil | ⟨p, hfd, hcalls⟩
  · exact .inl (by rw [hnil]; rfl)
  · rw [hcalls]
    cases taken with
    | false => exact .inl rfl
    | true => exact .inr ⟨sub, p, msg.frame, hfind, hfd, rfl, rfl⟩

/-- All that an action of a process can be. -/
inductive Acted (self : Process) (p : Nat) : Process → List Sent → Prop
  | subscribe (hphase : self.phase = .created) :
      Acted self p { self with phase := .waiting, status := .queued }
        [.subscribe p self.request self.request_parses]
  | accepted {left : Bytes} (hphase : self.phase = .waiting) (hread : handshake self.pipe = some (true, left)) :
      Acted self p { self with phase := .listening, pipe := left } []
  | refused {left : Bytes} (hphase : self.phase = .waiting) (hread : handshake self.pipe = some (false, left)) :
      Acted self p { self with phase := .done, pipe := left } []
  | output {msg : Message} {left : Bytes} (hphase : self.phase = .listening)
      (hread : read_delivery self.pipe = some (some msg, left)) :
      Acted self p { self with
        phase := .acking (msg.offset + 1), pipe := left, output := self.output ++ [msg] } []
  | stop {left : Bytes} (hphase : self.phase = .listening) (hread : read_delivery self.pipe = some (none, left)) :
      Acted self p { self with phase := .done, pipe := left } []
  | ack {next_offset : UInt32} (hphase : self.phase = .acking next_offset) :
      Acted self p { self with phase := .listening }
        [.ack p self.command.subscriber next_offset self.name_length]
  | disconnect (hphase : self.phase = .listening) :
      Acted self p { self with phase := .disconnected } [.disconnect p self.command.subscriber self.name_length]

theorem Process.act_acted {self next : Process} {p : Nat} {action : Process.Action} {sent : List Sent}
    (hact : self.act p action = some (next, sent)) : Acted self p next sent := by
  cases action with
  | subscribe =>
    simp only [Process.act, Option.ite_none_right_eq_some, Option.some.injEq, Prod.mk.injEq] at hact
    obtain ⟨hphase, rfl, rfl⟩ := hact
    exact .subscribe hphase
  | handshake =>
    simp only [Process.act, Option.ite_none_right_eq_some, Option.map_eq_some_iff, Prod.mk.injEq] at hact
    obtain ⟨hphase, ⟨success, left⟩, hread, rfl, rfl⟩ := hact
    cases success with
    | true => exact .accepted hphase hread
    | false => exact .refused hphase hread
  | output =>
    simp only [Process.act, Option.ite_none_right_eq_some, Option.map_eq_some_iff] at hact
    obtain ⟨hphase, ⟨read, left⟩, hread, hnext⟩ := hact
    cases read with
    | none =>
      obtain ⟨rfl, rfl⟩ := Prod.mk.inj hnext
      exact .stop hphase hread
    | some msg =>
      obtain ⟨rfl, rfl⟩ := Prod.mk.inj hnext
      exact .output hphase hread
  | ack =>
    simp only [Process.act] at hact
    split at hact
    · rename_i next_offset hphase
      cases hact
      exact .ack hphase
    · cases hact
  | disconnect =>
    simp only [Process.act, Option.ite_none_right_eq_some, Option.some.injEq, Prod.mk.injEq] at hact
    obtain ⟨hphase, rfl, rfl⟩ := hact
    exact .disconnect hphase

/-- No action changes who a process is or takes back what it has printed. -/
theorem Acted.same {self next : Process} {p : Nat} {sent : List Sent} (hacted : Acted self p next sent) :
    next.client_pid = self.client_pid ∧ next.command = self.command ∧ next.alive = self.alive ∧
      self.output <+: next.output := by
  cases hacted with
  | output => exact ⟨rfl, rfl, rfl, List.prefix_append _ _⟩
  | _ => exact ⟨rfl, rfl, rfl, List.prefix_rfl⟩

def Process.note (status : Status) (self : Process) : Process := { self with status }

def Process.kill (self : Process) : Process := { self with alive := false }

/-- What a step may do to a process: it never changes who the process is, does not
bring it back to life, and does not take back what it has printed. -/
def Kept (old proc : Process) : Prop :=
  proc.client_pid = old.client_pid ∧ proc.command = old.command ∧ (proc.alive = true → old.alive = true) ∧
    old.output <+: proc.output

theorem Kept.refl (self : Process) : Kept self self := ⟨rfl, rfl, id, List.prefix_rfl⟩

theorem Kept.receive (bytes : Bytes) (self : Process) : Kept self (self.receive bytes) :=
  ⟨rfl, rfl, id, List.prefix_rfl⟩

theorem Kept.note (status : Status) (self : Process) : Kept self (self.note status) :=
  ⟨rfl, rfl, id, List.prefix_rfl⟩

theorem Kept.kill (self : Process) : Kept self self.kill :=
  ⟨rfl, rfl, fun halive => absurd halive (by simp [Process.kill]), List.prefix_rfl⟩

theorem Acted.kept {self next : Process} {p : Nat} {sent : List Sent} (hacted : Acted self p next sent) :
    Kept self next := by
  obtain ⟨hpid, hcommand, halive, houtput⟩ := hacted.same
  exact ⟨hpid, hcommand, fun h => halive ▸ h, houtput⟩

namespace Broker

variable {H : StdHash}

/-- The processes when the server has answered a SUBSCRIBE. -/
def answer (self : Broker H) (request : Request.Subscribe) (status : StatusCode) : List Process :=
  post self.procs (client_fifo_path request.pid) (Response.serialize_response status [])

/-- The server when it has handled a frame other than a SUBSCRIBE. -/
def served (self : Broker H) (sent : Sent) : Server H :=
  (self.server.handle_request sent.action sent.payload self.kernel).1

/-- All that a step can be. -/
inductive Moves (self : Broker H) : Event → Broker H → Prop
  | start {client_pid : UInt32} {command : Command} (runs : subscribes command = true)
      (hfree : holder self.procs (client_fifo_path client_pid) = none) :
      Moves self (.start client_pid command)
        { self with procs := self.procs ++ [Process.create client_pid command runs] }
  | request {action : UInt8} {payload : Bytes}
      (hother : action.toNat ≠ 6 ∧ action.toNat ≠ 7 ∧ action.toNat ≠ 8) (hsize : payload.length < 2 ^ 32) :
      Moves self (.request action payload) { self with queue := self.queue ++ [.other action payload hother hsize] }
  | act {p : Nat} {action : Process.Action} {proc next : Process} {sent : List Sent}
      (hproc : self.procs[p]? = some proc) (halive : proc.alive = true) (hacted : Acted proc p next sent) :
      Moves self (.act p action) { self with queue := self.queue ++ sent, procs := self.procs.set p next }
  | exit (p : Nat) : Moves self (.exit p) { self with procs := self.procs.modify p Process.kill }
  | rejected {p : Nat} {request : Request.Subscribe} {rest : List Sent} {status : StatusCode}
      (hrequest : Request.parse_subscribe (Request.subscribe_payload request) = .ok request)
      (hpending : self.pending = none) (hqueue : self.queue = .subscribe p request hrequest :: rest)
      (hstatus : status ≠ .SUCCESS) :
      Moves self .handle { self with
        pending := none, queue := rest, procs := (self.answer request status).modify p (Process.note .rejected) }
  | accepted {p : Nat} {request : Request.Subscribe} {rest : List Sent} {sub : Server.Subscription}
      {server : Server H} {effects : List Effect}
      (hrequest : Request.parse_subscribe (Request.subscribe_payload request) = .ok request)
      (hpending : self.pending = none) (hqueue : self.queue = .subscribe p request hrequest :: rest)
      (haccept : (self.server.accept_subscriber (Request.subscribe_payload request) self.kernel.reader_active).1 =
        some sub)
      (haccepted : self.server.Accepted (Request.subscribe_payload request) self.kernel.reader_active sub server
        effects request) :
      Moves self .handle {
        server, pending := some (p, sub), queue := rest
        procs := (self.answer request .SUCCESS).modify p (Process.note (.accepted sub.start_offset))
        owner := Function.update self.owner sub.client_id (some p) }
  | committed {p : Nat} {client_id : Bytes} {next_offset : UInt32} {rest : List Sent} {recorded : ClientMetadata}
      (hname : client_id.length ≤ 32) (hpending : self.pending = none)
      (hqueue : self.queue = .ack p client_id next_offset hname :: rest)
      (hcommitted : self.server.Committed (Request.ack_payload client_id next_offset)
        (self.served (.ack p client_id next_offset hname)) client_id next_offset recorded) :
      Moves self .handle
        { self with server := self.served (.ack p client_id next_offset hname), pending := none, queue := rest }
  | disconnected {p : Nat} {client_id : Bytes} {rest : List Sent} {recorded : ClientMetadata}
      (hname : client_id.length ≤ 32) (hpending : self.pending = none)
      (hqueue : self.queue = .disconnect p client_id hname :: rest)
      (hdisconnected : self.server.Disconnected (Request.disconnect_payload client_id)
        (self.served (.disconnect p client_id hname)) client_id recorded) :
      Moves self .handle
        { self with server := self.served (.disconnect p client_id hname), pending := none, queue := rest }
  | quiet {sent : Sent} {rest : List Sent} (hpending : self.pending = none) (hqueue : self.queue = sent :: rest)
      (hother : ∀ p request hrequest, sent ≠ .subscribe p request hrequest)
      (hquiet : self.server.Quiet (self.served sent)) :
      Moves self .handle { self with server := self.served sent, pending := none, queue := rest }
  | register {p : Nat} {sub : Server.Subscription} (hpending : self.pending = some (p, sub)) :
      Moves self .register { self with
        server := (self.server.register_subscriber sub (holder self.procs sub.consumer_ipc)).1, pending := none }
  | deliver {topic_name client_id : Bytes} {taken reads : Bool} {topic next : Topic H} {calls : List Syscall}
      (hfound : self.server.topics.find topic_name = some topic)
      (hreads : ((topic.subscribers.find client_id).bind ActiveSubscriber.fifo_fd).any self.alive = reads)
      (hdeliver : topic.deliver_next client_id (taken && reads) = some (next, calls)) :
      Moves self (.deliver topic_name client_id taken) { self with
        server := self.server.set_topic topic_name next
        procs := (calls.map Effect.syscall).foldl perform self.procs }

/-- A subscription becomes pending when the server accepts the SUBSCRIBE at the front of its FIFO. -/
theorem Moves.pending_new {self next : Broker H} {event : Event} (hmoves : self.Moves event next) {p : Nat}
    {sub : Server.Subscription} (hpending : next.pending = some (p, sub)) (hnew : self.pending ≠ some (p, sub)) :
    ∃ request rest server effects hrequest, event = .handle ∧ self.queue = .subscribe p request hrequest :: rest ∧
      self.server.Accepted (Request.subscribe_payload request) self.kernel.reader_active sub server effects request ∧
      next = { self with
        server, pending := some (p, sub), queue := rest
        procs := (self.answer request .SUCCESS).modify p (Process.note (.accepted sub.start_offset))
        owner := Function.update self.owner sub.client_id (some p) } := by
  cases hmoves with
  | accepted hrequest hnone hqueue haccept haccepted =>
    obtain ⟨rfl, rfl⟩ := Prod.mk.inj (Option.some.inj hpending)
    exact ⟨_, _, _, _, hrequest, rfl, hqueue, haccepted, rfl⟩
  | register => cases hpending
  | rejected => cases hpending
  | committed => cases hpending
  | disconnected => cases hpending
  | quiet => cases hpending
  | _ => exact absurd hpending hnew

theorem parse_ack_payload {client_id : Bytes} (hname : client_id.length ≤ 32) (next_offset : UInt32) :
    Request.parse_ack (Request.ack_payload client_id next_offset) = .ok (client_id, next_offset) := by
  refine (Request.parse_ack_iff ?_ client_id next_offset).mpr ⟨rfl, by omega⟩
  simp only [Request.ack_payload, List.length_append, le32_length]
  omega

theorem parse_disconnect_payload {client_id : Bytes} (hname : client_id.length ≤ 32) :
    Request.parse_disconnect (Request.disconnect_payload client_id) = .ok client_id := by
  refine (Request.parse_disconnect_iff ?_ client_id).mpr ⟨rfl, by omega⟩
  simp only [Request.disconnect_payload, List.length_append, le32_length]
  omega

/-- A frame other than a SUBSCRIBE, handled. -/
theorem served_moves {self : Broker H} {sent : Sent} {rest : List Sent} (hpending : self.pending = none)
    (hqueue : self.queue = sent :: rest) (hother : ∀ p request hrequest, sent ≠ .subscribe p request hrequest) :
    self.Moves .handle { self with server := self.served sent, pending := none, queue := rest } := by
  cases sent with
  | subscribe p request hrequest => exact absurd rfl (hother p request hrequest)
  | ack p client_id next_offset hname =>
    rcases (Server.handle_commit_cases self.server (Request.ack_payload client_id next_offset)).2 with
      ⟨hsame, _⟩ | ⟨found, offset, recorded, hcommitted⟩
    · refine .quiet hpending hqueue hother ?_
      exact hsame.symm ▸ Server.Quiet.refl self.server
    · obtain ⟨rfl, rfl⟩ := Prod.mk.inj (Except.ok.inj ((parse_ack_payload hname next_offset).symm.trans
        hcommitted.parsed))
      exact .committed hname hpending hqueue hcommitted
  | disconnect p client_id hname =>
    rcases (Server.handle_disconnect_cases self.server (Request.disconnect_payload client_id)).2 with
      ⟨hsame, _⟩ | ⟨found, recorded, hdisconnected⟩
    · refine .quiet hpending hqueue hother ?_
      exact hsame.symm ▸ Server.Quiet.refl self.server
    · obtain rfl := Except.ok.inj ((parse_disconnect_payload hname).symm.trans hdisconnected.parsed)
      exact .disconnected hname hpending hqueue hdisconnected
  | other action payload haction _ =>
    exact .quiet hpending hqueue hother (Server.handle_request_quiet self.server payload self.kernel haction)

/-- All that `handle` can be, with its effects. -/
theorem handle_cases {self next : Broker H} {effects : List Effect} (hstep : self.handle = some (next, effects)) :
    self.pending = none ∧
      ((∃ p request hrequest rest status, self.queue = .subscribe p request hrequest :: rest ∧ status ≠ .SUCCESS ∧
          next = { self with
            pending := none, queue := rest, procs := (self.answer request status).modify p (Process.note .rejected) } ∧
          effects = [Server.send_response request.pid status []]) ∨
        (∃ p request hrequest rest sub server, self.queue = .subscribe p request hrequest :: rest ∧
          (self.server.accept_subscriber (Request.subscribe_payload request) self.kernel.reader_active).1 = some sub ∧
          self.server.Accepted (Request.subscribe_payload request) self.kernel.reader_active sub server effects
            request ∧
          next = {
            server, pending := some (p, sub), queue := rest
            procs := (self.answer request .SUCCESS).modify p (Process.note (.accepted sub.start_offset))
            owner := Function.update self.owner sub.client_id (some p) }) ∨
        ∃ sent rest, self.queue = sent :: rest ∧ (∀ p request hrequest, sent ≠ .subscribe p request hrequest) ∧
          next = { self with server := self.served sent, pending := none, queue := rest } ∧
          effects = (self.server.handle_request sent.action sent.payload self.kernel).2) := by
  unfold handle at hstep
  cases hpending : self.pending with
  | some _ => simp only [hpending, reduceCtorEq] at hstep
  | none =>
    refine ⟨rfl, ?_⟩
    cases hqueue : self.queue with
    | nil => simp only [hpending, hqueue, reduceCtorEq] at hstep
    | cons sent rest =>
      rw [hpending, hqueue] at hstep
      cases sent with
      | subscribe p request hrequest =>
        dsimp only at hstep
        generalize haccept : self.server.accept_subscriber (Request.subscribe_payload request)
          self.kernel.reader_active = outcome at hstep
        obtain ⟨_ | sub, server, answers⟩ := outcome
        · obtain ⟨rfl, status, hstatus, rfl⟩ := Server.accept_subscriber_rejected hrequest haccept
          cases hstep
          exact .inl ⟨p, request, hrequest, rest, status, rfl, hstatus, rfl, rfl⟩
        · obtain ⟨found, haccepted⟩ := Server.accept_subscriber_some haccept
          obtain rfl : request = found := Except.ok.inj (hrequest.symm.trans haccepted.parsed)
          have hanswers := haccepted.effects_eq
          cases hstep
          refine .inr (.inl ⟨p, request, hrequest, rest, sub, server, rfl, by rw [haccept], haccepted, ?_⟩)
          rw [hanswers]
          rfl
      | _ =>
        cases hstep
        exact .inr (.inr ⟨_, rest, rfl, by simp, rfl, rfl⟩)

theorem handle_moves {self next : Broker H} {effects : List Effect} (hstep : self.handle = some (next, effects)) :
    self.Moves .handle next := by
  obtain ⟨hpending, ⟨p, request, hrequest, rest, status, hqueue, hstatus, rfl, _⟩ |
    ⟨p, request, hrequest, rest, sub, server, hqueue, haccept, haccepted, rfl⟩ |
    ⟨sent, rest, hqueue, hother, rfl, _⟩⟩ := handle_cases hstep
  · exact .rejected hrequest hpending hqueue hstatus
  · exact .accepted hrequest hpending hqueue haccept haccepted
  · exact served_moves hpending hqueue hother

/-- All that a turn of a worker can be, with its calls. -/
theorem deliver_cases {self next : Broker H} {topic_name client_id : Bytes} {taken : Bool} {effects : List Effect}
    (hstep : self.deliver topic_name client_id taken = some (next, effects)) :
    ∃ topic served calls, self.server.topics.find topic_name = some topic ∧
      topic.deliver_next client_id (taken && ((topic.subscribers.find client_id).bind ActiveSubscriber.fifo_fd).any
        self.alive) = some (served, calls) ∧
      next = { self with
        server := self.server.set_topic topic_name served
        procs := (calls.map Effect.syscall).foldl perform self.procs } ∧
      effects = calls.map Effect.syscall := by
  unfold deliver at hstep
  split at hstep
  · cases hstep
  · rename_i topic hfound
    obtain ⟨⟨served, calls⟩, hdeliver, heq⟩ := Option.map_eq_some_iff.mp hstep
    cases heq
    exact ⟨topic, served, calls, hfound, hdeliver, rfl, rfl⟩

/-- All that `register` can be, with its effects. -/
theorem register_cases {self next : Broker H} {effects : List Effect} (hstep : self.register = some (next, effects)) :
    ∃ p sub, self.pending = some (p, sub) ∧
      next = { self with
        server := (self.server.register_subscriber sub (holder self.procs sub.consumer_ipc)).1, pending := none } ∧
      effects = (self.server.register_subscriber sub (holder self.procs sub.consumer_ipc)).2 := by
  unfold register at hstep
  split at hstep
  · cases hstep
  · rename_i p sub hpending
    cases hstep
    exact ⟨p, sub, hpending, rfl, rfl⟩

theorem step_moves {self next : Broker H} {event : Event} {effects : List Effect}
    (hstep : self.step event = some (next, effects)) : self.Moves event next := by
  cases event with
  | start client_pid command =>
    simp only [step, Option.dite_none_right_eq_some, Option.ite_none_right_eq_some] at hstep
    obtain ⟨runs, hfree, heq⟩ := hstep
    cases heq
    exact .start runs (Option.isNone_iff_eq_none.mp hfree)
  | request action payload =>
    simp only [step, Option.dite_none_right_eq_some] at hstep
    obtain ⟨hother, hsize, heq⟩ := hstep
    cases heq
    exact .request hother hsize
  | act p action =>
    simp only [step] at hstep
    split at hstep
    · cases hstep
    · rename_i proc hproc
      split at hstep
      · rename_i halive
        obtain ⟨⟨moved, sent⟩, hact, heq⟩ := Option.map_eq_some_iff.mp hstep
        cases heq
        exact .act hproc halive (Process.act_acted hact)
      · cases hstep
  | exit p =>
    cases hstep
    exact .exit p
  | handle => exact handle_moves hstep
  | register =>
    obtain ⟨p, sub, hpending, rfl, _⟩ := register_cases hstep
    exact .register hpending
  | deliver topic_name client_id taken =>
    obtain ⟨topic, served, calls, hfound, hdeliver, rfl, _⟩ := deliver_cases hstep
    exact .deliver hfound rfl hdeliver

/-- Every step keeps the processes there are; the only new one is the one that starts. -/
theorem Moves.process {self next : Broker H} {event : Event} (hmoves : self.Moves event next) (q : Nat) :
    (∃ change : Process → Process, next.procs[q]? = self.procs[q]?.map change ∧
        ∀ old, self.procs[q]? = some old → Kept old (change old)) ∨
      ∃ client_pid command runs, event = .start client_pid command ∧ q = self.procs.length ∧
        next.procs[q]? = some (.create client_pid command runs) := by
  -- A step that only fills FIFOs and then marks one process.
  have hmarked : ∀ (procs : List Process) (p : Nat) (mark : Process → Process),
      (∃ more, procs[q]? = self.procs[q]?.map (Process.receive more)) → (∀ old : Process, Kept old (mark old)) →
      ∃ change : Process → Process, (procs.modify p mark)[q]? = self.procs[q]?.map change ∧
        ∀ old, self.procs[q]? = some old → Kept old (change old) := by
    rintro procs p mark ⟨more, hmore⟩ hmark
    rw [List.getElem?_modify, hmore]
    by_cases hp : p = q
    · refine ⟨fun old => mark (old.receive more), by simp [hp, Function.comp_def], fun old _ => ?_⟩
      exact hmark (old.receive more)
    · exact ⟨Process.receive more, by simp [hp], fun old _ => .receive more old⟩
  have hsame : ∃ change : Process → Process, self.procs[q]? = self.procs[q]?.map change ∧
      ∀ old, self.procs[q]? = some old → Kept old (change old) :=
    ⟨id, by simp, fun old _ => .refl old⟩
  cases hmoves with
  | start runs hfree =>
    by_cases hq : q = self.procs.length
    · exact .inr ⟨_, _, runs, rfl, hq, by simp [hq]⟩
    · refine .inl ⟨id, ?_, fun old _ => .refl old⟩
      rw [Option.map_id, id]
      rcases Nat.lt_or_gt_of_ne hq with hlt | hgt
      · exact List.getElem?_append_left hlt
      · rw [List.getElem?_eq_none (by simp; omega), List.getElem?_eq_none (by omega)]
  | act hold halive hacted =>
    rename_i p action old moved sent
    refine .inl ?_
    by_cases hp : p = q
    · subst hp
      obtain ⟨hlt, _⟩ := List.getElem?_eq_some_iff.mp hold
      refine ⟨fun _ => moved, by simp [hlt], ?_⟩
      rintro found hfound
      obtain rfl := Option.some.inj (hold.symm.trans hfound)
      exact hacted.kept
    · exact ⟨id, by simp [hp], fun old _ => .refl old⟩
  | exit p => exact .inl (hmarked _ _ _ ⟨[], by simp⟩ .kill)
  | rejected => exact .inl (hmarked _ _ _ (post_receive _ _ _ q) (.note _))
  | accepted => exact .inl (hmarked _ _ _ (post_receive _ _ _ q) (.note _))
  | deliver =>
    obtain ⟨more, hmore⟩ := perform_receive _ self.procs q
    exact .inl ⟨Process.receive more, hmore, fun old _ => .receive more old⟩
  | _ => exact .inl hsame

/-- Where a process comes from. -/
theorem Moves.process_before {self next : Broker H} {event : Event} (hmoves : self.Moves event next) {q : Nat}
    {proc : Process} (hproc : next.procs[q]? = some proc) :
    (∃ old, self.procs[q]? = some old ∧ Kept old proc) ∨
      ∃ client_pid command runs, event = .start client_pid command ∧ q = self.procs.length ∧
        proc = .create client_pid command runs := by
  rcases hmoves.process q with ⟨change, hnext, hkept⟩ | ⟨client_pid, command, runs, hevent, hq, hnext⟩
  · rw [hnext] at hproc
    obtain ⟨old, hold, rfl⟩ := Option.map_eq_some_iff.mp hproc
    exact .inl ⟨old, hold, hkept old hold⟩
  · exact .inr ⟨client_pid, command, runs, hevent, hq, Option.some.inj (hproc.symm.trans hnext)⟩

/-- What becomes of a process. -/
theorem Moves.process_after {self next : Broker H} {event : Event} (hmoves : self.Moves event next) {q : Nat}
    {old : Process} (hold : self.procs[q]? = some old) :
    ∃ proc, next.procs[q]? = some proc ∧ Kept old proc := by
  rcases hmoves.process q with ⟨change, hnext, hkept⟩ | ⟨_, _, _, _, hq, _⟩
  · exact ⟨change old, by rw [hnext, hold]; rfl, hkept old hold⟩
  · obtain ⟨hlt, _⟩ := List.getElem?_eq_some_iff.mp hold
    omega

/-- Only registering and delivering make or change entries. -/
theorem Moves.entry_old {self next : Broker H} {event : Event} (hmoves : self.Moves event next)
    (hregister : event ≠ .register) (hdeliver : ∀ topic_name client_id taken, event ≠ .deliver topic_name client_id taken)
    {topic_name client_id : Bytes} {entry : ActiveSubscriber}
    (hentry : next.server.entry topic_name client_id = some entry) :
    self.server.entry topic_name client_id = some entry := by
  cases hmoves with
  | accepted hrequest hpending hqueue haccept haccepted =>
    dsimp only at hentry
    rw [haccepted.next_eq] at hentry
    exact hentry
  | committed hname hpending hqueue hcommitted =>
    rw [← hcommitted.entry]
    exact hentry
  | disconnected hname hpending hqueue hdisconnected =>
    have hold := (hdisconnected.entry topic_name client_id).symm.trans hentry
    split at hold
    · cases hold
    · exact hold
  | quiet hpending hqueue hother hquiet =>
    rw [← hquiet.entry]
    exact hentry
  | register => exact absurd rfl hregister
  | deliver => exact absurd rfl (hdeliver _ _ _)
  | _ => exact hentry

/-- Where an entry with a descriptor comes from: it was there, with a descriptor, or
it is the registration that was pending. -/
theorem Moves.entry_before {self next : Broker H} {event : Event} (hmoves : self.Moves event next)
    {topic_name client_id : Bytes} {entry : ActiveSubscriber} {q : Fd}
    (hentry : next.server.entry topic_name client_id = some entry) (hfd : entry.fifo_fd = some q) :
    (∃ old, self.server.entry topic_name client_id = some old ∧ old.fifo_fd = some q ∧
        entry.fifo_path = old.fifo_path ∧ entry.pref = old.pref) ∨
      ∃ p sub, event = .register ∧ self.pending = some (p, sub) ∧ topic_name = sub.topic ∧
        client_id = sub.client_id ∧ holder self.procs sub.consumer_ipc = some q ∧
        entry = ⟨sub.client_id, sub.pref, sub.consumer_ipc, some q, sub.start_offset⟩ := by
  have hold := hmoves.entry_old
  cases hmoves with
  | register hpending =>
    rename_i p sub
    dsimp only at hentry
    cases hfound : self.server.topics.find sub.topic with
    | none =>
      rw [Server.register_subscriber, hfound] at hentry
      exact .inl ⟨entry, hentry, hfd, rfl, rfl⟩
    | some topic =>
      rw [Server.register_subscriber_entry hfound] at hentry
      split at hentry
      · rename_i hsame
        obtain ⟨fd, hholder, rfl⟩ := Option.map_eq_some_iff.mp hentry
        obtain rfl := Option.some.inj hfd
        exact .inr ⟨p, sub, rfl, hpending, hsame.1, hsame.2, hholder, rfl⟩
      · exact .inl ⟨entry, hentry, hfd, rfl, rfl⟩
  | deliver hfound hreads hdeliver =>
    dsimp only at hentry
    rw [Server.set_topic_entry hfound] at hentry
    split at hentry
    · rename_i htopic
      obtain ⟨old, hold, hpath, hpref, hfds⟩ := Topic.deliver_next_find hdeliver hentry
      refine .inl ⟨old, ?_, hfds _ hfd, hpath, hpref⟩
      rw [htopic, Server.entry_of_find hfound]
      exact hold
    · exact .inl ⟨entry, hentry, hfd, rfl, rfl⟩
  | _ => exact .inl ⟨entry, hold (by simp) (by simp) hentry, hfd, rfl, rfl⟩

theorem served_keeps (self : Broker H) {sent : Sent} (hother : ∀ p request hrequest, sent ≠ .subscribe p request hrequest) :
    self.server.Keeps (self.served sent) := by
  apply self.server.handle_request_keeps _ _
  cases sent with
  | subscribe p request hrequest => exact absurd rfl (hother p request hrequest)
  | ack p client_id next_offset hname =>
    simp only [Sent.payload, Request.ack_payload, List.length_append, le32_length]
    omega
  | disconnect p client_id hname =>
    simp only [Sent.payload, Request.disconnect_payload, List.length_append, le32_length]
    omega
  | other action payload hother hsize => exact hsize

/-- No step takes a topic away or a message out of its log. -/
theorem Moves.keeps {self next : Broker H} {event : Event} (hmoves : self.Moves event next) :
    self.server.Keeps next.server := by
  cases hmoves with
  | accepted hrequest hpending hqueue haccept haccepted =>
    refine .of_topics ?_
    dsimp only
    rw [haccepted.next_eq]
  | committed => exact self.served_keeps (by simp)
  | disconnected => exact self.served_keeps (by simp)
  | quiet hpending hqueue hother => exact self.served_keeps hother
  | register => exact self.server.register_subscriber_keeps _ _
  | deliver hfound hreads hdeliver =>
    have hmessages := Topic.deliver_next_messages hdeliver
    refine Server.keeps_of_replace hfound ?_ (hmessages ▸ List.prefix_rfl) (fun hhealthy =>
      hhealthy.of_messages (hhealthy.synced.deliver_next hdeliver) hmessages)
    rfl
  | _ => exact .refl self.server

end Broker

end treenity.broker

import Treenity.Broker.Sessions
import Treenity.Server.Replies
import Treenity.Topic.Shutdown

open treenity.protocol treenity.data_structures treenity.ipc treenity.client treenity.server treenity.foundation

namespace treenity.broker.Broker

variable {H : StdHash}

/-- What an effect puts into the FIFO of the process `q`. -/
def reaching (self : Broker H) (q : Nat) : Effect → Option Bytes
  | .response path bytes => if holder self.procs path = some q then some bytes else none
  | .syscall call => call.delivered q
  | .add_subscriber _ _ _ _ _ => none

theorem reaching_of_mute (self : Broker H) (q : Nat) {effects : List Effect} (hmute : ∀ effect ∈ effects, effect.Mute) :
    effects.filterMap (self.reaching q) = [] := by
  rw [List.filterMap_eq_nil_iff]
  intro effect heffect
  cases effect with
  | response => exact (hmute _ heffect).elim
  | add_subscriber => rfl
  | syscall call => exact Syscall.Mute.delivered (hmute _ heffect) q

/-- Pids are unique: no request on its way gives the pid of a process that starts, and
who sends a request has its pid to itself. -/
def distinct (self : Broker H) : Event → Bool
  | .start client_pid _ => self.settled client_pid && self.queue.all (fun sent =>
      match sent with
      | .other action payload _ _ => request_pid action payload != some client_pid
      | _ => true)
  | .request action payload =>
    (request_pid action payload).all (fun pid => (holder self.procs (client_fifo_path pid)).isNone)
  | _ => true

theorem distinct_fresh {self : Broker H} {event : Event} (hdistinct : self.distinct event = true) :
    self.fresh event = true := by
  cases event with
  | start => exact (Bool.and_eq_true_iff.mp hdistinct).1
  | _ => rfl

/-- The answers to the requests of other clients go to no subscriber. -/
def Strangers (self : Broker H) : Prop :=
  ∀ action payload hother hsize, .other action payload hother hsize ∈ self.queue →
    ∀ pid, request_pid action payload = some pid → ∀ q, ¬ Live self.procs q (client_fifo_path pid)

theorem new_strangers : (new : Broker H).Strangers := by
  intro action payload hother hsize hsent
  simp [new] at hsent

/-- A request of another client gets into the FIFO of the server when it is sent. -/
theorem Moves.other_before {self next : Broker H} {event : Event} (hmoves : self.Moves event next) {action : UInt8}
    {payload : Bytes} {hother : action.toNat ≠ 6 ∧ action.toNat ≠ 7 ∧ action.toNat ≠ 8}
    {hsize : payload.length < 2 ^ 32} (hsent : .other action payload hother hsize ∈ next.queue) :
    .other action payload hother hsize ∈ self.queue ∨ event = .request action payload := by
  rcases hmoves.sent_before hsent with hold | ⟨_, _, _, _, hsame, hevent⟩ |
    ⟨p, action', proc, moved, frames, _, _, _, hacted, _, hnew⟩
  · exact .inl hold
  · cases hsame
    exact .inr hevent
  · cases hacted <;> simp at hnew

theorem Strangers.step {self next : Broker H} {event : Event} (hstrangers : self.Strangers)
    (hmoves : self.Moves event next) (hdistinct : self.distinct event = true) : next.Strangers := by
  rintro action payload hother hsize hsent pid hpid q ⟨proc, hproc, halive, hpath⟩
  rcases hmoves.process_before hproc with ⟨old, hold, hsame, _, hbefore, _⟩ | ⟨client_pid, _, _, rfl, _, rfl⟩
  · have hlive : Live self.procs q (client_fifo_path pid) := by
      refine ⟨old, hold, hbefore halive, ?_⟩
      rw [← hpath, Process.fifo_path, Process.fifo_path, hsame]
    rcases hmoves.other_before hsent with hwaiting | rfl
    · exact hstrangers action payload hother hsize hwaiting pid hpid q hlive
    · have hnobody : holder self.procs (client_fifo_path pid) = none := by
        simpa [distinct, hpid] using hdistinct
      obtain ⟨found, hfound, hliving, hsame⟩ := hlive
      exact holder_none hnobody hfound hliving hsame
  · rcases hmoves.other_before hsent with hwaiting | hevent
    · have hqueue := List.all_eq_true.mp (Bool.and_eq_true_iff.mp hdistinct).2 _ hwaiting
      have hpid' : request_pid action payload ≠ some client_pid := by simpa using hqueue
      exact hpid' (hpid.trans (congrArg some (client_fifo_path_injective hpath).symm))
    · cases hevent

/-- What a step writes to a process, and with which outcome for its SUBSCRIBE. -/
inductive Gets (self : Broker H) (q : Nat) (old proc : Process) : List Bytes → Prop
  | nothing (hstatus : proc.status = old.status ∨ old.status = .unsent ∧ proc.status = .queued) : Gets self q old proc []
  | answer (code : StatusCode) (hqueued : old.status = .queued)
      (hstatus : code ≠ .SUCCESS ∧ proc.status = .rejected ∨
        code = .SUCCESS ∧ ∃ start_offset, proc.status = .accepted start_offset)
      (hheard : old.alive = true) : Gets self q old proc [Response.serialize_response code []]
  | lost (hqueued : old.status = .queued)
      (hstatus : proc.status = .rejected ∨ ∃ start_offset, proc.status = .accepted start_offset)
      (hgone : proc.alive = false) : Gets self q old proc []
  | message {topic_name client_id : Bytes} {sub : ActiveSubscriber} {msg : Message}
      (hentry : self.server.entry topic_name client_id = some sub) (hfd : sub.fifo_fd = some q)
      (hmsg : msg ∈ self.server.log topic_name) (hstatus : proc.status = old.status) :
      Gets self q old proc [msg.frame]

/-- The answer to a SUBSCRIBE is written to the process that sent it, if that is alive. -/
theorem Sessions.answer_gets {self : Broker H} (hsessions : self.Sessions) {p : Nat} {request : Request.Subscribe}
    {hrequest : Request.parse_subscribe (Request.subscribe_payload request) = .ok request} {rest : List Sent}
    (hqueue : self.queue = .subscribe p request hrequest :: rest) {code : StatusCode} {status : Status}
    (hstatus : code ≠ .SUCCESS ∧ status = .rejected ∨
      code = .SUCCESS ∧ ∃ start_offset, status = .accepted start_offset) {q : Nat} {old proc : Process}
    (hold : self.procs[q]? = some old)
    (hproc : ((self.answer request code).modify p (Process.note status))[q]? = some proc) :
    Gets self q old proc ([Server.send_response request.pid code []].filterMap (self.reaching q)) := by
  have hmem : .subscribe p request hrequest ∈ self.queue := hqueue ▸ List.mem_cons_self
  rw [hsessions.answer_getElem? hqueue, hold] at hproc
  by_cases hp : p = q
  · subst hp
    obtain ⟨found, hfound, hqueued, _⟩ := hsessions.first hqueue
    obtain rfl := Option.some.inj (hold.symm.trans hfound)
    rw [if_pos rfl, Option.map_some] at hproc
    have hproc := Option.some.inj hproc
    by_cases hholder : holder self.procs (client_fifo_path request.pid) = some p
    · obtain ⟨found, hfound, hliving, _⟩ := holder_some hholder
      obtain rfl := Option.some.inj (hold.symm.trans hfound)
      have hgets : [Server.send_response request.pid code []].filterMap (self.reaching p) =
          [Response.serialize_response code []] := by simp [Server.send_response, reaching, hholder]
      rw [hgets]
      refine .answer code hqueued ?_ hliving
      rw [← hproc]
      exact hstatus
    · have hgets : [Server.send_response request.pid code []].filterMap (self.reaching p) = [] := by
        simp [Server.send_response, reaching, hholder]
      rw [hgets]
      rw [if_neg hholder] at hproc
      refine .lost hqueued ?_ ?_
      · rw [← hproc]
        exact hstatus.imp And.right And.right
      · cases halive : old.alive with
        | true => exact absurd (hsessions.holder_eq hqueue hold halive) hholder
        | false =>
          rw [← hproc]
          exact halive
  · have hother : holder self.procs (client_fifo_path request.pid) ≠ some q := fun hholder =>
      hp (hsessions.own p request hrequest hmem q (holder_some hholder)).symm
    have hgets : [Server.send_response request.pid code []].filterMap (self.reaching q) = [] := by
      simp [Server.send_response, reaching, hother]
    rw [hgets]
    rw [if_neg hp] at hproc
    obtain rfl := Option.some.inj hproc
    exact .nothing (.inl rfl)

/-- A frame other than a SUBSCRIBE writes to no subscriber. -/
theorem Strangers.served_silent {self : Broker H} (hstrangers : self.Strangers) {sent : Sent} {rest : List Sent}
    (hqueue : self.queue = sent :: rest) (hother : ∀ p request hrequest, sent ≠ .subscribe p request hrequest) (q : Nat) :
    (self.server.handle_request sent.action sent.payload self.kernel).2.filterMap (self.reaching q) = [] := by
  cases sent with
  | subscribe p request hrequest => exact absurd rfl (hother p request hrequest)
  | ack p client_id next_offset hname =>
    have hnone : (self.server.handle_commit (Request.ack_payload client_id next_offset)).2 = [] :=
      (Server.handle_commit_cases _ _).1
    exact (congrArg (List.filterMap (self.reaching q)) hnone).trans List.filterMap_nil
  | disconnect p client_id hname =>
    exact self.reaching_of_mute q (self.server.handle_disconnect_mute (Request.disconnect_payload client_id))
  | other action payload haction hsize =>
    rw [List.filterMap_eq_nil_iff]
    intro effect heffect
    obtain ⟨pid, bytes, hpid, rfl⟩ := (Server.handle_request_replies self.server payload self.kernel haction).mem heffect
    have hmem : .other action payload haction hsize ∈ self.queue := hqueue ▸ List.mem_cons_self
    have hnobody : holder self.procs (client_fifo_path pid) ≠ some q := fun hholder =>
      hstrangers action payload haction hsize hmem pid hpid q (holder_some hholder)
    simp [reaching, hnobody]

/-- Only `handle` takes frames out of the FIFO of the server. -/
theorem Moves.queue_grows {self next : Broker H} {event : Event} (hmoves : self.Moves event next)
    (hevent : event ≠ .handle) : self.queue <+: next.queue := by
  cases hmoves with
  | request => exact List.prefix_append _ _
  | act => exact List.prefix_append _ _
  | start => exact List.prefix_rfl
  | exit => exact List.prefix_rfl
  | register => exact List.prefix_rfl
  | deliver => exact List.prefix_rfl
  | _ => exact absurd rfl hevent

/-- Only the server has effects. -/
theorem step_silent {self next : Broker H} {event : Event} {effects : List Effect}
    (hstep : self.step event = some (next, effects)) (hhandle : event ≠ .handle) (hregister : event ≠ .register)
    (hdeliver : ∀ topic_name client_id taken, event ≠ .deliver topic_name client_id taken) : effects = [] := by
  cases event with
  | start client_pid command =>
    simp only [step, Option.dite_none_right_eq_some, Option.ite_none_right_eq_some] at hstep
    obtain ⟨_, _, heq⟩ := hstep
    exact (Prod.mk.inj (Option.some.inj heq)).2.symm
  | request action payload =>
    simp only [step, Option.dite_none_right_eq_some] at hstep
    obtain ⟨_, _, heq⟩ := hstep
    exact (Prod.mk.inj (Option.some.inj heq)).2.symm
  | act p action =>
    simp only [step] at hstep
    split at hstep
    · cases hstep
    · split at hstep
      · obtain ⟨_, _, heq⟩ := Option.map_eq_some_iff.mp hstep
        exact (Prod.mk.inj heq).2.symm
      · cases hstep
  | exit p => exact (Prod.mk.inj (Option.some.inj hstep)).2.symm
  | handle => exact absurd rfl hhandle
  | register => exact absurd rfl hregister
  | deliver => exact absurd rfl (hdeliver _ _ _)

/-- What a step writes to the processes: the answer to a SUBSCRIBE, or a message that the
worker of a topic hands out. -/
theorem Strangers.step_emits {self next : Broker H} {event : Event} {effects : List Effect}
    (hstrangers : self.Strangers)
    (hhealthy : ∀ topic_name topic, self.server.topics.find topic_name = some topic → topic.Healthy)
    (hstep : self.step event = some (next, effects)) :
    ((∀ q, effects.filterMap (self.reaching q) = []) ∧ (event = .handle → next.procs = self.procs)) ∨
      (∃ p request hrequest rest code status, self.queue = .subscribe p request hrequest :: rest ∧
        (code ≠ .SUCCESS ∧ status = .rejected ∨ code = .SUCCESS ∧ ∃ start_offset, status = .accepted start_offset) ∧
        next.procs = (self.answer request code).modify p (Process.note status) ∧
        effects = [Server.send_response request.pid code []]) ∨
      event ≠ .handle ∧ ∃ topic_name client_id sub msg, self.server.entry topic_name client_id = some sub ∧
        msg ∈ self.server.log topic_name ∧ ∀ q, effects.filterMap (self.reaching q) = [] ∨
          sub.fifo_fd = some q ∧ effects.filterMap (self.reaching q) = [msg.frame] := by
  have hsilent := step_silent hstep
  cases event with
  | handle =>
    obtain ⟨_, ⟨p, request, hrequest, rest, code, hqueue, hcode, rfl, rfl⟩ |
      ⟨p, request, hrequest, rest, sub, server, hqueue, _, haccepted, rfl⟩ |
      ⟨sent, rest, hqueue, hother, rfl, rfl⟩⟩ := handle_cases hstep
    · exact .inr (.inl ⟨p, request, hrequest, rest, code, .rejected, hqueue, .inl ⟨hcode, rfl⟩, rfl, rfl⟩)
    · exact .inr (.inl ⟨p, request, hrequest, rest, .SUCCESS, .accepted sub.start_offset, hqueue,
        .inr ⟨rfl, _, rfl⟩, rfl, haccepted.effects_eq⟩)
    · exact .inl ⟨hstrangers.served_silent hqueue hother, fun _ => rfl⟩
  | register =>
    obtain ⟨p, sub, _, _, rfl⟩ := register_cases hstep
    exact .inl ⟨fun q => self.reaching_of_mute q (self.server.register_subscriber_mute sub _), by simp⟩
  | deliver topic_name client_id taken =>
    obtain ⟨topic, served, calls, hfound, hdeliver, rfl, rfl⟩ := deliver_cases hstep
    obtain ⟨sub, msg, hfind, hmsg, rfl, _⟩ := (hhealthy _ _ hfound).synced.deliver_next_cases hdeliver
    refine .inr (.inr ⟨by simp, topic_name, client_id, sub, msg, ?_, ?_, fun q => ?_⟩)
    · rw [Server.entry_of_find hfound, hfind]
    · rw [Server.log_of_find hfound]
      exact List.mem_of_getElem? hmsg
    · rw [List.filterMap_map, show self.reaching q ∘ Effect.syscall = Syscall.delivered q from rfl]
      exact sub.served_delivered msg _ q
  | _ =>
    obtain rfl := hsilent (by simp) (by simp) (by simp)
    exact .inl ⟨fun _ => rfl, by simp⟩

/-- Nothing is written for a number that no process has yet. -/
theorem Sessions.unstarted {self next : Broker H} {event : Event} {effects : List Effect} (hsessions : self.Sessions)
    (hstrangers : self.Strangers)
    (hhealthy : ∀ topic_name topic, self.server.topics.find topic_name = some topic → topic.Healthy)
    (hstep : self.step event = some (next, effects)) {q : Nat} (hnone : self.procs[q]? = none) :
    effects.filterMap (self.reaching q) = [] := by
  rcases hstrangers.step_emits hhealthy hstep with ⟨hsilent, _⟩ | ⟨p, request, _, _, code, _, _, _, _, rfl⟩ |
      ⟨_, topic_name, client_id, sub, msg, hentry, _, hemits⟩
  · exact hsilent q
  · have hnobody : holder self.procs (client_fifo_path request.pid) ≠ some q := by
      intro hholder
      obtain ⟨proc, hproc, _⟩ := holder_some hholder
      rw [hnone] at hproc
      cases hproc
    simp [Server.send_response, reaching, hnobody]
  · rcases hemits q with hsilent | ⟨hfd, _⟩
    · exact hsilent
    · obtain ⟨proc, hproc, _⟩ := hsessions.opened _ _ sub q hentry hfd
      rw [hnone] at hproc
      cases hproc

theorem Sessions.gets {self next : Broker H} {event : Event} {effects : List Effect} (hsessions : self.Sessions)
    (hstrangers : self.Strangers)
    (hhealthy : ∀ topic_name topic, self.server.topics.find topic_name = some topic → topic.Healthy)
    (hstep : self.step event = some (next, effects)) {q : Nat} {old proc : Process} (hold : self.procs[q]? = some old)
    (hproc : next.procs[q]? = some proc) : Gets self q old proc (effects.filterMap (self.reaching q)) := by
  have hmoves := step_moves hstep
  have hstatus : event ≠ .handle → proc.status = old.status ∨ old.status = .unsent ∧ proc.status = .queued := by
    intro hevent
    obtain ⟨found, hfound, hfollows⟩ := hsessions.process_after hmoves hold
    obtain rfl := Option.some.inj (hproc.symm.trans hfound)
    rcases hfollows.status with hsame | hsent | ⟨_, ⟨request, hrequest, hqueue⟩, _⟩
    · exact .inl hsame
    · exact .inr hsent
    · have hlength := (hmoves.queue_grows hevent).length_le
      rw [hqueue, List.length_cons] at hlength
      omega
  rcases hstrangers.step_emits hhealthy hstep with ⟨hsilent, hhandled⟩ |
      ⟨p, request, hrequest, rest, code, status, hqueue, houtcome, hprocs, rfl⟩ |
      ⟨hevent, topic_name, client_id, sub, msg, hentry, hmsg, hemits⟩
  · rw [hsilent q]
    by_cases hevent : event = .handle
    · rw [hhandled hevent] at hproc
      obtain rfl := Option.some.inj (hold.symm.trans hproc)
      exact .nothing (.inl rfl)
    · exact .nothing (hstatus hevent)
  · exact hsessions.answer_gets hqueue houtcome hold (hprocs ▸ hproc)
  · rcases hemits q with hsilent | ⟨hfd, hframe⟩
    · rw [hsilent]
      exact .nothing (hstatus hevent)
    · rw [hframe]
      refine .message hentry hfd hmsg ?_
      obtain ⟨found, hfound, hhas⟩ := hsessions.opened _ _ sub q hentry hfd
      obtain rfl := Option.some.inj (hold.symm.trans hfound)
      obtain ⟨start_offset, haccepted⟩ := hhas.accepted
      rcases hstatus hevent with hsame | ⟨hunsent, _⟩
      · exact hsame
      · rw [haccepted] at hunsent
        cases hunsent

/-- What the calls of a topic deliver to a descriptor is what its FIFO receives. -/
theorem perform_calls (calls : List Syscall) (procs : List Process) (q : Nat) :
    ((calls.map Effect.syscall).foldl perform procs)[q]? =
      procs[q]?.map (Process.receive (calls.filterMap (Syscall.delivered q)).flatten) := by
  induction calls generalizing procs with
  | nil => simp
  | cons call rest ih =>
    have hone : (perform procs (.syscall call))[q]? =
        procs[q]?.map (Process.receive ((call.delivered q).getD [])) := by
      unfold perform Syscall.delivered
      split
      · rename_i heq
        cases heq
      · rename_i p bytes heq
        cases heq
        rw [List.getElem?_modify]
        by_cases hp : p = q <;> simp [hp]
      · rename_i hnone
        split
        · exact absurd rfl (hnone _ _)
        · simp
    rw [List.map_cons, List.foldl_cons, ih, hone, Option.map_map]
    congr 1
    funext proc
    rw [Function.comp_apply, Process.receive_receive]
    cases hcall : call.delivered q <;> simp [hcall]

/-- What a process does takes bytes from the front of its FIFO. -/
theorem Acted.pipe_suffix {old proc : Process} {p : Nat} {frames : List Sent} (hacted : Acted old p proc frames) :
    proc.pipe <:+ old.pipe := by
  cases hacted with
  | accepted _ hread => exact handshake_suffix hread
  | refused _ hread => exact handshake_suffix hread
  | output _ hread => exact read_delivery_suffix hread
  | stop _ hread => exact read_delivery_suffix hread
  | _ => exact List.suffix_rfl

/-- The FIFO of a process receives what the step writes to it, after what the process
has left of it. -/
theorem Sessions.pipe_after {self next : Broker H} {event : Event} {effects : List Effect} (hsessions : self.Sessions)
    (hstrangers : self.Strangers) (hstep : self.step event = some (next, effects)) {q : Nat} {old proc : Process}
    (hold : self.procs[q]? = some old) (hproc : next.procs[q]? = some proc) :
    ∃ left, left <:+ old.pipe ∧ proc.pipe = left ++ (effects.filterMap (self.reaching q)).flatten := by
  have hsame : self.procs[q]? = some proc → ∃ left, left <:+ old.pipe ∧ proc.pipe = left ++ [] := by
    intro hproc
    obtain rfl := Option.some.inj (hold.symm.trans hproc)
    exact ⟨old.pipe, List.suffix_rfl, by simp⟩
  have hanswered : ∀ {p : Nat} {request : Request.Subscribe} {hrequest} {rest : List Sent} {code : StatusCode}
      {status : Status}, self.queue = .subscribe p request hrequest :: rest →
      ((self.answer request code).modify p (Process.note status))[q]? = some proc → ∃ left, left <:+ old.pipe ∧
        proc.pipe = left ++ ([Server.send_response request.pid code []].filterMap (self.reaching q)).flatten := by
    intro p request hrequest rest code status hqueue hafter
    rw [hsessions.answer_getElem? hqueue, hold] at hafter
    refine ⟨old.pipe, List.suffix_rfl, ?_⟩
    have hmem : .subscribe p request hrequest ∈ self.queue := hqueue ▸ List.mem_cons_self
    split at hafter
    · rename_i hp
      subst hp
      obtain rfl := Option.some.inj hafter
      by_cases hholder : holder self.procs (client_fifo_path request.pid) = some p <;>
        simp [Server.send_response, reaching, hholder, Process.note, Process.receive]
    · rename_i hp
      obtain rfl := Option.some.inj hafter
      have hother : holder self.procs (client_fifo_path request.pid) ≠ some q := fun hholder =>
        hp (hsessions.own p request hrequest hmem q (holder_some hholder)).symm
      simp [Server.send_response, reaching, hother]
  have hsilent := step_silent hstep
  have hmoves := step_moves hstep
  cases event with
  | handle =>
    obtain ⟨_, ⟨p, request, hrequest, rest, code, hqueue, hcode, rfl, rfl⟩ |
      ⟨p, request, hrequest, rest, sub, server, hqueue, _, haccepted, rfl⟩ |
      ⟨sent, rest, hqueue, hother, rfl, rfl⟩⟩ := handle_cases hstep
    · exact hanswered hqueue hproc
    · rw [haccepted.effects_eq]
      exact hanswered hqueue hproc
    · rw [hstrangers.served_silent hqueue hother q]
      exact hsame hproc
  | register =>
    obtain ⟨p, sub, _, rfl, rfl⟩ := register_cases hstep
    rw [self.reaching_of_mute q (self.server.register_subscriber_mute sub _)]
    exact hsame hproc
  | deliver topic_name client_id taken =>
    obtain ⟨topic, served, calls, hfound, hdeliver, rfl, rfl⟩ := deliver_cases hstep
    have hproc := (perform_calls calls self.procs q).symm.trans hproc
    rw [hold] at hproc
    obtain rfl := Option.some.inj hproc
    exact ⟨old.pipe, List.suffix_rfl, by rw [List.filterMap_map]; rfl⟩
  | start client_pid command =>
    obtain rfl := hsilent (by simp) (by simp) (by simp)
    cases hmoves with
    | start =>
      obtain ⟨hlt, _⟩ := List.getElem?_eq_some_iff.mp hold
      rw [List.getElem?_append_left hlt] at hproc
      exact hsame hproc
  | request =>
    obtain rfl := hsilent (by simp) (by simp) (by simp)
    cases hmoves with
    | request => exact hsame hproc
  | act p action =>
    obtain rfl := hsilent (by simp) (by simp) (by simp)
    cases hmoves with
    | act hacting halive hacted =>
      rcases set_cases hacting hold hproc with ⟨rfl, rfl, rfl⟩ | ⟨_, hproc⟩
      · exact ⟨_, Acted.pipe_suffix hacted, by simp⟩
      · exact hsame hproc
  | exit p =>
    obtain rfl := hsilent (by simp) (by simp) (by simp)
    cases hmoves with
    | exit =>
      rw [List.getElem?_modify, hold] at hproc
      obtain rfl := Option.some.inj hproc
      refine ⟨old.pipe, List.suffix_rfl, ?_⟩
      split <;> simp [Process.kill]

end treenity.broker.Broker

import Treenity.Broker.AtLeastOnce
import Treenity.Broker.Ownership

open treenity.protocol treenity.data_structures treenity.ipc treenity.client treenity.server treenity.foundation

namespace treenity.broker

/-- The offset that an ACK of the name is to record. -/
def Sent.commits (client_id : Bytes) : Sent → Option UInt32
  | .ack _ name next_offset _ => if name = client_id then some next_offset else none
  | _ => none

/-- A message has been printed and not yet been acknowledged. -/
def Phase.owes : Phase → Bool
  | .acking _ => true
  | _ => false

namespace Broker

variable {H : StdHash}

/-- The offset the index has for the name, or zero for an unknown name. -/
def recorded_offset (self : Broker H) (client_id : Bytes) : UInt32 :=
  ((self.server.client_index.find client_id).map ClientMetadata.offset).getD 0

/-- The offset of the name in the index, and those it is still to get from the ACKs on
their way. -/
def offsets (self : Broker H) (client_id : Bytes) : List UInt32 :=
  self.recorded_offset client_id :: self.queue.filterMap (Sent.commits client_id)

/-- The offset of the name when these ACKs have been handled. -/
def committed (self : Broker H) (client_id : Bytes) : UInt32 := (self.offsets client_id).getLastD 0

/-- No process of the name ends between printing a message and acknowledging it. -/
def settling (self : Broker H) (client_id : Bytes) : Event → Bool
  | .exit p => self.procs[p]?.all fun proc =>
      proc.command.subscriber != client_id || !proc.alive || !proc.phase.owes
  | _ => true

/-- Everything that is asked of the sessions of a name: they are alike, one begins when
all ACKs and DISCONNECTs of those before it are handled, and they end settled. -/
def handed_over (self : Broker H) (client_id topic_name pref : Bytes) (event : Event) : Bool :=
  self.fresh event && alike client_id topic_name pref event && self.orderly client_id event &&
    self.settling client_id event

/-- Some process of the name has printed a message with this offset; the position is its
number and the place in its output. -/
def PrintedAt (self : Broker H) (client_id : Bytes) (offset : UInt32) (position : Nat × Nat) : Prop :=
  ∃ proc msg, self.procs[position.1]? = some proc ∧ proc.command.subscriber = client_id ∧
    proc.output[position.2]? = some msg ∧ msg.offset = offset

/-- How printing and committing go together under a name: the offsets only go up; what
is printed is committed unless its process still owes the ACK; and what its live
process prints next is not committed yet. -/
structure Commits (client_id : Bytes) (broker : Broker H) : Prop where
  owner : ∀ p, broker.owner client_id = some p → (∃ recorded, broker.server.client_index.find client_id = some recorded) ∧
    ∃ proc start_offset, broker.procs[p]? = some proc ∧ proc.status = .accepted start_offset
  sorted : ((broker.offsets client_id).map UInt32.toNat).Pairwise (· ≤ ·)
  printed : ∀ (q : Nat) (proc : Process), broker.procs[q]? = some proc → proc.command.subscriber = client_id →
    ∀ msg ∈ proc.output, msg.offset.toNat < (broker.committed client_id).toNat ∨
      proc.alive = true ∧ proc.phase = .acking (msg.offset + 1)
  owing : ∀ (q : Nat) (proc : Process) next_offset, broker.procs[q]? = some proc →
    proc.command.subscriber = client_id → proc.alive = true → proc.phase = .acking next_offset →
      (broker.committed client_id).toNat < next_offset.toNat
  reading : ∀ (q : Nat) (proc : Process) start_offset, broker.procs[q]? = some proc →
    proc.command.subscriber = client_id → proc.alive = true → proc.status = .accepted start_offset →
    proc.phase = .waiting ∨ proc.phase = .listening →
      broker.committed client_id = start_offset ∨ ∃ msg ∈ proc.output, broker.committed client_id = msg.offset + 1
  once : ∀ offset position other, broker.PrintedAt client_id offset position → broker.PrintedAt client_id offset other →
    position = other

theorem committed_of_recorded {self : Broker H} {client_id : Bytes}
    (hnone : self.queue.filterMap (Sent.commits client_id) = []) :
    self.committed client_id = self.recorded_offset client_id := by
  simp [committed, offsets, hnone]

/-- An ACK of a name that has an owner is recorded. -/
theorem served_ack_index {self : Broker H} (p : Nat) {client_id : Bytes} (next_offset : UInt32)
    (hname : client_id.length ≤ 32) {recorded : ClientMetadata}
    (hknown : self.server.client_index.find client_id = some recorded) :
    (self.served (.ack p client_id next_offset hname)).client_index.find client_id =
      some { recorded with offset := next_offset } := by
  have hparse := parse_ack_payload hname next_offset
  rcases (Server.handle_commit_cases self.server (Request.ack_payload client_id next_offset)).2 with
    ⟨_, hunknown⟩ | ⟨found, offset, old, hcommitted⟩
  · rw [hunknown client_id next_offset hparse] at hknown
    cases hknown
  · obtain ⟨rfl, rfl⟩ := Prod.mk.inj (Except.ok.inj (hparse.symm.trans hcommitted.parsed))
    obtain rfl := Option.some.inj (hknown.symm.trans hcommitted.known)
    have hindex := hcommitted.index client_id
    rw [if_pos rfl] at hindex
    exact hindex

/-- A SUBSCRIBE without an offset starts from the recorded one. -/
theorem Alike.start_offset_eq {self : Broker H} {client_id topic_name pref : Bytes}
    (halike : Alike client_id topic_name pref self) (hsessions : self.Sessions) {p : Nat} {request : Request.Subscribe}
    {hrequest : Request.parse_subscribe (Request.subscribe_payload request) = .ok request} {rest : List Sent}
    (hqueue : self.queue = .subscribe p request hrequest :: rest) {sub : Server.Subscription} {server : Server H}
    {effects : List Effect}
    (haccepted : self.server.Accepted (Request.subscribe_payload request) self.kernel.reader_active sub server effects
      request)
    (hname : sub.client_id = client_id) : sub.start_offset = self.recorded_offset client_id := by
  obtain ⟨proc, hproc, _, _, rfl⟩ := hsessions.first hqueue
  have hclient : sub.client_id = proc.command.subscriber := by rw [haccepted.sub_eq]; rfl
  obtain ⟨_, _, hoffset⟩ := halike p proc hproc (hclient.symm.trans hname)
  have hunset : proc.request.offset = OFFSET_UNSET := by simp [Process.request, subscribe_request, hoffset]
  have hstart : sub.start_offset = Server.start_offset proc.request.offset
      (self.server.client_index.find sub.client_id) := by rw [haccepted.sub_eq]
  rw [hstart, hunset, hname, recorded_offset]
  cases self.server.client_index.find client_id <;> rfl

/-- All but the actions of processes leave the offsets of a name as they are, or
record the next one. -/
theorem Moves.offsets_after {self next : Broker H} {event : Event} (hmoves : self.Moves event next)
    (hevent : ∀ p action, event ≠ .act p action) {client_id topic_name pref : Bytes}
    (halike : Alike client_id topic_name pref self) (hsessions : self.Sessions)
    (howned : self.Owned client_id) (hcommits : self.Commits client_id) :
    next.offsets client_id = self.offsets client_id ∨
      ∃ first, self.offsets client_id = first :: next.offsets client_id := by
  cases hmoves with
  | start => exact .inl rfl
  | request => exact .inl (by simp [offsets, recorded_offset, Sent.commits])
  | act => exact absurd rfl (hevent _ _)
  | exit => exact .inl rfl
  | rejected hrequest hpending hqueue => exact .inl (by simp [offsets, recorded_offset, hqueue, List.filterMap_cons, Sent.commits])
  | accepted hrequest hpending hqueue haccept haccepted =>
    rename_i p request rest sub server effects
    have hqueued : self.queue.filterMap (Sent.commits client_id) = rest.filterMap (Sent.commits client_id) := by
      simp [hqueue, List.filterMap_cons, Sent.commits]
    left
    rw [offsets, offsets, hqueued]
    congr 1
    by_cases hname : sub.client_id = client_id
    · rw [← halike.start_offset_eq hsessions hqueue haccepted hname, recorded_offset, haccepted.next_eq, ← hname]
      simp [Server.Subscription.metadata]
    · rw [recorded_offset, haccepted.next_eq, HashMap.find_insert_or_assign, if_neg (Ne.symm hname), recorded_offset]
  | committed hname hpending hqueue hcommitted =>
    rename_i p name next_offset rest recorded
    by_cases hsame : name = client_id
    · right
      refine ⟨self.recorded_offset client_id, ?_⟩
      have hindex := hcommitted.index client_id
      rw [if_pos hsame.symm] at hindex
      have hafter : recorded_offset { self with
          server := self.served (.ack p name next_offset hname), pending := none, queue := rest } client_id =
            next_offset := by
        simp [recorded_offset, hindex]
      rw [offsets, offsets, hafter]
      simp [hqueue, Sent.commits, hsame]
    · left
      simp [offsets, recorded_offset, hqueue, Sent.commits, hsame, hcommitted.index, Ne.symm hsame]
  | disconnected hname hpending hqueue hdisconnected =>
    rename_i p name rest recorded
    left
    by_cases hsame : client_id = name
    · subst hsame
      simp [offsets, recorded_offset, hqueue, List.filterMap_cons, Sent.commits, hdisconnected.index, hdisconnected.known]
    · simp [offsets, recorded_offset, hqueue, List.filterMap_cons, Sent.commits, hdisconnected.index, hsame]
  | quiet hpending hqueue hother hquiet =>
    rename_i sent rest
    have hindex := hquiet.client_index
    cases hcommits' : sent.commits client_id with
    | none => exact .inl (by simp [offsets, recorded_offset, hqueue, hcommits', hindex])
    | some next_offset =>
      -- An ACK of the name is never lost, since the name has an owner.
      cases sent with
      | ack p name offset hlength =>
        simp only [Sent.commits, Option.ite_none_right_eq_some, Option.some.injEq] at hcommits'
        obtain ⟨rfl, rfl⟩ := hcommits'
        have howner := howned.authors (.ack p name offset hlength) (hqueue ▸ List.mem_cons_self) p (if_pos rfl)
        obtain ⟨⟨recorded, hknown⟩, _⟩ := hcommits.owner p howner
        have hafter := served_ack_index p offset hlength hknown
        refine .inr ⟨self.recorded_offset name, ?_⟩
        simp [offsets, recorded_offset, hqueue, Sent.commits, hafter]
      | _ => cases hcommits'
  | register => exact .inl (by simp [offsets, recorded_offset])
  | deliver => exact .inl rfl

theorem committed_of_offsets {self next : Broker H} {client_id : Bytes}
    (hoffsets : next.offsets client_id = self.offsets client_id ∨
      ∃ first, self.offsets client_id = first :: next.offsets client_id) :
    next.committed client_id = self.committed client_id := by
  rcases hoffsets with hsame | ⟨first, hfirst⟩
  · rw [committed, hsame, committed]
  · rw [committed, committed, hfirst, List.getLastD_cons, offsets, List.getLastD_cons, List.getLastD_cons]

/-- The state after an action of the process `p`. -/
def acted (self : Broker H) (p : Nat) (moved : Process) (frames : List Sent) : Broker H :=
  { self with queue := self.queue ++ frames, procs := self.procs.set p moved }

/-- What an action of a process adds to the offsets of a name. -/
theorem offsets_acted (self : Broker H) (client_id : Bytes) {p : Nat} {proc moved : Process} {frames : List Sent}
    (hacted : Acted proc p moved frames) :
    (self.acted p moved frames).offsets client_id =
      self.offsets client_id ++
        match proc.phase with
        | .acking next_offset => if proc.command.subscriber = client_id then [next_offset] else []
        | _ => [] := by
  rw [offsets, offsets, acted, List.filterMap_append, ← List.cons_append]
  congr 1
  cases hacted with
  | ack hphase =>
    rw [hphase]
    by_cases hname : proc.command.subscriber = client_id <;> simp [Sent.commits, hname]
  | subscribe hphase => simp [hphase, Sent.commits]
  | disconnect hphase => simp [hphase, Sent.commits]
  | accepted hphase => simp [hphase]
  | refused hphase => simp [hphase]
  | output hphase => simp [hphase]
  | stop hphase => simp [hphase]

/-- All but its own actions leave what a process has printed and where it is. -/
theorem Moves.unacted {self next : Broker H} {event : Event} (hmoves : self.Moves event next)
    (hevent : ∀ p action, event ≠ .act p action) {q : Nat} {proc : Process} (hproc : next.procs[q]? = some proc)
    (hprinted : proc.phase ≠ .created ∨ proc.output ≠ []) :
    ∃ old, self.procs[q]? = some old ∧ proc.command = old.command ∧ proc.phase = old.phase ∧
      proc.output = old.output ∧ (proc.alive = true → old.alive = true) := by
  rcases hmoves.process_before hproc with ⟨old, hold, _, hcommand, halive, _⟩ | ⟨_, _, _, _, _, rfl⟩
  · rcases hmoves.phase_after hold hproc with ⟨hphase, houtput⟩ | ⟨⟨action, rfl⟩, _⟩
    · exact ⟨old, hold, hcommand, hphase, houtput, halive⟩
    · exact absurd rfl (hevent q action)
  · simp [Process.create] at hprinted

/-- A live process that owes an ACK outlives a step that lets the sessions settle. -/
theorem Moves.outlives {self next : Broker H} {event : Event} (hmoves : self.Moves event next) {client_id : Bytes}
    (hsettling : self.settling client_id event = true) {q : Nat} {old proc : Process} (hold : self.procs[q]? = some old)
    (hproc : next.procs[q]? = some proc) (hname : old.command.subscriber = client_id) (halive : old.alive = true)
    (howes : old.phase.owes = true) : proc.alive = true := by
  have hmarked : ∀ (procs : List Process) (p : Nat) (status : Status),
      (∃ more, procs[q]? = self.procs[q]?.map (Process.receive more)) →
      (procs.modify p (Process.note status))[q]? = some proc → proc.alive = true := by
    rintro procs p status ⟨more, hmore⟩ hnext
    rw [List.getElem?_modify, hmore, hold] at hnext
    obtain rfl := Option.some.inj hnext
    split
    · exact halive
    · exact halive
  have hsame : self.procs[q]? = some proc → proc.alive = true := by
    intro hproc
    obtain rfl := Option.some.inj (hold.symm.trans hproc)
    exact halive
  cases hmoves with
  | start =>
    obtain ⟨hlt, _⟩ := List.getElem?_eq_some_iff.mp hold
    rw [List.getElem?_append_left hlt] at hproc
    exact hsame hproc
  | act hacting hliving hacted =>
    rcases set_cases hacting hold hproc with ⟨rfl, rfl, rfl⟩ | ⟨_, hproc⟩
    · exact hacted.same.2.2.1.trans halive
    · exact hsame hproc
  | exit p =>
    have hp : p ≠ q := by
      rintro rfl
      simp [settling, hold, hname, halive, howes] at hsettling
    apply hsame
    simpa [hp] using hproc
  | rejected => exact hmarked _ _ _ (post_receive _ _ _ q) hproc
  | accepted => exact hmarked _ _ _ (post_receive _ _ _ q) hproc
  | deliver =>
    obtain ⟨more, hmore⟩ := perform_receive _ self.procs q
    dsimp only at hproc
    rw [hmore, hold] at hproc
    obtain rfl := Option.some.inj hproc
    exact halive
  | _ => exact hsame hproc

/-- No ACK of the name is on its way when the SUBSCRIBE of another process is accepted. -/
theorem Commits.none_on_way {self : Broker H} {client_id : Bytes} (hcommits : self.Commits client_id)
    (hsessions : self.Sessions) (howned : self.Owned client_id) {p : Nat} {request : Request.Subscribe}
    {hrequest : Request.parse_subscribe (Request.subscribe_payload request) = .ok request} {rest : List Sent}
    (hpending : self.pending = none) (hqueue : self.queue = .subscribe p request hrequest :: rest)
    {sub : Server.Subscription}
    (haccept : (self.server.accept_subscriber (Request.subscribe_payload request) self.kernel.reader_active).1 = some sub)
    (hname : request.client_id = client_id) (horderly : self.orderly client_id .handle = true) :
    self.queue.filterMap (Sent.commits client_id) = [] := by
  rw [List.filterMap_eq_nil_iff]
  intro sent hsent
  cases sent with
  | ack r name next_offset hlength =>
    by_cases hsame : name = client_id
    · subst hsame
      have hauthor : (Sent.ack r name next_offset hlength).author name = some r := if_pos rfl
      have howner := howned.authors _ hsent r hauthor
      obtain ⟨_, proc, start_offset, hproc, hstatus⟩ := hcommits.owner r howner
      obtain ⟨sender, hsender, hqueued, _⟩ := hsessions.first hqueue
      have hrest : rest.all (fun sent => (sent.author name).all (· == p)) = true := by
        simpa [orderly, hpending, hqueue, haccept, hname] using horderly
      rw [hqueue] at hsent
      have hbehind := List.all_eq_true.mp hrest _ ((List.mem_cons.mp hsent).resolve_left (by simp))
      rw [hauthor] at hbehind
      obtain rfl : r = p := beq_iff_eq.mp hbehind
      obtain rfl := Option.some.inj (hproc.symm.trans hsender)
      rw [hqueued] at hstatus
      cases hstatus
    · simp [Sent.commits, hsame]
  | _ => rfl

/-- A known name stays known. -/
theorem Moves.known_after {self next : Broker H} {event : Event} (hmoves : self.Moves event next) {client_id : Bytes}
    {recorded : ClientMetadata} (hknown : self.server.client_index.find client_id = some recorded) :
    ∃ later, next.server.client_index.find client_id = some later := by
  cases hmoves with
  | accepted hrequest hpending hqueue haccept haccepted =>
    rw [haccepted.next_eq, HashMap.find_insert_or_assign]
    split
    · exact ⟨_, rfl⟩
    · exact ⟨recorded, hknown⟩
  | committed hname hpending hqueue hcommitted =>
    rw [hcommitted.index]
    split
    · exact ⟨_, rfl⟩
    · exact ⟨recorded, hknown⟩
  | disconnected hname hpending hqueue hdisconnected =>
    rw [hdisconnected.index]
    split
    · exact ⟨_, rfl⟩
    · exact ⟨recorded, hknown⟩
  | quiet hpending hqueue hother hquiet => exact ⟨recorded, by rw [hquiet.client_index, hknown]⟩
  | register => exact ⟨recorded, by rw [Server.register_subscriber_client_index, hknown]⟩
  | _ => exact ⟨recorded, hknown⟩

theorem Commits.owner_step {self next : Broker H} {event : Event} {client_id : Bytes} (hcommits : self.Commits client_id)
    (hsessions : self.Sessions) (hlater : next.Sessions) (hmoves : self.Moves event next) :
    ∀ p, next.owner client_id = some p →
      (∃ recorded, next.server.client_index.find client_id = some recorded) ∧
        ∃ proc start_offset, next.procs[p]? = some proc ∧ proc.status = .accepted start_offset := by
  intro p howner
  have hstill : self.owner client_id = some p →
      (∃ recorded, next.server.client_index.find client_id = some recorded) ∧
        ∃ proc start_offset, next.procs[p]? = some proc ∧ proc.status = .accepted start_offset := by
    intro hbefore
    obtain ⟨⟨recorded, hknown⟩, old, start_offset, hold, hstatus⟩ := hcommits.owner p hbefore
    obtain ⟨proc, hproc, hfollows⟩ := hsessions.process_after hmoves hold
    exact ⟨hmoves.known_after hknown, proc, start_offset, hproc, hfollows.accepted hstatus⟩
  cases hmoves with
  | accepted hrequest hpending hqueue haccept haccepted =>
    rename_i r request rest sub server effects
    by_cases hname : sub.client_id = client_id
    · subst hname
      dsimp only at howner
      rw [Function.update_self] at howner
      obtain rfl := Option.some.inj howner
      obtain ⟨_, proc, hproc, hmade⟩ := hlater.pending r sub rfl
      refine ⟨⟨sub.metadata, ?_⟩, proc, sub.start_offset, hproc, hmade.status⟩
      rw [haccepted.next_eq]
      simp
    · dsimp only at howner
      rw [Function.update_of_ne (Ne.symm hname)] at howner
      exact hstill howner
  | _ => exact hstill howner

/-- A process of the name that is in its loop, and has not been accepted by this very step. -/
theorem Follows.accepted_before {self next : Broker H} {q : Nat} {old proc : Process}
    (hfollows : Follows self next q old proc) {start_offset : UInt32} (hstatus : proc.status = .accepted start_offset) :
    old.status = .accepted start_offset ∨
      ∃ sub, self.pending = none ∧ next.pending = some (q, sub) ∧ sub.start_offset = start_offset := by
  rcases hfollows.status with hsame | ⟨_, hqueued⟩ | ⟨-, -, hrejected | ⟨sub, hnone, hpending, haccepted⟩⟩
  · exact .inl (hsame ▸ hstatus)
  · rw [hqueued] at hstatus
    cases hstatus
  · rw [hrejected] at hstatus
    cases hstatus
  · exact .inr ⟨sub, hnone, hpending, Status.accepted.inj (haccepted.symm.trans hstatus)⟩

/-- What becomes pending is the SUBSCRIBE at the front, as the server accepted it. -/
theorem Moves.accept_eq {self next : Broker H} (hmoves : self.Moves .handle next) {p : Nat} {request : Request.Subscribe}
    {hrequest : Request.parse_subscribe (Request.subscribe_payload request) = .ok request} {rest : List Sent}
    (hqueue : self.queue = .subscribe p request hrequest :: rest) {q : Nat} {sub : Server.Subscription}
    (hpending : next.pending = some (q, sub)) :
    (self.server.accept_subscriber (Request.subscribe_payload request) self.kernel.reader_active).1 = some sub := by
  cases hmoves with
  | accepted _ _ hfirst haccept =>
    cases (List.cons.inj (hqueue.symm.trans hfirst)).1
    obtain ⟨_, rfl⟩ := Prod.mk.inj (Option.some.inj hpending)
    exact haccept
  | _ => cases hpending

theorem Commits.unacted_step {self next : Broker H} {event : Event} {client_id topic_name pref : Bytes}
    (hcommits : self.Commits client_id) (halike : Alike client_id topic_name pref self) (hsessions : self.Sessions)
    (hlater : next.Sessions) (howned : self.Owned client_id) (hmoves : self.Moves event next)
    (hevent : ∀ p action, event ≠ .act p action) (horderly : self.orderly client_id event = true)
    (hsettling : self.settling client_id event = true) : next.Commits client_id := by
  have hoffsets := hmoves.offsets_after hevent halike hsessions howned hcommits
  have hsame := committed_of_offsets hoffsets
  refine ⟨hcommits.owner_step hsessions hlater hmoves, ?_, ?_, ?_, ?_, ?_⟩
  · rcases hoffsets with hall | ⟨first, hfirst⟩
    · rw [hall]
      exact hcommits.sorted
    · have hsorted := hcommits.sorted
      rw [hfirst, List.map_cons] at hsorted
      exact hsorted.tail
  · intro q proc hproc hname msg hmsg
    obtain ⟨old, hold, hcommand, hphase, houtput, _⟩ :=
      hmoves.unacted hevent hproc (.inr (List.ne_nil_of_mem hmsg))
    rw [hcommand] at hname
    rw [houtput] at hmsg
    rw [hsame, hphase]
    rcases hcommits.printed q old hold hname msg hmsg with hbefore | ⟨halive, howing⟩
    · exact .inl hbefore
    · exact .inr ⟨hmoves.outlives hsettling hold hproc hname halive (by rw [howing]; rfl), howing⟩
  · intro q proc next_offset hproc hname halive hphase
    obtain ⟨old, hold, hcommand, hbefore, _, hliving⟩ := hmoves.unacted hevent hproc (.inl (by simp [hphase]))
    rw [hsame]
    exact hcommits.owing q old next_offset hold (hcommand ▸ hname) (hliving halive) (hbefore ▸ hphase)
  · intro q proc start_offset hproc hname halive hstatus hphase
    obtain ⟨old, hold, hcommand, hbefore, houtput, hliving⟩ := hmoves.unacted hevent hproc
      (.inl (by rcases hphase with hphase | hphase <;> simp [hphase]))
    obtain ⟨found, hfound, hfollows⟩ := hsessions.process_after hmoves hold
    obtain rfl := Option.some.inj (hproc.symm.trans hfound)
    rw [hsame, houtput]
    rcases hfollows.accepted_before hstatus with haccepted | ⟨sub, hnone, hpending, rfl⟩
    · exact hcommits.reading q old start_offset hold (hcommand ▸ hname) (hliving halive) haccepted (hbefore ▸ hphase)
    · -- The process begins where the name was left.
      obtain ⟨request, rest, server, effects, hrequest, rfl, hqueue, hdone, _⟩ :=
        hmoves.pending_new hpending (by simp [hnone])
      have haccept := hmoves.accept_eq hqueue hpending
      obtain ⟨sender, hsender, _, _, rfl⟩ := hsessions.first hqueue
      obtain rfl := Option.some.inj (hold.symm.trans hsender)
      have hrequester : old.command.subscriber = client_id := by rw [← hname, hcommand]
      have hclient : sub.client_id = client_id := by rw [hdone.sub_eq, ← hrequester]; rfl
      left
      rw [committed_of_recorded (hcommits.none_on_way hsessions howned hnone hqueue haccept hrequester horderly),
        halike.start_offset_eq hsessions hqueue hdone hclient]
  · have hback : ∀ offset position, next.PrintedAt client_id offset position → self.PrintedAt client_id offset position := by
      rintro offset position ⟨proc, msg, hproc, hname, hmsg, hoffset⟩
      obtain ⟨old, hold, hcommand, _, houtput, _⟩ :=
        hmoves.unacted hevent hproc (.inr (List.ne_nil_of_mem (List.mem_of_getElem? hmsg)))
      exact ⟨old, msg, hold, hcommand ▸ hname, houtput ▸ hmsg, hoffset⟩
    intro offset position other hposition hother
    exact hcommits.once offset position other (hback _ _ hposition) (hback _ _ hother)

/-- Only one process of a name at a time lives, is accepted and has not disconnected. -/
theorem Owned.unique {self : Broker H} {client_id : Bytes} (howned : self.Owned client_id) {p q : Nat}
    {first second : Process} {first_offset second_offset : UInt32} (hfirst : self.procs[p]? = some first)
    (hsecond : self.procs[q]? = some second) (hfirst_alive : first.alive = true) (hsecond_alive : second.alive = true)
    (hfirst_status : first.status = .accepted first_offset) (hsecond_status : second.status = .accepted second_offset)
    (hfirst_name : first.command.subscriber = client_id) (hsecond_name : second.command.subscriber = client_id)
    (hfirst_phase : first.phase ≠ .disconnected) (hsecond_phase : second.phase ≠ .disconnected) : p = q := by
  have hp := (howned.stays p first _ hfirst hfirst_alive hfirst_status hfirst_name hfirst_phase).owner
  have hq := (howned.stays q second _ hsecond hsecond_alive hsecond_status hsecond_name hsecond_phase).owner
  exact Option.some.inj (hp.symm.trans hq)

/-- A process that owes an ACK is the only one of its name that is in its loop. -/
theorem Owned.unique_acking {self : Broker H} {client_id : Bytes} (howned : self.Owned client_id)
    (hsessions : self.Sessions) {p q : Nat} {first second : Process} {next_offset start_offset : UInt32}
    (hfirst : self.procs[p]? = some first) (hsecond : self.procs[q]? = some second) (hfirst_alive : first.alive = true)
    (hsecond_alive : second.alive = true) (hfirst_phase : first.phase = .acking next_offset)
    (hsecond_status : second.status = .accepted start_offset) (hfirst_name : first.command.subscriber = client_id)
    (hsecond_name : second.command.subscriber = client_id) (hsecond_phase : second.phase ≠ .disconnected) : p = q := by
  obtain ⟨first_offset, hstatus⟩ :=
    (hsessions.consistent p first hfirst).accepted (by simp [hfirst_phase]) (by simp [hfirst_phase]) (by simp [hfirst_phase])
  exact howned.unique hfirst hsecond hfirst_alive hsecond_alive hstatus hsecond_status hfirst_name hsecond_name
    (by simp [hfirst_phase]) hsecond_phase

/-- A process of the name in its loop reads only messages that are not committed yet. -/
theorem Commits.next_message {self : Broker H} {client_id : Bytes} (hcommits : self.Commits client_id)
    (hstreams : self.Streams) {p : Nat} {proc : Process} {start_offset : UInt32} {stop : Nat} {msg : Message}
    {rest : List Message} (hflows : self.Flows p proc start_offset stop (msg :: rest))
    (hproc : self.procs[p]? = some proc) (hname : proc.command.subscriber = client_id) (halive : proc.alive = true)
    (hstatus : proc.status = .accepted start_offset) (hphase : proc.phase = .listening)
    (hlog : (self.server.log proc.command.topic).length < 2 ^ 32 - 1) :
    (self.committed client_id).toNat ≤ msg.offset.toNat ∧ (msg.offset + 1).toNat = msg.offset.toNat + 1 ∧
      ∀ seen ∈ proc.output, seen.offset.toNat < msg.offset.toNat := by
  have hindexed : Indexed (fun msg => msg.offset.toNat) (self.server.log proc.command.topic) :=
    Server.log_indexed hstreams.healthy (by omega)
  have hwindow := hflows.read
  have hnext : ∀ other ∈ window (self.server.log proc.command.topic) proc.accepts start_offset.toNat stop,
      start_offset.toNat ≤ other.offset.toNat ∧ (other.offset + 1).toNat = other.offset.toNat + 1 := by
    intro other hother
    obtain ⟨hlogged, hstart, _⟩ := hindexed.pos_of_mem_window hother
    obtain ⟨hinside, _⟩ := List.getElem?_eq_some_iff.mp hlogged
    refine ⟨hstart, ?_⟩
    rw [UInt32.toNat_add]
    exact Nat.mod_eq_of_lt (by simpa using show other.offset.toNat + 1 < 2 ^ 32 by omega)
  have hbefore : ∀ seen ∈ proc.output, seen.offset.toNat < msg.offset.toNat := by
    have hsorted := hindexed.window_pairwise proc.accepts start_offset.toNat stop
    rw [← hwindow, List.map_append] at hsorted
    intro seen hseen
    exact (List.pairwise_append.mp hsorted).2.2 _ (List.mem_map_of_mem hseen) _ (by simp)
  obtain ⟨hstart, hsucc⟩ := hnext msg (by simp [← hwindow])
  refine ⟨?_, hsucc, hbefore⟩
  rcases hcommits.reading p proc start_offset hproc hname halive hstatus (.inr hphase) with hsame | ⟨seen, hseen, hsame⟩
  · rw [hsame]
    exact hstart
  · rw [hsame, (hnext seen (by simp [← hwindow, hseen])).2]
    exact hbefore seen hseen

/-- A process of the name prints a message that none of them has printed before. -/
theorem Commits.printing {self : Broker H} {client_id : Bytes} (hcommits : self.Commits client_id)
    (hsessions : self.Sessions) (howned : self.Owned client_id) {p : Nat} {proc : Process} {start_offset : UInt32}
    (hproc : self.procs[p]? = some proc) (hname : proc.command.subscriber = client_id) (halive : proc.alive = true)
    (hstatus : proc.status = .accepted start_offset) (hphase : proc.phase = .listening) {msg : Message}
    (hnew : (self.committed client_id).toNat ≤ msg.offset.toNat) (position : Nat × Nat) :
    ¬ self.PrintedAt client_id msg.offset position := by
  rintro ⟨other, printed, hother, hother_name, hprinted, hoffset⟩
  rcases hcommits.printed _ other hother hother_name printed (List.mem_of_getElem? hprinted) with hbefore | ⟨hother_alive, howing⟩
  · rw [hoffset] at hbefore
    omega
  · have hsame := howned.unique_acking hsessions hother hproc hother_alive halive howing hstatus hother_name hname
      (by simp [hphase])
    rw [hsame] at hother
    obtain rfl := Option.some.inj (hother.symm.trans hproc)
    rw [hphase] at howing
    cases howing

/-- What the processes of a name have printed and where they are, after an action of one. -/
theorem acted_process {self : Broker H} {p q : Nat} {moved proc : Process} {frames : List Sent}
    (hproc : (self.acted p moved frames).procs[q]? = some proc) :
    p = q ∧ moved = proc ∨ p ≠ q ∧ self.procs[q]? = some proc := by
  rw [acted, List.getElem?_set] at hproc
  split at hproc
  · rename_i hp
    split at hproc
    · exact .inl ⟨hp, Option.some.inj hproc⟩
    · cases hproc
  · rename_i hp
    exact .inr ⟨hp, hproc⟩

/-- An action that neither prints nor acknowledges anything under the name. -/
theorem Commits.silent {self : Broker H} {client_id : Bytes} (hcommits : self.Commits client_id) {p : Nat}
    {proc moved : Process} {frames : List Sent} (hproc : self.procs[p]? = some proc)
    (howner : ∀ r, (self.acted p moved frames).owner client_id = some r →
      (∃ recorded, (self.acted p moved frames).server.client_index.find client_id = some recorded) ∧
        ∃ found start_offset, (self.acted p moved frames).procs[r]? = some found ∧ found.status = .accepted start_offset)
    (hoffsets : (self.acted p moved frames).offsets client_id = self.offsets client_id)
    (hcommand : moved.command = proc.command) (hliving : moved.alive = proc.alive)
    (hprints : moved.command.subscriber = client_id → moved.output = proc.output ∧
      (∀ next_offset, proc.phase ≠ .acking next_offset) ∧ (∀ next_offset, moved.phase ≠ .acking next_offset) ∧
      ∀ start_offset, moved.status = .accepted start_offset → moved.phase = .waiting ∨ moved.phase = .listening →
        proc.status = .accepted start_offset ∧ (proc.phase = .waiting ∨ proc.phase = .listening)) :
    (self.acted p moved frames).Commits client_id := by
  have hsame : (self.acted p moved frames).committed client_id = self.committed client_id :=
    committed_of_offsets (.inl hoffsets)
  refine ⟨howner, ?_, ?_, ?_, ?_, ?_⟩
  · rw [hoffsets]
    exact hcommits.sorted
  · intro q found hfound hname msg hmsg
    rw [hsame]
    rcases acted_process hfound with ⟨rfl, rfl⟩ | ⟨_, hold⟩
    · obtain ⟨houtput, hbefore, _⟩ := hprints hname
      rcases hcommits.printed p proc hproc (hcommand ▸ hname) msg (houtput ▸ hmsg) with hless | ⟨_, howing⟩
      · exact .inl hless
      · exact absurd howing (hbefore _)
    · exact hcommits.printed q found hold hname msg hmsg
  · intro q found next_offset hfound hname halive hphase
    rw [hsame]
    rcases acted_process hfound with ⟨rfl, rfl⟩ | ⟨_, hold⟩
    · exact absurd hphase ((hprints hname).2.2.1 next_offset)
    · exact hcommits.owing q found next_offset hold hname halive hphase
  · intro q found start_offset hfound hname halive hstatus hphase
    rw [hsame]
    rcases acted_process hfound with ⟨rfl, rfl⟩ | ⟨_, hold⟩
    · obtain ⟨houtput, _, _, hreading⟩ := hprints hname
      obtain ⟨hbefore, hloop⟩ := hreading start_offset hstatus hphase
      rw [houtput]
      exact hcommits.reading p proc start_offset hproc (hcommand ▸ hname) (hliving ▸ halive) hbefore hloop
    · exact hcommits.reading q found start_offset hold hname halive hstatus hphase
  · have hback : ∀ offset position, (self.acted p moved frames).PrintedAt client_id offset position →
        self.PrintedAt client_id offset position := by
      rintro offset position ⟨found, msg, hfound, hname, hmsg, hoffset⟩
      rcases acted_process hfound with ⟨hp, rfl⟩ | ⟨_, hold⟩
      · exact ⟨proc, msg, hp ▸ hproc, hcommand ▸ hname, (hprints hname).1 ▸ hmsg, hoffset⟩
      · exact ⟨found, msg, hold, hname, hmsg, hoffset⟩
    intro offset position other hposition hother
    exact hcommits.once offset position other (hback _ _ hposition) (hback _ _ hother)

/-- What a process in its loop reads is the next message of its stream. -/
theorem Streams.reads_next {self : Broker H} (hstreams : self.Streams) {p : Nat} {proc : Process}
    {start_offset : UInt32} (hproc : self.procs[p]? = some proc) (halive : proc.alive = true)
    (hstatus : proc.status = .accepted start_offset) (hphase : proc.phase = .listening)
    (hlog : (self.server.log proc.command.topic).length < 2 ^ 32 - 1) {read : Option Message} {left : Bytes}
    (hread : read_delivery proc.pipe = some (read, left)) :
    ∃ stop msg rest, read = some msg ∧ self.Flows p proc start_offset stop (msg :: rest) := by
  obtain ⟨stop, unread, hflows⟩ := hstreams.flows p proc start_offset hproc halive hstatus (.inr (.inl hphase)) hlog
  have hpipe := hflows.pipe
  rw [Process.answer, if_neg (by simp [hphase]), List.nil_append] at hpipe
  rw [hpipe] at hread
  obtain ⟨msg, rest, rfl, rfl, _⟩ := read_delivery_frames (hflows.readable hstreams.healthy hlog) hread
  exact ⟨stop, msg, rest, rfl, hflows⟩

theorem Commits.output_step {self : Broker H} {client_id : Bytes} (hcommits : self.Commits client_id)
    (hsessions : self.Sessions) (hstreams : self.Streams) (howned : self.Owned client_id) {p : Nat} {proc : Process}
    (hproc : self.procs[p]? = some proc) (hname : proc.command.subscriber = client_id) (halive : proc.alive = true)
    (hphase : proc.phase = .listening) (hlog : (self.server.log proc.command.topic).length < 2 ^ 32 - 1)
    {msg : Message} {left : Bytes} (hread : read_delivery proc.pipe = some (some msg, left)) {moved : Process}
    (hmoved : moved = { proc with phase := .acking (msg.offset + 1), pipe := left, output := proc.output ++ [msg] })
    (howner : ∀ r, (self.acted p moved []).owner client_id = some r →
      (∃ recorded, (self.acted p moved []).server.client_index.find client_id = some recorded) ∧
        ∃ found start_offset, (self.acted p moved []).procs[r]? = some found ∧ found.status = .accepted start_offset) :
    (self.acted p moved []).Commits client_id := by
  obtain ⟨start_offset, hstatus⟩ :=
    (hsessions.consistent p proc hproc).accepted (by simp [hphase]) (by simp [hphase]) (by simp [hphase])
  obtain ⟨stop, read, rest, hmsg, hflows⟩ := hstreams.reads_next hproc halive hstatus hphase hlog hread
  obtain rfl := Option.some.inj hmsg
  obtain ⟨hnew, hsucc, hbefore⟩ := hcommits.next_message hstreams hflows hproc hname halive hstatus hphase hlog
  have hfresh := hcommits.printing hsessions howned hproc hname halive hstatus hphase hnew
  have hoffsets : (self.acted p moved []).offsets client_id = self.offsets client_id := by
    rw [acted, List.append_nil]
    rfl
  have hsame : (self.acted p moved []).committed client_id = self.committed client_id :=
    committed_of_offsets (.inl hoffsets)
  subst hmoved
  refine ⟨howner, ?_, ?_, ?_, ?_, ?_⟩
  · rw [hoffsets]
    exact hcommits.sorted
  · intro q found hfound hfound_name other hother
    rw [hsame]
    rcases acted_process hfound with ⟨rfl, rfl⟩ | ⟨_, hold⟩
    · rcases List.mem_append.mp hother with hearlier | hlast
      · rcases hcommits.printed p proc hproc hname other hearlier with hless | ⟨_, howing⟩
        · exact .inl hless
        · rw [hphase] at howing
          cases howing
      · obtain rfl := List.mem_singleton.mp hlast
        exact .inr ⟨halive, rfl⟩
    · exact hcommits.printed q found hold hfound_name other hother
  · intro q found next_offset hfound hfound_name hfound_alive hfound_phase
    rw [hsame]
    rcases acted_process hfound with ⟨rfl, rfl⟩ | ⟨_, hold⟩
    · obtain rfl := Phase.acking.inj hfound_phase
      rw [hsucc]
      omega
    · exact hcommits.owing q found next_offset hold hfound_name hfound_alive hfound_phase
  · intro q found offset hfound hfound_name hfound_alive hfound_status hfound_phase
    rw [hsame]
    rcases acted_process hfound with ⟨rfl, rfl⟩ | ⟨_, hold⟩
    · rcases hfound_phase with hwaiting | hlistening
      · cases hwaiting
      · cases hlistening
    · exact hcommits.reading q found offset hold hfound_name hfound_alive hfound_status hfound_phase
  · -- A position is one from before, or that of the message just printed.
    have hback : ∀ offset position, (self.acted p { proc with
          phase := .acking (msg.offset + 1), pipe := left, output := proc.output ++ [msg] } []).PrintedAt
            client_id offset position →
        self.PrintedAt client_id offset position ∨ offset = msg.offset ∧ position = (p, proc.output.length) := by
      rintro offset ⟨q, i⟩ ⟨found, other, hfound, hfound_name, hother, rfl⟩
      rcases acted_process hfound with ⟨rfl, rfl⟩ | ⟨_, hold⟩
      · rcases Nat.lt_trichotomy i proc.output.length with hlt | rfl | hgt
        · have hearlier : (proc.output ++ [msg])[i]? = some other := hother
          rw [List.getElem?_append_left hlt] at hearlier
          exact .inl ⟨proc, other, hproc, hname, hearlier, rfl⟩
        · have hlast : msg = other := by simpa using hother
          exact .inr ⟨by rw [hlast], rfl⟩
        · have houtside : (proc.output ++ [msg])[i]? = some other := hother
          rw [List.getElem?_eq_none (by simp; omega)] at houtside
          cases houtside
      · exact .inl ⟨found, other, hold, hfound_name, hother, rfl⟩
    intro offset position other hposition hother
    rcases hback _ _ hposition with hfirst | ⟨rfl, rfl⟩ <;> rcases hback _ _ hother with hsecond | ⟨hoffset, rfl⟩
    · exact hcommits.once offset position other hfirst hsecond
    · exact absurd (hoffset ▸ hfirst) (hfresh _)
    · exact absurd hsecond (hfresh _)
    · rfl

theorem Commits.ack_step {self : Broker H} {client_id : Bytes} (hcommits : self.Commits client_id)
    (hsessions : self.Sessions) (hstreams : self.Streams) (howned : self.Owned client_id) {p : Nat} {proc : Process}
    (hproc : self.procs[p]? = some proc) (hname : proc.command.subscriber = client_id) (halive : proc.alive = true)
    {next_offset : UInt32} (hphase : proc.phase = .acking next_offset) {moved : Process} {frames : List Sent}
    (hmoved : moved = { proc with phase := .listening })
    (hframes : frames = [.ack p proc.command.subscriber next_offset proc.name_length])
    (howner : ∀ r, (self.acted p moved frames).owner client_id = some r →
      (∃ recorded, (self.acted p moved frames).server.client_index.find client_id = some recorded) ∧
        ∃ found start_offset, (self.acted p moved frames).procs[r]? = some found ∧ found.status = .accepted start_offset) :
    (self.acted p moved frames).Commits client_id := by
  have hoffsets : (self.acted p moved frames).offsets client_id = self.offsets client_id ++ [next_offset] := by
    rw [hmoved, hframes, offsets_acted self client_id (.ack hphase), hphase]
    simp [hname]
  have hcommitted : (self.acted p moved frames).committed client_id = next_offset := by
    rw [committed, hoffsets]
    simp
  have howes := hcommits.owing p proc next_offset hproc hname halive hphase
  obtain ⟨seen, last, houtput, hlast⟩ := (hstreams.prints p proc hproc).acking next_offset hphase
  -- No other process of the name is in its loop.
  have hother : ∀ (q : Nat) (found : Process) start_offset, p ≠ q → self.procs[q]? = some found →
      found.command.subscriber = client_id → found.alive = true → found.status = .accepted start_offset →
      found.phase ≠ .disconnected → False := by
    intro q found start_offset hp hfound hfound_name hfound_alive hfound_status hfound_phase
    exact hp (howned.unique_acking hsessions hproc hfound halive hfound_alive hphase hfound_status hname hfound_name
      hfound_phase)
  have hidle : ∀ (q : Nat) (found : Process) later, p ≠ q → self.procs[q]? = some found →
      found.command.subscriber = client_id → found.alive = true → found.phase = .acking later → False := by
    intro q found later hp hfound hfound_name hfound_alive hfound_phase
    obtain ⟨start_offset, hstatus⟩ := (hsessions.consistent q found hfound).accepted (by simp [hfound_phase])
      (by simp [hfound_phase]) (by simp [hfound_phase])
    exact hother q found start_offset hp hfound hfound_name hfound_alive hstatus (by simp [hfound_phase])
  subst hmoved
  refine ⟨howner, ?_, ?_, ?_, ?_, ?_⟩
  · rw [hoffsets, List.map_append, List.map_singleton]
    refine List.pairwise_append.mpr ⟨hcommits.sorted, List.pairwise_singleton _ _, ?_⟩
    intro before hbefore after hafter
    obtain rfl := List.mem_singleton.mp hafter
    -- The last offset is the greatest.
    obtain ⟨front, hfront⟩ : ∃ front, self.offsets client_id = front ++ [self.committed client_id] := by
      have hne : self.offsets client_id ≠ [] := List.cons_ne_nil _ _
      refine ⟨(self.offsets client_id).dropLast, ?_⟩
      rw [committed, List.getLastD_eq_getLast?, List.getLast?_eq_some_getLast hne, Option.getD_some,
        List.dropLast_append_getLast]
    have hsorted := hcommits.sorted
    rw [hfront, List.map_append] at hsorted hbefore
    rcases List.mem_append.mp hbefore with hin | hend
    · have hle := (List.pairwise_append.mp hsorted).2.2 before hin (self.committed client_id).toNat (by simp)
      omega
    · obtain rfl := List.mem_singleton.mp hend
      omega
  · intro q found hfound hfound_name msg hmsg
    rw [hcommitted]
    left
    rcases acted_process hfound with ⟨rfl, rfl⟩ | ⟨hp, hold⟩
    · rcases hcommits.printed p proc hproc hname msg hmsg with hless | ⟨_, howing⟩
      · omega
      · obtain rfl := Phase.acking.inj (hphase.symm.trans howing)
        have hsucc := UInt32.toNat_add msg.offset 1
        have hone : (1 : UInt32).toNat = 1 := rfl
        have hlt := msg.offset.toNat_lt
        omega
    · rcases hcommits.printed q found hold hfound_name msg hmsg with hless | ⟨hfound_alive, howing⟩
      · omega
      · exact absurd howing (fun _ => hidle q found _ hp hold hfound_name hfound_alive howing)
  · intro q found later hfound hfound_name hfound_alive hfound_phase
    rcases acted_process hfound with ⟨rfl, rfl⟩ | ⟨hp, hold⟩
    · cases hfound_phase
    · exact (hidle q found later hp hold hfound_name hfound_alive hfound_phase).elim
  · intro q found start_offset hfound hfound_name hfound_alive hfound_status hfound_phase
    rw [hcommitted]
    rcases acted_process hfound with ⟨rfl, rfl⟩ | ⟨hp, hold⟩
    · refine .inr ⟨last, ?_, hlast⟩
      rw [houtput]
      simp
    · refine (hother q found start_offset hp hold hfound_name hfound_alive hfound_status ?_).elim
      rcases hfound_phase with hfound_phase | hfound_phase <;> simp [hfound_phase]
  · have hback : ∀ offset position, (self.acted p { proc with phase := .listening } frames).PrintedAt client_id offset
        position → self.PrintedAt client_id offset position := by
      rintro offset position ⟨found, msg, hfound, hfound_name, hmsg, hoffset⟩
      rcases acted_process hfound with ⟨hp, rfl⟩ | ⟨_, hold⟩
      · exact ⟨proc, msg, hp ▸ hproc, hname, hmsg, hoffset⟩
      · exact ⟨found, msg, hold, hfound_name, hmsg, hoffset⟩
    intro offset position other hposition hother
    exact hcommits.once offset position other (hback _ _ hposition) (hback _ _ hother)

theorem Commits.acted_step {self : Broker H} {client_id topic_name pref : Bytes} (hcommits : self.Commits client_id)
    (halike : Alike client_id topic_name pref self) (hsessions : self.Sessions) (hstreams : self.Streams)
    (howned : self.Owned client_id) (hlog : (self.server.log topic_name).length < 2 ^ 32 - 1) {p : Nat}
    {proc moved : Process} {frames : List Sent} (hproc : self.procs[p]? = some proc) (halive : proc.alive = true)
    (hacted : Acted proc p moved frames)
    (howner : ∀ r, (self.acted p moved frames).owner client_id = some r →
      (∃ recorded, (self.acted p moved frames).server.client_index.find client_id = some recorded) ∧
        ∃ found start_offset, (self.acted p moved frames).procs[r]? = some found ∧ found.status = .accepted start_offset) :
    (self.acted p moved frames).Commits client_id := by
  obtain ⟨_, hcommand, hliving, _⟩ := hacted.same
  have hoffsets := offsets_acted self client_id hacted
  have hacted' := hacted
  cases hacted with
  | output hphase hread =>
    by_cases hname : proc.command.subscriber = client_id
    · refine hcommits.output_step hsessions hstreams howned hproc hname halive hphase ?_ hread rfl howner
      rw [(halike p proc hproc hname).1]
      exact hlog
    · refine hcommits.silent hproc howner ?_ rfl rfl (fun h => absurd h hname)
      simpa [hphase] using hoffsets
  | ack hphase =>
    by_cases hname : proc.command.subscriber = client_id
    · exact hcommits.ack_step hsessions hstreams howned hproc hname halive hphase rfl rfl howner
    · refine hcommits.silent hproc howner ?_ rfl rfl (fun h => absurd h hname)
      simpa [hphase, hname] using hoffsets
  | subscribe hphase =>
    exact hcommits.silent hproc howner (by simpa [hphase] using hoffsets) rfl rfl (fun _ => by simp [hphase])
  | accepted hphase =>
    refine hcommits.silent hproc howner (by simpa [hphase] using hoffsets) rfl rfl (fun _ => ⟨rfl, ?_, ?_, ?_⟩)
    · simp [hphase]
    · simp
    · exact fun start_offset hstatus _ => ⟨hstatus, .inl hphase⟩
  | refused hphase =>
    exact hcommits.silent hproc howner (by simpa [hphase] using hoffsets) rfl rfl (fun _ => by simp [hphase])
  | stop hphase =>
    exact hcommits.silent hproc howner (by simpa [hphase] using hoffsets) rfl rfl (fun _ => by simp [hphase])
  | disconnect hphase =>
    exact hcommits.silent hproc howner (by simpa [hphase] using hoffsets) rfl rfl (fun _ => by simp [hphase])

theorem Commits.step {self next : Broker H} {event : Event} {client_id topic_name pref : Bytes}
    (hcommits : self.Commits client_id) (halike : Alike client_id topic_name pref self) (hsessions : self.Sessions)
    (hlater : next.Sessions) (hstreams : self.Streams) (howned : self.Owned client_id) (hmoves : self.Moves event next)
    (hlog : (self.server.log topic_name).length < 2 ^ 32 - 1) (horderly : self.orderly client_id event = true)
    (hsettling : self.settling client_id event = true) : next.Commits client_id := by
  have howner := hcommits.owner_step hsessions hlater hmoves
  have hunacted := hcommits.unacted_step halike hsessions hlater howned hmoves
  cases hmoves with
  | act hproc halive hacted => exact hcommits.acted_step halike hsessions hstreams howned hlog hproc halive hacted howner
  | _ => exact hunacted (by simp) horderly hsettling

end Broker

end treenity.broker

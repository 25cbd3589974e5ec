import Treenity.Topic.Progress

open treenity.protocol treenity.data_structures treenity.foundation

namespace treenity.server

/-- The part of a trace in which a descriptor that is open at its start stays open. -/
def lifetime (fd : Fd) (calls : List Syscall) : List Syscall :=
  calls.takeWhile (fun call => decide (call ≠ .close fd))

/-- The bytes a call delivers to a descriptor. -/
def Syscall.delivered (fd : Fd) : Syscall → Option Bytes
  | .write target bytes true => if target = fd then some bytes else none
  | _ => none

/-- The byte strings written to a descriptor until it is closed, in order. -/
def written (fd : Fd) (calls : List Syscall) : List Bytes :=
  (lifetime fd calls).filterMap (Syscall.delivered fd)

theorem lifetime_of_open {fd : Fd} {calls : List Syscall} (hopen : .close fd ∉ calls) (more : List Syscall) :
    lifetime fd (calls ++ more) = calls ++ lifetime fd more :=
  List.takeWhile_append_of_pos (fun call hcall => by
    simp only [decide_eq_true_eq]
    rintro rfl
    exact hopen hcall)

@[simp] theorem lifetime_append_closed (fd : Fd) (calls more : List Syscall) :
    lifetime fd (calls ++ .close fd :: more) = lifetime fd calls := by
  induction calls with
  | nil => simp [lifetime]
  | cons call rest ih =>
    by_cases hclose : call = .close fd
    · simp [lifetime, hclose]
    · simpa [lifetime, hclose] using ih

theorem lifetime_of_closed {fd : Fd} {calls : List Syscall} (hclosed : .close fd ∈ calls) (more : List Syscall) :
    lifetime fd (calls ++ more) = lifetime fd calls := by
  obtain ⟨before, after, rfl⟩ := List.append_of_mem hclosed
  rw [List.append_assoc, List.cons_append, lifetime_append_closed, lifetime_append_closed]

theorem lifetime_eq_self {fd : Fd} {calls : List Syscall} (hopen : .close fd ∉ calls) :
    lifetime fd calls = calls := by
  simpa [lifetime] using lifetime_of_open hopen []

theorem Syscall.Spares.delivered {fd : Fd} {call : Syscall} (hspares : call.Spares fd) :
    call.delivered fd = none := by
  unfold Syscall.delivered
  split
  · rename_i target bytes
    rw [if_neg]
    rintro rfl
    exact hspares.2 bytes true rfl
  · rfl

/-- A subscription whose `add_subscriber` returned true, with the descriptor it got. -/
structure Registration where
  client_id : Bytes
  pref : Bytes
  fifo_path : Bytes
  start_offset : UInt32
  fd : Fd

namespace Registration

variable {H : StdHash}

/-- The operation that makes the registration. -/
def op (self : Registration) : Topic.Op :=
  .add_subscriber self.client_id self.pref self.fifo_path self.start_offset (some self.fd)

/-- The operation removes the registration or replaces it. -/
def EndedBy (self : Registration) : Topic.Op → Prop
  | .add_subscriber client_id _ _ _ _ => client_id = self.client_id
  | .remove_subscriber client_id => client_id = self.client_id
  | .append_message _ _ => False
  | .pass _ => False

def accepts (self : Registration) (msg : Message) : Bool := self.pref.isPrefixOf msg.key

/-- The messages the subscription asks for. -/
def matching (self : Registration) (messages : List Message) : List Message :=
  messages.filter (fun msg => decide (self.start_offset ≤ msg.offset) && self.accepts msg)

def entry (self : Registration) (fifo_fd : Option Fd) (next_offset : UInt32) : ActiveSubscriber :=
  ⟨self.client_id, self.pref, self.fifo_path, fifo_fd, next_offset⟩

/-- Where a registration stands after the calls made since it was accepted. While
its descriptor is open everything its cursor has passed was written. After a
failed write it has what its cursor had passed by then. -/
inductive Standing (reg : Registration) (past : List Syscall) (topic : Topic H) : Prop
  | live (next : UInt32) (hfind : topic.subscribers.find reg.client_id = some (reg.entry (some reg.fd) next))
      (hopen : .close reg.fd ∉ past) (hunbroken : ∀ bytes, .write reg.fd bytes false ∉ past)
      (hnext : next = reg.start_offset ∨
        reg.start_offset.toNat ≤ next.toNat ∧ next.toNat ≤ topic.messages.length)
      (hwritten : past.filterMap (Syscall.delivered reg.fd) =
        (window topic.messages reg.accepts reg.start_offset.toNat next.toNat).map Message.frame)
  | broken (next : UInt32) (hfind : topic.subscribers.find reg.client_id = some (reg.entry none next))
      (hclosed : .close reg.fd ∈ past) (hfailed : ∃ bytes, .write reg.fd bytes false ∈ lifetime reg.fd past)
      (stop : Nat) (hstop : stop ≤ topic.messages.length)
      (hwritten : written reg.fd past =
        (window topic.messages reg.accepts reg.start_offset.toNat stop).map Message.frame)

/-- An accepted subscription starts with nothing written. -/
theorem standing_start {reg : Registration} {self : Topic H} :
    reg.Standing [] (self.add_subscriber reg.client_id reg.pref reg.fifo_path reg.start_offset
      (some reg.fd)).2.1 := by
  refine .live reg.start_offset ?_ (by simp) (by simp) (.inl rfl) (by simp)
  rw [Topic.add_subscriber_find, if_pos rfl]
  rfl

/-- Steps that leave the entry, its descriptor and the log alone, or add to the
log, leave the registration where it stands. -/
theorem Standing.spared {reg : Registration} {past calls : List Syscall} {self next : Topic H}
    (hstanding : reg.Standing past self)
    (hfind : next.subscribers.find reg.client_id = self.subscribers.find reg.client_id)
    (hmessages : self.messages <+: next.messages)
    (hcalls : ∀ sub, self.subscribers.find reg.client_id = some sub → sub.fifo_fd = some reg.fd →
      ∀ call ∈ calls, call.Spares reg.fd) :
    reg.Standing (past ++ calls) next := by
  obtain ⟨more, hmore⟩ := hmessages
  have hgrown : self.messages.length ≤ next.messages.length := by
    rw [← hmore, List.length_append]
    omega
  cases hstanding with
  | live cursor hentry hopen hunbroken hcursor hwritten =>
    have hspares := hcalls _ hentry rfl
    refine .live cursor (hfind.trans hentry) ?_ ?_ ?_ ?_
    · rw [List.mem_append]
      rintro (hmem | hmem)
      · exact hopen hmem
      · exact (hspares _ hmem).1 rfl
    · intro bytes
      rw [List.mem_append]
      rintro (hmem | hmem)
      · exact hunbroken bytes hmem
      · exact (hspares _ hmem).2 bytes false rfl
    · exact hcursor.imp id (fun h => ⟨h.1, h.2.trans hgrown⟩)
    · have hsilent : calls.filterMap (Syscall.delivered reg.fd) = [] :=
        List.filterMap_eq_nil_iff.mpr (fun call hcall => (hspares call hcall).delivered)
      rw [List.filterMap_append, hsilent, List.append_nil, hwritten, ← hmore]
      rcases hcursor with rfl | ⟨_, hinside⟩
      · simp
      · rw [window_append _ _ hinside]
  | broken cursor hentry hclosed hfailed stop hstop hwritten =>
    refine .broken cursor (hfind.trans hentry) (List.mem_append_left _ hclosed) ?_ stop
      (hstop.trans hgrown) ?_
    · rwa [lifetime_of_closed hclosed]
    · rw [written, lifetime_of_closed hclosed, ← hmore, window_append _ _ hstop]
      exact hwritten

/-- A turn of the delivery loop for the entry itself moves the cursor over one
message and writes it exactly when the registration accepts it. -/
theorem Standing.served {reg : Registration} {past : List Syscall} {self : Topic H}
    {sub : ActiveSubscriber} {msg : Message} (taken : Bool) (hlog : self.messages.length < 2 ^ 32)
    (hstanding : reg.Standing past self) (hfind : self.subscribers.find reg.client_id = some sub)
    (hmsg : self.messages[sub.next_offset.toNat]? = some msg) :
    reg.Standing (past ++ (sub.served msg taken).2)
      { self with subscribers := self.subscribers.replace reg.client_id (sub.served msg taken).1 } := by
  obtain ⟨hinside, _⟩ := List.getElem?_eq_some_iff.mp hmsg
  have hupdated : ∀ entry, (self.subscribers.replace reg.client_id entry).find reg.client_id = some entry := by
    intro entry
    rw [HashMap.find_replace_of_find hfind, if_pos rfl]
  cases hstanding with
  | live cursor hentry hopen hunbroken hcursor hwritten =>
    obtain rfl : reg.entry (some reg.fd) cursor = sub := Option.some.inj (hentry.symm.trans hfind)
    have hmsg : self.messages[cursor.toNat]? = some msg := hmsg
    have hinside : cursor.toNat < self.messages.length := hinside
    have hsucc : (cursor + 1).toNat = cursor.toNat + 1 := by
      rw [UInt32.toNat_add]
      exact Nat.mod_eq_of_lt (by simpa using show cursor.toNat + 1 < 2 ^ 32 by omega)
    have hstart : reg.start_offset.toNat ≤ cursor.toNat := by
      rcases hcursor with rfl | ⟨hle, _⟩
      · exact Nat.le_refl _
      · exact hle
    have hmoved := window_succ reg.accepts hmsg hstart
    have hstill : cursor + 1 = reg.start_offset ∨
        reg.start_offset.toNat ≤ (cursor + 1).toNat ∧ (cursor + 1).toNat ≤ self.messages.length :=
      .inr ⟨by omega, by omega⟩
    cases haccepts : reg.accepts msg with
    | false =>
      rw [ActiveSubscriber.served_silent (reg.entry (some reg.fd) cursor) taken (.inr haccepts)]
      refine .live (cursor + 1) (hupdated _) (by simpa using hopen) (by simpa using hunbroken) hstill ?_
      rw [List.append_nil, hwritten, hsucc, hmoved, haccepts]
      simp
    | true =>
      cases taken with
      | true =>
        rw [ActiveSubscriber.served_taken (reg.entry (some reg.fd) cursor) rfl haccepts]
        refine .live (cursor + 1) (hupdated _) (by simpa using hopen) (by simpa using hunbroken) hstill ?_
        rw [List.filterMap_append, hwritten, hsucc, hmoved, haccepts]
        simp [Syscall.delivered]
      | false =>
        rw [ActiveSubscriber.served_failed (reg.entry (some reg.fd) cursor) rfl haccepts]
        have hlife : lifetime reg.fd (past ++ [.write reg.fd msg.frame false, .close reg.fd]) =
            past ++ [.write reg.fd msg.frame false] := by
          rw [lifetime_of_open hopen]
          simp [lifetime]
        refine .broken (cursor + 1) (hupdated _) (by simp) ⟨msg.frame, by simp [hlife]⟩ cursor.toNat
          (Nat.le_of_lt hinside) ?_
        rw [written, hlife, List.filterMap_append, hwritten]
        simp [Syscall.delivered]
  | broken cursor hentry hclosed hfailed stop hstop hwritten =>
    obtain rfl : reg.entry none cursor = sub := Option.some.inj (hentry.symm.trans hfind)
    rw [ActiveSubscriber.served_silent (reg.entry none cursor) taken (.inl rfl)]
    exact .broken (cursor + 1) (hupdated _) (by simpa using hclosed) (by simpa using hfailed) stop hstop
      (by simpa using hwritten)

/-- A turn for another entry never touches the registration's descriptor. -/
theorem Standing.deliver_next {reg : Registration} {past calls : List Syscall} {self next : Topic H}
    {client_id : Bytes} {taken : Bool} (hsound : self.Sound) (hlog : self.messages.length < 2 ^ 32)
    (hstanding : reg.Standing past self) (hdeliver : self.deliver_next client_id taken = some (next, calls)) :
    reg.Standing (past ++ calls) next := by
  obtain ⟨sub, msg, hfind, hmsg, rfl, rfl⟩ := hsound.synced.deliver_next_cases hdeliver
  by_cases hid : client_id = reg.client_id
  · subst hid
    exact hstanding.served taken hlog hfind hmsg
  · refine hstanding.spared ?_ List.prefix_rfl ?_
    · rw [HashMap.find_replace_of_find hfind, if_neg (fun h => hid h.symm)]
    · intro own hown hfd call hcall
      have hother : sub.fifo_fd ≠ some reg.fd := fun hsame =>
        hid (hsound.distinct client_id reg.client_id sub own reg.fd hfind hown hsame hfd)
      exact ActiveSubscriber.served_spares hother call hcall

/-- Every operation that does not end the registration keeps its standing. -/
theorem Standing.step {reg : Registration} {past : List Syscall} {self next : Topic H}
    {label : Topic.Op × List Syscall} (hsound : self.Sound) (hlog : next.messages.length < 2 ^ 32)
    (hstanding : reg.Standing past self) (hstep : Topic.Step self label next)
    (hkept : ¬ reg.EndedBy label.1) : reg.Standing (past ++ label.2) next := by
  have hgrown := hstep.messages_grow
  have hdropped : ∀ client_id, client_id ≠ reg.client_id → ∀ sub,
      self.subscribers.find reg.client_id = some sub → sub.fifo_fd = some reg.fd →
      ∀ call ∈ (self.drop_subscriber client_id).2, call.Spares reg.fd := by
    intro client_id hid own hown hfd call hcall
    unfold Topic.drop_subscriber at hcall
    split at hcall
    · cases hcall
    · rename_i sub hfind
      cases hopen : sub.fifo_fd with
      | none => simp [hopen, Topic.close_fd] at hcall
      | some held =>
        obtain rfl : call = .close held := by simpa [hopen, Topic.close_fd] using hcall
        have hheld : held ≠ reg.fd := fun hsame =>
          hid (hsound.distinct client_id reg.client_id sub own reg.fd hfind hown (hsame ▸ hopen) hfd)
        exact ⟨by simpa using hheld, by simp⟩
  cases hstep with
  | append_message => exact hstanding.spared rfl hgrown (by simp)
  | add_subscriber client_id pref fifo_path start_offset opened =>
    refine hstanding.spared ?_ hgrown ?_
    · rw [Topic.add_subscriber_find, if_neg (fun h => hkept h.symm)]
    · intro own hown hfd call hcall
      have hspares := hdropped client_id hkept own hown hfd
      unfold Topic.add_subscriber at hcall
      cases opened with
      | none => exact hspares call hcall
      | some fd =>
        rcases List.mem_append.mp hcall with hclosed | hopened
        · exact hspares call hclosed
        · obtain rfl := List.mem_singleton.mp hopened
          exact ⟨by simp, by simp⟩
  | remove_subscriber client_id =>
    refine hstanding.spared ?_ hgrown ?_
    · rw [Topic.remove_subscriber_find, if_neg (fun h => hkept h.symm)]
    · rw [Topic.remove_subscriber_eq]
      exact hdropped client_id hkept
  | pass hpass =>
    have hall := Topic.run_pass_induction
      (P := fun calls topic => topic.Sound ∧ topic.messages = self.messages ∧ reg.Standing calls topic)
      ?_ past ⟨hsound, rfl, hstanding⟩ hpass
    · exact hall.2.2
    · rintro calls topic client_id taken after more ⟨htopic, hmessages, hstands⟩ hdeliver
      have hroom : topic.messages.length < 2 ^ 32 := by
        rw [hmessages]
        exact Nat.lt_of_le_of_lt hgrown.length_le hlog
      exact ⟨htopic.deliver_next hdeliver, (Topic.deliver_next_messages hdeliver).trans hmessages,
        hstands.deliver_next htopic hroom hdeliver⟩

theorem Standing.run {reg : Registration} {self last : Topic H} {labels : List (Topic.Op × List Syscall)}
    (hsound : self.Sound) (hstanding : reg.Standing [] self) (hrun : Run Topic.Step self labels last)
    (hkept : ∀ label ∈ labels, ¬ reg.EndedBy label.1) (hlog : last.messages.length < 2 ^ 32) :
    reg.Standing (labels.flatMap Prod.snd) last := by
  induction hrun with
  | nil => exact hstanding
  | snoc hbefore hstep ih =>
    rename_i middle next earlier label
    have hmiddle := hsound.run hbefore
    have hgrown := hstep.messages_grow.length_le
    have hkeptBefore : ∀ l ∈ earlier, ¬ reg.EndedBy l.1 :=
      fun l hl => hkept l (List.mem_append_left _ hl)
    have hstands := ih hkeptBefore (Nat.lt_of_le_of_lt hgrown hlog)
    have hlast := hstands.step hmiddle hlog hstep (hkept label (by simp))
    simpa using hlast

/-- The messages a registration asks for, cut out of a numbered log. -/
theorem matching_eq {reg : Registration} {messages : List Message}
    (hindexed : Indexed (fun msg => msg.offset.toNat) messages) :
    reg.matching messages = (messages.drop reg.start_offset.toNat).filter reg.accepts := by
  rw [← hindexed.filter_from]
  rfl

/-- Whatever a registration's standing, what was written to its descriptor is an
initial part of what it asks for. -/
theorem Standing.written_isPrefix {reg : Registration} {past : List Syscall} {topic : Topic H}
    (hsound : topic.Sound) (hlog : topic.messages.length < 2 ^ 32) (hstanding : reg.Standing past topic) :
    written reg.fd past <+: (reg.matching topic.messages).map Message.frame := by
  rw [matching_eq (hsound.numbered hlog)]
  cases hstanding with
  | live next hfind hopen hunbroken hnext hwritten =>
    rw [written, lifetime_eq_self hopen, hwritten]
    exact (window_isPrefix _ _ _ _).map _
  | broken next hfind hclosed hfailed stop hstop hwritten =>
    rw [hwritten]
    exact (window_isPrefix _ _ _ _).map _

/-- A registration whose entry has its descriptor has seen no failed write. -/
theorem Standing.unbroken_of_open {reg : Registration} {past : List Syscall} {topic : Topic H} {next : UInt32}
    (hstanding : reg.Standing past topic)
    (hentry : topic.subscribers.find reg.client_id = some (reg.entry (some reg.fd) next)) :
    ∀ bytes, .write reg.fd bytes false ∉ lifetime reg.fd past := by
  cases hstanding with
  | live _ _ hopen hunbroken =>
    rw [lifetime_eq_self hopen]
    exact hunbroken
  | broken cursor hfind =>
    have hsame : reg.entry none cursor = reg.entry (some reg.fd) next := by
      simpa [hfind] using hentry
    cases congrArg ActiveSubscriber.fifo_fd hsame

/-- While no write failed it is exactly what the cursor has passed. -/
theorem Standing.written_eq {reg : Registration} {past : List Syscall} {topic : Topic H}
    (hsound : topic.Sound) (hlog : topic.messages.length < 2 ^ 32) (hstanding : reg.Standing past topic)
    (hunbroken : ∀ bytes, .write reg.fd bytes false ∉ lifetime reg.fd past) :
    ∃ next, topic.subscribers.find reg.client_id = some (reg.entry (some reg.fd) next) ∧
      written reg.fd past =
        ((reg.matching topic.messages).filter (fun msg => decide (msg.offset < next))).map Message.frame ∧
      (topic.messages.length ≤ next.toNat →
        written reg.fd past = (reg.matching topic.messages).map Message.frame) := by
  have hindexed := hsound.numbered hlog
  cases hstanding with
  | live next hfind hopen _ _ hwritten =>
    refine ⟨next, hfind, ?_, ?_⟩
    · rw [written, lifetime_eq_self hopen, hwritten, matching_eq hindexed]
      exact congrArg _ (hindexed.filter_before reg.accepts reg.start_offset.toNat next.toNat).symm
    · intro hend
      rw [written, lifetime_eq_self hopen, hwritten, matching_eq hindexed, window_of_length_le _ _ hend]
  | broken _ _ _ hfailed =>
    obtain ⟨bytes, hbytes⟩ := hfailed
    exact absurd hbytes (hunbroken bytes)

/-- The worker's delivery to one registration, over every run. What is written to
the descriptor is an initial part of the messages asked for, in increasing offset
order; without a failed write it is those below the cursor, and all of them when
the worker has nothing to do. -/
theorem delivers_in_order (topic_name : Bytes) (reg : Registration) {self registered last : Topic H}
    {before after : List (Topic.Op × List Syscall)} {calls : List Syscall}
    (hbefore : Run Topic.Step (Topic.new topic_name) before self)
    (hregister : Topic.Step self (reg.op, calls) registered)
    (hafter : Run Topic.Step registered after last) (hkept : ∀ label ∈ after, ¬ reg.EndedBy label.1)
    (hlog : last.messages.length < 2 ^ 32) :
    written reg.fd (after.flatMap Prod.snd) <+: (reg.matching last.messages).map Message.frame ∧
      ((reg.matching last.messages).map (fun msg => msg.offset.toNat)).Pairwise (· < ·) ∧
      ((∀ bytes, .write reg.fd bytes false ∉ lifetime reg.fd (after.flatMap Prod.snd)) →
        ∃ next, last.subscribers.find reg.client_id = some (reg.entry (some reg.fd) next) ∧
          written reg.fd (after.flatMap Prod.snd) =
            ((reg.matching last.messages).filter (fun msg => decide (msg.offset < next))).map Message.frame ∧
          (last.has_work = false →
            written reg.fd (after.flatMap Prod.snd) = (reg.matching last.messages).map Message.frame)) := by
  have hself := (Topic.new_sound topic_name).run hbefore
  have hregistered := hself.step hregister
  have hstanding : reg.Standing [] registered := by
    cases hregister
    exact standing_start
  have hlast := hregistered.run hafter
  have hstands := hstanding.run hregistered hafter hkept hlog
  refine ⟨hstands.written_isPrefix hlast hlog, ?_, ?_⟩
  · rw [matching_eq (hlast.numbered hlog)]
    have hsuffix := (List.drop_sublist reg.start_offset.toNat last.messages).filter reg.accepts
    exact ((hlast.numbered hlog).pairwise reg.accepts).sublist (hsuffix.map _)
  · intro hunbroken
    obtain ⟨next, hfind, hwritten, hall⟩ := hstands.written_eq hlast hlog hunbroken
    exact ⟨next, hfind, hwritten, fun hidle => hall (Topic.next_offset_of_idle hidle hfind)⟩

/-- Both conditions can be met: one message before the subscription, one after, and
a pass whose second write fails. -/
theorem delivers_in_order_broken_pipe :
    let reg : Registration := ⟨[99], [107], [112], 0, 3⟩
    let hashes : StdHash := ⟨fun _ => 0, fun _ => 0, fun _ => 0⟩
    let logged : Topic hashes := (Topic.new [116]).append_message [107, 49] [1]
    let registered := (logged.add_subscriber reg.client_id reg.pref reg.fifo_path 0 (some 3)).2.1
    ∃ last calls, (registered.append_message [107, 50] [2]).run_pass 2 [true, false] = some (last, calls) ∧
      written 3 calls <+: (reg.matching last.messages).map Message.frame := by
  intro reg hashes logged registered
  have hbefore : Run Topic.Step (Topic.new [116]) _ logged := .snoc (.nil _) (.append_message _ _ _)
  have hfresh : ∀ fd, some 3 = some fd → ¬ (logged.drop_subscriber reg.client_id).1.Holds fd := by
    rintro fd _ ⟨id, sub, hfind, _⟩
    simp [logged, Topic.append_message, Topic.new] at hfind
  have hregister : Topic.Step logged (reg.op, _) registered := .add_subscriber _ _ _ _ _ _ hfresh
  have hsound := (((Topic.new_sound [116]).run hbefore).step hregister).append_message [107, 50] [2]
  obtain ⟨last, calls, hpass, hmessages, _⟩ :=
    (registered.append_message [107, 50] [2]).run_pass_ends (by decide) [true, false]
  have hafter : Run Topic.Step registered
      [(.append_message [107, 50] [2], []), (.pass [true, false], calls)] last :=
    .snoc (.snoc (.nil _) (.append_message _ _ _)) (.pass hpass)
  have hdelivered := delivers_in_order [116] reg hbefore hregister hafter (by simp [EndedBy])
    (by rw [hmessages]; decide)
  exact ⟨last, calls, hpass, by simpa using hdelivered.1⟩

end Registration

end treenity.server

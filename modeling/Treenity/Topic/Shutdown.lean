import Treenity.Topic.Delivery

open treenity.protocol treenity.data_structures

namespace treenity.server

/-- The call writes to no descriptor. -/
def Syscall.Mute (call : Syscall) : Prop := ∀ fd bytes taken, call ≠ .write fd bytes taken

theorem Syscall.Mute.delivered {call : Syscall} (hmute : call.Mute) (fd : Fd) : call.delivered fd = none := by
  unfold Syscall.delivered
  split
  · exact absurd rfl (hmute _ _ true)
  · rfl

theorem close_fd_mute (fifo_fd : Option Fd) : ∀ call ∈ Topic.close_fd fifo_fd, call.Mute := by
  cases fifo_fd <;> simp [Topic.close_fd, Syscall.Mute]

namespace ActiveSubscriber

/-- A turn of the worker writes one frame at most, to the descriptor of its entry. -/
theorem served_delivered (self : ActiveSubscriber) (msg : Message) (taken : Bool) (fd : Fd) :
    (self.served msg taken).2.filterMap (Syscall.delivered fd) = [] ∨
      self.fifo_fd = some fd ∧ (self.served msg taken).2.filterMap (Syscall.delivered fd) = [msg.frame] := by
  by_cases hfd : self.fifo_fd = some fd
  · cases hpref : self.pref.isPrefixOf msg.key with
    | false => simp [self.served_silent taken (.inr hpref)]
    | true =>
      cases taken with
      | true => simp [self.served_taken hfd hpref, Syscall.delivered, hfd]
      | false => simp [self.served_failed hfd hpref, Syscall.delivered]
  · exact .inl (List.filterMap_eq_nil_iff.mpr fun call hcall => (served_spares hfd call hcall).delivered)

/-- An entry loses its descriptor only when a write to it fails. -/
theorem served_loses (self : ActiveSubscriber) (msg : Message) (taken : Bool) :
    (self.served msg taken).1.fifo_fd = self.fifo_fd ∨
      ∃ fd, self.fifo_fd = some fd ∧ .write fd msg.frame false ∈ (self.served msg taken).2 := by
  cases taken with
  | true => exact .inl (self.served_keeps_fd msg)
  | false =>
    cases hopen : self.fifo_fd with
    | none => exact .inl (by rw [self.served_silent false (.inl hopen), hopen])
    | some fd =>
      cases hpref : self.pref.isPrefixOf msg.key with
      | false => exact .inl (by rw [self.served_silent false (.inr hpref), hopen])
      | true => exact .inr ⟨fd, rfl, by simp [self.served_failed hopen hpref]⟩

end ActiveSubscriber

/-- What `shutdown` does for an entry: the shutdown frame goes to its descriptor, which
is closed whatever the write gave. -/
def ActiveSubscriber.send_shutdown (self : ActiveSubscriber) (taken : Fd → Bool) : List Syscall :=
  match self.fifo_fd with
  | some fd => [.write fd Response.serialize_shutdown (taken fd), .close fd]
  | none => []

theorem ActiveSubscriber.send_shutdown_spares {self : ActiveSubscriber} {fd : Fd} (hother : self.fifo_fd ≠ some fd)
    (taken : Fd → Bool) : ∀ call ∈ self.send_shutdown taken, call.Spares fd := by
  intro call hcall
  cases hopen : self.fifo_fd with
  | none => simp [send_shutdown, hopen] at hcall
  | some held =>
    have hheld : held ≠ fd := fun hsame => hother (hsame ▸ hopen)
    have hcalls : call = .write held Response.serialize_shutdown (taken held) ∨ call = .close held := by
      simpa [send_shutdown, hopen] using hcall
    rcases hcalls with rfl | rfl
    · exact ⟨by simp, by simp [hheld]⟩
    · exact ⟨by simp [hheld], by simp⟩

namespace Topic

variable {H : StdHash}

theorem drop_subscriber_mute (self : Topic H) (client_id : Bytes) :
    ∀ call ∈ (self.drop_subscriber client_id).2, call.Mute := by
  unfold drop_subscriber
  split
  · simp
  · exact close_fd_mute _

theorem add_subscriber_mute (self : Topic H) (client_id pref fifo_path : Bytes) (start_offset : UInt32)
    (opened : Option Fd) :
    ∀ call ∈ (self.add_subscriber client_id pref fifo_path start_offset opened).2.2, call.Mute := by
  have hdropped := self.drop_subscriber_mute client_id
  unfold add_subscriber
  cases opened with
  | none => exact hdropped
  | some fd =>
    intro call hcall
    rcases List.mem_append.mp hcall with hclosed | hopened
    · exact hdropped call hclosed
    · obtain rfl := List.mem_singleton.mp hopened
      simp [Syscall.Mute]

/-- The part of `shutdown` that holds the lock; `taken` says which writes the kernel
takes. The worker ends when it sees `stop_flag`. -/
def shutdown (self : Topic H) (taken : Fd → Bool) : Topic H × List Syscall :=
  if self.stop_flag then (self, [])
  else
    ({ self with
        prefix_tree := self.prefix_tree.clear
        subscribers := self.subscribers.clear
        stop_flag := true },
      self.subscribers.entries.flatMap (fun entry => entry.2.send_shutdown taken))

theorem shutdown_stopped {self : Topic H} (hstopped : self.stop_flag = true) (taken : Fd → Bool) :
    self.shutdown taken = (self, []) := if_pos hstopped

@[simp] theorem shutdown_messages (self : Topic H) (taken : Fd → Bool) :
    (self.shutdown taken).1.messages = self.messages := by
  unfold shutdown
  split <;> rfl

@[simp] theorem shutdown_stop_flag (self : Topic H) (taken : Fd → Bool) :
    (self.shutdown taken).1.stop_flag = true := by
  unfold shutdown
  split
  · assumption
  · rfl

theorem shutdown_find (self : Topic H) (taken : Fd → Bool) (client_id : Bytes) :
    (self.shutdown taken).1.subscribers.find client_id =
      if self.stop_flag then self.subscribers.find client_id else none := by
  unfold shutdown
  split
  · rfl
  · exact HashMap.find_clear _ _

theorem Synced.shutdown {self : Topic H} (hsync : self.Synced) (taken : Fd → Bool) :
    (self.shutdown taken).1.Synced := by
  unfold Topic.shutdown
  split
  · exact hsync
  · refine ⟨?_, ?_⟩
    · intro id sub hfind
      simp at hfind
    · intro path id
      simp [PrefixTree.clients_at_clear]

/-- A descriptor that only the entry of one client can have gets the shutdown frame
once, if that entry has it and the kernel takes the frame. -/
theorem shutdown_delivered {self : Topic H} (hrunning : self.stop_flag = false) (taken : Fd → Bool) {fd : Fd}
    (client_id : Bytes) (honly : ∀ id sub, self.subscribers.find id = some sub → sub.fifo_fd = some fd → id = client_id) :
    (self.shutdown taken).2.filterMap (Syscall.delivered fd) =
      if (self.subscribers.find client_id).bind ActiveSubscriber.fifo_fd = some fd ∧ taken fd = true then
        [Response.serialize_shutdown]
      else [] := by
  have hsilent : ∀ sub : ActiveSubscriber, sub.fifo_fd ≠ some fd →
      (sub.send_shutdown taken).filterMap (Syscall.delivered fd) = [] := by
    intro sub hother
    rw [List.filterMap_eq_nil_iff]
    exact fun call hcall => (ActiveSubscriber.send_shutdown_spares hother taken call hcall).delivered
  rw [shutdown, if_neg (by simp [hrunning]), List.filterMap_flatMap,
    HashMap.flatMap_entries_of_key self.subscribers client_id]
  · cases hfind : self.subscribers.find client_id with
    | none => simp
    | some sub =>
      by_cases hfd : sub.fifo_fd = some fd
      · cases htaken : taken fd <;> simp [ActiveSubscriber.send_shutdown, hfd, htaken, Syscall.delivered]
      · simpa [hfd] using hsilent sub hfd
  · intro id sub hfind hother
    exact hsilent sub fun hfd => hother (honly id sub hfind hfd)

/-- A write of `shutdown` that fails is one to a descriptor of an entry. -/
theorem shutdown_failed {self : Topic H} (hrunning : self.stop_flag = false) (taken : Fd → Bool) {fd : Fd}
    {client_id : Bytes} {sub : ActiveSubscriber} (hfind : self.subscribers.find client_id = some sub)
    (hfd : sub.fifo_fd = some fd) (hlost : taken fd = false) :
    .write fd Response.serialize_shutdown false ∈ (self.shutdown taken).2 := by
  rw [shutdown, if_neg (by simp [hrunning]), List.mem_flatMap]
  exact ⟨_, HashMap.mem_entries_of_find hfind, by simp [ActiveSubscriber.send_shutdown, hfd, hlost]⟩

/-- Only writes and closes, each on a descriptor of an entry. -/
theorem shutdown_spares {self : Topic H} (taken : Fd → Bool) (fd : Fd)
    (hnone : ∀ id sub, self.subscribers.find id = some sub → sub.fifo_fd ≠ some fd) :
    ∀ call ∈ (self.shutdown taken).2, call.Spares fd := by
  intro call hcall
  unfold shutdown at hcall
  split at hcall
  · cases hcall
  · obtain ⟨⟨id, sub⟩, hentry, hsent⟩ := List.mem_flatMap.mp hcall
    exact ActiveSubscriber.send_shutdown_spares (hnone id sub (HashMap.find_of_mem_entries hentry)) taken call hsent

end Topic

end treenity.server

import Treenity.Foundation.Log
import Treenity.Foundation.Run
import Treenity.Topic.Registration

open treenity.protocol treenity.data_structures treenity.foundation

namespace treenity.server

namespace Topic

variable {H : StdHash}

/-- Some entry of the table has this descriptor open. -/
def Holds (self : Topic H) (fd : Fd) : Prop :=
  ∃ id sub, self.subscribers.find id = some sub ∧ sub.fifo_fd = some fd

/-- One operation on a topic, made under its mutex. -/
inductive Op where
  | append_message (key value : Bytes)
  | add_subscriber (client_id pref fifo_path : Bytes) (start_offset : UInt32) (opened : Option Fd)
  | remove_subscriber (client_id : Bytes)
  | pass (outcomes : List Bool)

/-- The operations with their system calls. The kernel hands out a descriptor only
when it is not open, and a pass is a step when its loops end. -/
inductive Step : Topic H → Op × List Syscall → Topic H → Prop
  | append_message (self : Topic H) (key value : Bytes) :
      Step self (.append_message key value, []) (self.append_message key value)
  | add_subscriber (self : Topic H) (client_id pref fifo_path : Bytes) (start_offset : UInt32)
      (opened : Option Fd)
      (hfresh : ∀ fd, opened = some fd → ¬ (self.drop_subscriber client_id).1.Holds fd) :
      Step self (.add_subscriber client_id pref fifo_path start_offset opened,
          (self.add_subscriber client_id pref fifo_path start_offset opened).2.2)
        (self.add_subscriber client_id pref fifo_path start_offset opened).2.1
  | remove_subscriber (self : Topic H) (client_id : Bytes) :
      Step self (.remove_subscriber client_id, (self.remove_subscriber client_id).2.2)
        (self.remove_subscriber client_id).2.1
  | pass {self next : Topic H} {fuel : Nat} {outcomes : List Bool} {calls : List Syscall}
      (hpass : self.run_pass fuel outcomes = some (next, calls)) :
      Step self (.pass outcomes, calls) next

/-- A property of the calls so far and the topic that every turn of the delivery
loop preserves is preserved by the loop of one subscriber. -/
theorem deliver_pending_induction {P : List Syscall → Topic H → Prop} {client_id : Bytes}
    (hturn : ∀ past self taken next calls, P past self →
      self.deliver_next client_id taken = some (next, calls) → P (past ++ calls) next)
    {fuel : Nat} {self next : Topic H} {outcomes left : List Bool} {past calls : List Syscall}
    (hstart : P past self)
    (hloop : self.deliver_pending client_id fuel outcomes = some (next, calls, left)) :
    P (past ++ calls) next := by
  induction fuel generalizing self outcomes past calls with
  | zero =>
    rw [deliver_pending] at hloop
    split at hloop
    · cases hloop
      simpa using hstart
    · cases hloop
  | succ fuel ih =>
    rw [deliver_pending] at hloop
    split at hloop
    · cases hloop
      simpa using hstart
    · rename_i middle first hfirst
      dsimp only at hloop
      split at hloop
      · cases hloop
      · rename_i last more rest hrest
        cases hloop
        rw [← List.append_assoc]
        exact ih (hturn _ _ _ _ _ hstart hfirst) hrest

/-- The same for a whole delivery pass. -/
theorem run_pass_induction {P : List Syscall → Topic H → Prop}
    (hturn : ∀ past self client_id taken next calls, P past self →
      self.deliver_next client_id taken = some (next, calls) → P (past ++ calls) next)
    {fuel : Nat} {self next : Topic H} {outcomes : List Bool} (past : List Syscall) {calls : List Syscall}
    (hstart : P past self) (hpass : self.run_pass fuel outcomes = some (next, calls)) :
    P (past ++ calls) next := by
  unfold run_pass at hpass
  generalize self.subscribers.keys = ids at hpass
  induction ids generalizing self outcomes past calls with
  | nil =>
    rw [deliver_each] at hpass
    cases hpass
    simpa using hstart
  | cons client_id rest ih =>
    rw [deliver_each] at hpass
    split at hpass
    · cases hpass
    · rename_i middle first left hfirst
      split at hpass
      · cases hpass
      · rename_i last more hrest
        cases hpass
        rw [← List.append_assoc]
        exact ih _ (deliver_pending_induction (fun past t taken => hturn past t client_id taken) hstart hfirst)
          hrest

/-- A delivery pass neither adds nor removes an entry. -/
theorem run_pass_isSome {self next : Topic H} {fuel : Nat} {outcomes : List Bool} {calls : List Syscall}
    (hpass : self.run_pass fuel outcomes = some (next, calls)) (client_id : Bytes) :
    (next.subscribers.find client_id).isSome = (self.subscribers.find client_id).isSome :=
  run_pass_induction
    (P := fun _ topic => (topic.subscribers.find client_id).isSome = (self.subscribers.find client_id).isSome)
    (fun _ _ _ _ _ _ hsame hdeliver => (deliver_next_isSome hdeliver client_id).trans hsame) [] rfl hpass

/-- The messages carry their positions, as long as 32 bits can. -/
def Numbered (self : Topic H) : Prop :=
  self.messages.length < 2 ^ 32 → Indexed (fun msg => msg.offset.toNat) self.messages

theorem new_numbered (topic_name : Bytes) : (new topic_name : Topic H).Numbered :=
  fun _ => Indexed.nil _

theorem Numbered.append_message {self : Topic H} (hnumbered : self.Numbered) (key value : Bytes) :
    (self.append_message key value).Numbered := by
  intro hlength
  have hroom : self.messages.length + 1 < 2 ^ 32 := by simpa [Topic.append_message] using hlength
  exact (hnumbered (by omega)).append (to_uint32_toNat (by omega))

/-- A topic that has only been worked on through its operations. -/
structure Sound (topic : Topic H) : Prop where
  synced : topic.Synced
  numbered : topic.Numbered
  distinct : ∀ id₁ id₂ sub₁ sub₂ fd, topic.subscribers.find id₁ = some sub₁ →
    topic.subscribers.find id₂ = some sub₂ → sub₁.fifo_fd = some fd → sub₂.fifo_fd = some fd → id₁ = id₂

theorem new_sound (topic_name : Bytes) : (new topic_name : Topic H).Sound := by
  refine ⟨new_synced topic_name, new_numbered topic_name, ?_⟩
  intro id₁ id₂ sub₁ sub₂ fd hfind
  simp [new] at hfind

theorem Sound.drop_subscriber {self : Topic H} (hsound : self.Sound) (client_id : Bytes) :
    (self.drop_subscriber client_id).1.Sound := by
  refine ⟨hsound.synced.drop_subscriber client_id, ?_, ?_⟩
  · intro hlength
    rw [drop_subscriber_messages] at hlength ⊢
    exact hsound.numbered hlength
  · intro id₁ id₂ sub₁ sub₂ fd h₁ h₂
    rw [drop_subscriber_find] at h₁ h₂
    split at h₁
    · cases h₁
    · split at h₂
      · cases h₂
      · exact hsound.distinct id₁ id₂ sub₁ sub₂ fd h₁ h₂

theorem Sound.add_subscriber {self : Topic H} (hsound : self.Sound) (client_id pref fifo_path : Bytes)
    (start_offset : UInt32) {opened : Option Fd}
    (hfresh : ∀ fd, opened = some fd → ¬ (self.drop_subscriber client_id).1.Holds fd) :
    (self.add_subscriber client_id pref fifo_path start_offset opened).2.1.Sound := by
  have hdropped := hsound.drop_subscriber client_id
  have hheld : ∀ id sub fd, id ≠ client_id → self.subscribers.find id = some sub →
      sub.fifo_fd = some fd → (self.drop_subscriber client_id).1.Holds fd := by
    intro id sub fd hid hfind hfd
    exact ⟨id, sub, by rw [drop_subscriber_find, if_neg hid, hfind], hfd⟩
  refine ⟨hsound.synced.add_subscriber client_id pref fifo_path start_offset opened, ?_, ?_⟩
  · intro hlength
    rw [add_subscriber_messages] at hlength ⊢
    exact hsound.numbered hlength
  · intro id₁ id₂ sub₁ sub₂ fd h₁ h₂ hfd₁ hfd₂
    rw [add_subscriber_find] at h₁ h₂
    split at h₁ <;> split at h₂
    · rename_i hid₁ hid₂
      exact hid₁.trans hid₂.symm
    · rename_i hid₁ hid₂
      obtain ⟨fd', hfd', rfl⟩ := Option.map_eq_some_iff.mp h₁
      obtain rfl : fd' = fd := Option.some.inj hfd₁
      exact absurd (hheld id₂ sub₂ fd' hid₂ h₂ hfd₂) (hfresh fd' hfd')
    · rename_i hid₁ hid₂
      obtain ⟨fd', hfd', rfl⟩ := Option.map_eq_some_iff.mp h₂
      obtain rfl : fd' = fd := Option.some.inj hfd₂
      exact absurd (hheld id₁ sub₁ fd' hid₁ h₁ hfd₁) (hfresh fd' hfd')
    · exact hsound.distinct id₁ id₂ sub₁ sub₂ fd h₁ h₂ hfd₁ hfd₂

theorem Sound.append_message {self : Topic H} (hsound : self.Sound) (key value : Bytes) :
    (self.append_message key value).Sound :=
  ⟨hsound.synced.append_message key value, hsound.numbered.append_message key value, hsound.distinct⟩

theorem Sound.remove_subscriber {self : Topic H} (hsound : self.Sound) (client_id : Bytes) :
    (self.remove_subscriber client_id).2.1.Sound := by
  rw [remove_subscriber_eq]
  exact hsound.drop_subscriber client_id

theorem Sound.deliver_next {self next : Topic H} {calls : List Syscall} {client_id : Bytes} {taken : Bool}
    (hsound : self.Sound) (hdeliver : self.deliver_next client_id taken = some (next, calls)) :
    next.Sound := by
  have hsynced := hsound.synced.deliver_next hdeliver
  obtain ⟨sub, msg, hfind, _, _, rfl⟩ := hsound.synced.deliver_next_cases hdeliver
  refine ⟨hsynced, hsound.numbered, ?_⟩
  -- A served entry never gains a descriptor, so every entry stands for one that had it before.
  have hbefore : ∀ id entry fd, (self.subscribers.replace client_id (sub.served msg taken).1).find id =
      some entry → entry.fifo_fd = some fd →
      ∃ old, self.subscribers.find id = some old ∧ old.fifo_fd = some fd := by
    intro id entry fd hentry hfd
    rw [HashMap.find_replace_of_find hfind] at hentry
    split at hentry
    · rename_i hid
      cases hentry
      exact ⟨sub, hid ▸ hfind, ActiveSubscriber.served_fifo_fd hfd⟩
    · exact ⟨entry, hentry, hfd⟩
  intro id₁ id₂ sub₁ sub₂ fd h₁ h₂ hfd₁ hfd₂
  obtain ⟨old₁, hold₁, hopen₁⟩ := hbefore id₁ sub₁ fd h₁ hfd₁
  obtain ⟨old₂, hold₂, hopen₂⟩ := hbefore id₂ sub₂ fd h₂ hfd₂
  exact hsound.distinct id₁ id₂ old₁ old₂ fd hold₁ hold₂ hopen₁ hopen₂

theorem Sound.step {self next : Topic H} {label : Op × List Syscall} (hsound : self.Sound)
    (hstep : Step self label next) : next.Sound := by
  cases hstep with
  | append_message => exact hsound.append_message _ _
  | add_subscriber _ _ _ _ _ hfresh => exact hsound.add_subscriber _ _ _ _ hfresh
  | remove_subscriber => exact hsound.remove_subscriber _
  | pass hpass =>
    exact run_pass_induction (P := fun _ topic => topic.Sound)
      (fun _ _ _ _ _ _ hsound hdeliver => hsound.deliver_next hdeliver) [] hsound hpass

theorem Sound.run {self last : Topic H} {labels : List (Op × List Syscall)} (hsound : self.Sound)
    (hrun : Run Step self labels last) : last.Sound :=
  hrun.invariant hsound (fun _ _ _ hsound hstep => hsound.step hstep)

theorem run_pass_messages {self next : Topic H} {fuel : Nat} {outcomes : List Bool} {calls : List Syscall}
    (hpass : self.run_pass fuel outcomes = some (next, calls)) : next.messages = self.messages :=
  run_pass_induction (P := fun _ topic => topic.messages = self.messages)
    (fun _ _ _ _ _ _ hsame hdeliver => (deliver_next_messages hdeliver).trans hsame) [] rfl hpass

/-- No operation takes a message out of the log or changes one. -/
theorem Step.messages_grow {self next : Topic H} {label : Op × List Syscall} (hstep : Step self label next) :
    self.messages <+: next.messages := by
  cases hstep with
  | append_message key value => exact List.prefix_append _ _
  | add_subscriber => rw [add_subscriber_messages]
  | remove_subscriber => rw [remove_subscriber_eq, drop_subscriber_messages]
  | pass hpass => rw [run_pass_messages hpass]

end Topic

end treenity.server

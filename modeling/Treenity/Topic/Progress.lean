import Treenity.Topic.Numbering
import Treenity.Topic.Runs

open treenity.protocol treenity.data_structures treenity.foundation

namespace treenity.server.Topic

variable {H : StdHash}

/-- The loop of the client is over: it has no entry, or its cursor is at or past the end. -/
def AtEnd (self : Topic H) (client_id : Bytes) : Prop :=
  ∀ sub, self.subscribers.find client_id = some sub → self.messages.length ≤ sub.next_offset.toNat

/-- What a loop over entries leaves: the log, the flag and the clients that there are as they
were, and every client at the end that was there before. -/
structure Settles (before next : Topic H) : Prop where
  messages : next.messages = before.messages
  stop_flag : next.stop_flag = before.stop_flag
  clients : ∀ id, (next.subscribers.find id).isSome = (before.subscribers.find id).isSome
  at_end : ∀ id, before.AtEnd id → next.AtEnd id

theorem Settles.refl (self : Topic H) : self.Settles self := ⟨rfl, rfl, fun _ => rfl, fun _ => id⟩

theorem Settles.trans {self middle next : Topic H} (hfirst : self.Settles middle) (hsecond : middle.Settles next) :
    self.Settles next :=
  ⟨hsecond.messages.trans hfirst.messages, hsecond.stop_flag.trans hfirst.stop_flag,
    fun id => (hsecond.clients id).trans (hfirst.clients id), fun id hend => hsecond.at_end id (hfirst.at_end id hend)⟩

/-- A turn for a client that is not at its end leaves the others where they are. -/
theorem deliver_next_settles {self next : Topic H} {calls : List Syscall} {client_id : Bytes} {taken : Bool}
    (hdeliver : self.deliver_next client_id taken = some (next, calls)) : self.Settles next := by
  have hmessages := deliver_next_messages hdeliver
  refine ⟨hmessages, deliver_next_stop_flag hdeliver, deliver_next_isSome hdeliver, ?_⟩
  obtain ⟨sub, served, hfind, hinside, _, hnext⟩ := deliver_next_turn hdeliver
  intro id hend found hfound
  rw [hnext] at hfound
  split at hfound
  · rename_i hid
    have hpast := hend sub (hid ▸ hfind)
    omega
  · rw [hmessages]
    exact hend found hfound

/-- While positions fit in 32 bits the loop of one client ends: each turn brings the
cursor one closer to the end of the log. -/
theorem deliver_pending_ends (self : Topic H) (hlog : self.messages.length < 2 ^ 32) (client_id : Bytes) (fuel : Nat)
    (outcomes : List Bool) (hfuel : ∀ sub, self.subscribers.find client_id = some sub →
      self.messages.length ≤ sub.next_offset.toNat + fuel) :
    ∃ next calls left, self.deliver_pending client_id fuel outcomes = some (next, calls, left) ∧
      self.Settles next ∧ next.AtEnd client_id := by
  induction fuel generalizing self outcomes with
  | zero =>
    have hend : self.deliver_next client_id (outcomes.headD true) = none := by
      rw [deliver_next_eq_none_iff]
      exact hfuel
    exact ⟨self, [], outcomes, by rw [deliver_pending, hend], .refl self, hfuel⟩
  | succ fuel ih =>
    cases hdeliver : self.deliver_next client_id (outcomes.headD true) with
    | none =>
      have hend := (deliver_next_eq_none_iff self client_id _).mp hdeliver
      exact ⟨self, [], outcomes, by rw [deliver_pending, hdeliver], .refl self, hend⟩
    | some turn =>
      obtain ⟨next, calls⟩ := turn
      have hsettles := deliver_next_settles hdeliver
      obtain ⟨sub, served, hfind, hinside, hserved, hnext⟩ := deliver_next_turn hdeliver
      have hsucc : (sub.next_offset + 1).toNat = sub.next_offset.toNat + 1 := by
        rw [UInt32.toNat_add]
        exact Nat.mod_eq_of_lt (by simpa using show sub.next_offset.toNat + 1 < 2 ^ 32 by omega)
      have hcloser : ∀ entry, next.subscribers.find client_id = some entry →
          next.messages.length ≤ entry.next_offset.toNat + fuel := by
        intro entry hentry
        rw [hnext, if_pos rfl] at hentry
        obtain rfl := Option.some.inj hentry
        have hbound := hfuel sub hfind
        rw [hsettles.messages, hserved]
        omega
      obtain ⟨last, more, left, hrest, hlast, hend⟩ := ih next (hsettles.messages ▸ hlog) outcomes.tail hcloser
      refine ⟨last, calls ++ more, left, ?_, hsettles.trans hlast, hend⟩
      rw [deliver_pending, hdeliver]
      dsimp only
      rw [hrest]

/-- The same for the loop over the clients. -/
theorem deliver_each_ends (self : Topic H) {fuel : Nat} (hlog : self.messages.length < 2 ^ 32)
    (hfuel : self.messages.length ≤ fuel) (ids : List Bytes) (outcomes : List Bool) :
    ∃ next calls, deliver_each fuel ids self outcomes = some (next, calls) ∧
      self.Settles next ∧ ∀ id ∈ ids, next.AtEnd id := by
  induction ids generalizing self outcomes with
  | nil => exact ⟨self, [], rfl, .refl self, by simp⟩
  | cons client_id rest ih =>
    obtain ⟨middle, first, left, hfirst, hmiddle, hend⟩ :=
      self.deliver_pending_ends hlog client_id fuel outcomes (fun sub _ => by omega)
    obtain ⟨last, more, hmore, hlast, hrest⟩ :=
      ih middle (hmiddle.messages ▸ hlog) (hmiddle.messages ▸ hfuel) left
    refine ⟨last, first ++ more, ?_, hmiddle.trans hlast, ?_⟩
    · rw [deliver_each, hfirst]
      dsimp only
      rw [hmore]
    · exact List.forall_mem_cons.mpr ⟨hlast.at_end client_id hend, hrest⟩

/-- A delivery pass over such a log ends, whatever the writes answer, and leaves nothing
pending. -/
theorem run_pass_ends (self : Topic H) (hlog : self.messages.length < 2 ^ 32) (outcomes : List Bool) :
    ∃ next calls, self.run_pass self.messages.length outcomes = some (next, calls) ∧
      next.messages = self.messages ∧ next.stop_flag = self.stop_flag ∧ next.has_pending = false := by
  obtain ⟨next, calls, hpass, hsettles, hend⟩ :=
    self.deliver_each_ends hlog le_rfl self.subscribers.keys outcomes
  refine ⟨next, calls, hpass, hsettles.messages, hsettles.stop_flag, ?_⟩
  apply List.any_eq_false.mpr
  rintro ⟨id, sub⟩ hentry
  have hfind := HashMap.find_of_mem_entries hentry
  have hkey : id ∈ self.subscribers.keys := by
    rw [HashMap.mem_keys_iff, ← hsettles.clients, hfind]
    rfl
  have hpast := hend id hkey sub hfind
  simpa using hpast

/-- With 2^32 messages or more a cursor is never at the end, so the loop of a client that
is there does not end. -/
theorem deliver_pending_endless (self : Topic H) (hlog : 2 ^ 32 ≤ self.messages.length) {client_id : Bytes}
    (hclient : (self.subscribers.find client_id).isSome = true) (fuel : Nat) (outcomes : List Bool) :
    self.deliver_pending client_id fuel outcomes = none := by
  have hturn : ∀ topic : Topic H, topic.messages = self.messages →
      (topic.subscribers.find client_id).isSome = true → ∀ taken, topic.deliver_next client_id taken ≠ none := by
    intro topic hmessages hsome taken hnone
    obtain ⟨sub, hfind⟩ := Option.isSome_iff_exists.mp hsome
    have hpast := (deliver_next_eq_none_iff topic client_id taken).mp hnone sub hfind
    have hcursor := sub.next_offset.toNat_lt
    rw [hmessages] at hpast
    omega
  induction fuel generalizing self outcomes with
  | zero =>
    rw [deliver_pending]
    split
    · rename_i hnone
      exact absurd hnone (hturn self rfl hclient _)
    · rfl
  | succ fuel ih =>
    rw [deliver_pending]
    split
    · rename_i hnone
      exact absurd hnone (hturn self rfl hclient _)
    · rename_i next calls hdeliver
      have hsettles := deliver_next_settles hdeliver
      have hrest := ih next (hsettles.messages ▸ hlog) ((hsettles.clients client_id).trans hclient) outcomes.tail
        (fun topic hmessages => hturn topic (hmessages.trans hsettles.messages))
      dsimp only
      rw [hrest]

/-- The first client that a pass comes to keeps it. -/
theorem run_pass_endless (self : Topic H) (hlog : 2 ^ 32 ≤ self.messages.length)
    (hclients : self.subscribers.entries ≠ []) (fuel : Nat) (outcomes : List Bool) :
    self.run_pass fuel outcomes = none := by
  unfold run_pass
  cases hkeys : self.subscribers.keys with
  | nil => exact absurd (List.map_eq_nil_iff.mp hkeys) hclients
  | cons client_id rest =>
    have hclient : (self.subscribers.find client_id).isSome = true := by
      rw [← HashMap.mem_keys_iff, hkeys]
      exact List.mem_cons_self
    rw [deliver_each, self.deliver_pending_endless hlog hclient]

/-- Removals leave nothing pending that was not. -/
theorem remove_subscriber_pending {self : Topic H} (hidle : self.has_pending = false) (client_id : Bytes) :
    (self.remove_subscriber client_id).2.1.has_pending = false := by
  rw [remove_subscriber_eq]
  apply List.any_eq_false.mpr
  rintro ⟨id, sub⟩ hentry
  have hfind := HashMap.find_of_mem_entries hentry
  rw [drop_subscriber_find] at hfind
  split at hfind
  · cases hfind
  · rw [drop_subscriber_messages]
    exact List.any_eq_false.mp hidle _ (HashMap.mem_entries_of_find hfind)

/-- The removals of clients, one after the other. -/
def remove_subscribers (self : Topic H) (client_ids : List Bytes) : Topic H :=
  client_ids.foldl (fun topic client_id => (topic.remove_subscriber client_id).2.1) self

theorem remove_subscribers_rests {self : Topic H} (hidle : self.has_pending = false) (client_ids : List Bytes) :
    (self.remove_subscribers client_ids).has_pending = false ∧
      (self.remove_subscribers client_ids).stop_flag = self.stop_flag := by
  induction client_ids generalizing self with
  | nil => exact ⟨hidle, rfl⟩
  | cons client_id rest ih =>
    obtain ⟨hrest, hflag⟩ := ih (remove_subscriber_pending hidle client_id)
    refine ⟨hrest, hflag.trans ?_⟩
    rw [remove_subscriber_eq, drop_subscriber_stop_flag]

/-- The pass ends, and then, and after any removals, no cursor is before the end of the log,
so that the worker waits unless it is to stop. -/
def Rests (self : Topic H) (outcomes : List Bool) : Prop :=
  ∃ fuel next calls, self.run_pass fuel outcomes = some (next, calls) ∧ ∀ client_ids,
    (next.remove_subscribers client_ids).has_pending = false ∧
      (next.remove_subscribers client_ids).has_work = self.stop_flag

/-- Whatever the writes answer, the worker comes to rest after a pass exactly if the log has
fewer than 2^32 messages or there is no subscriber. -/
theorem pass_rests_iff (self : Topic H) :
    (∀ outcomes, self.Rests outcomes) ↔ self.messages.length < 2 ^ 32 ∨ self.subscribers.entries = [] := by
  constructor
  · intro hrests
    by_contra hneither
    obtain ⟨hlong, hclients⟩ := not_or.mp hneither
    obtain ⟨fuel, next, calls, hpass, _⟩ := hrests []
    rw [self.run_pass_endless (not_lt.mp hlong) hclients] at hpass
    cases hpass
  · intro hcondition outcomes
    have hends : ∃ next calls fuel, self.run_pass fuel outcomes = some (next, calls) ∧
        next.stop_flag = self.stop_flag ∧ next.has_pending = false := by
      rcases hcondition with hlog | hclients
      · obtain ⟨next, calls, hpass, _, hflag, hidle⟩ := self.run_pass_ends hlog outcomes
        exact ⟨next, calls, _, hpass, hflag, hidle⟩
      · refine ⟨self, [], 0, ?_, rfl, ?_⟩
        · rw [run_pass, HashMap.keys, hclients]
          rfl
        · rw [has_pending, hclients]
          rfl
    obtain ⟨next, calls, fuel, hpass, hflag, hidle⟩ := hends
    refine ⟨fuel, next, calls, hpass, fun client_ids => ?_⟩
    obtain ⟨hrest, hsame⟩ := remove_subscribers_rests hidle client_ids
    exact ⟨hrest, by rw [has_work, hrest, hsame, hflag, Bool.or_false]⟩

/-- One subscriber and 2^32 messages without key and value. -/
theorem pass_never_rests :
    ¬ ∀ outcomes, (((((new [116] : Topic ⟨List.length, UInt8.toNat, UInt32.toNat⟩).add_subscriber [99] [] [47] 0
      (some 3)).2.1).append_messages (List.replicate (2 ^ 32) ([], []))).Rests outcomes) := by
  intro hrests
  obtain ⟨fuel, next, calls, hpass, _⟩ := hrests []
  rw [run_pass_endless] at hpass
  · cases hpass
  · rw [append_messages_length, List.length_replicate]
    exact Nat.le_add_left _ _
  · rw [append_messages_subscribers]
    decide +kernel

end treenity.server.Topic

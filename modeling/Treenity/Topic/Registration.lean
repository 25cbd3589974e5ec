import Mathlib.Data.List.Count
import Treenity.Topic.State

open treenity.protocol treenity.data_structures

namespace treenity.server

namespace Topic

variable {H : StdHash}

/-- The tree and the table hold the same registrations: every entry is stored under
its own client id, and the tree lists a client once at the prefix of its entry and
nowhere else. -/
structure Synced (topic : Topic H) : Prop where
  ids : ∀ id sub, topic.subscribers.find id = some sub → sub.client_id = id
  clients : ∀ path id, (topic.prefix_tree.clients_at path).count id =
    if (topic.subscribers.find id).any (fun sub => sub.pref == path) then 1 else 0

theorem new_synced (topic_name : Bytes) : (new topic_name : Topic H).Synced := by
  refine ⟨?_, ?_⟩
  · intro id sub hfind
    simp [new] at hfind
  · intro path id
    simp [new]

/-- The worker's test, a search for the client in the matches of the key, asks
whether the registered prefix starts the key. -/
theorem Synced.is_matched_iff {self : Topic H} (hsync : self.Synced) {id : Bytes}
    {sub : ActiveSubscriber} (hfind : self.subscribers.find id = some sub) (key : Bytes) :
    id ∈ self.prefix_tree.matching_clients key ↔ sub.pref <+: key := by
  rw [PrefixTree.mem_matching_clients_iff]
  have hcount : ∀ path, id ∈ self.prefix_tree.clients_at path ↔ sub.pref = path := by
    intro path
    rw [← List.count_pos_iff, hsync.clients, hfind]
    by_cases hpath : sub.pref = path <;> simp [hpath]
  simp only [hcount]
  constructor
  · rintro ⟨path, hpath, rfl⟩
    exact hpath
  · intro hpath
    exact ⟨_, hpath, rfl⟩

@[simp] theorem drop_subscriber_messages (self : Topic H) (client_id : Bytes) :
    (self.drop_subscriber client_id).1.messages = self.messages := by
  unfold drop_subscriber
  split <;> rfl

@[simp] theorem drop_subscriber_stop_flag (self : Topic H) (client_id : Bytes) :
    (self.drop_subscriber client_id).1.stop_flag = self.stop_flag := by
  unfold drop_subscriber
  split <;> rfl

@[simp] theorem drop_subscriber_find (self : Topic H) (client_id other : Bytes) :
    (self.drop_subscriber client_id).1.subscribers.find other =
      if other = client_id then none else self.subscribers.find other := by
  unfold drop_subscriber
  split
  · rename_i hnone
    by_cases hother : other = client_id
    · simp [hother, hnone]
    · simp [hother]
  · simp

theorem Synced.drop_subscriber {self : Topic H} (hsync : self.Synced) (client_id : Bytes) :
    (self.drop_subscriber client_id).1.Synced := by
  refine ⟨?_, ?_⟩
  · intro id sub hfind
    rw [drop_subscriber_find] at hfind
    split at hfind
    · cases hfind
    · exact hsync.ids id sub hfind
  · intro path id
    rw [drop_subscriber_find]
    have hold := hsync.clients path id
    unfold Topic.drop_subscriber
    split
    · rename_i hnone
      by_cases hid : id = client_id
      · subst hid
        simpa [hnone] using hold
      · simpa [hid] using hold
    · rename_i sub hsome
      rw [PrefixTree.clients_at_remove]
      by_cases hid : id = client_id
      · subst hid
        rw [hsome] at hold
        by_cases hpath : path = sub.pref
        · subst hpath
          rw [if_pos rfl, List.count_erase_self, hold]
          simp
        · have hpath' : ¬ sub.pref = path := fun h => hpath h.symm
          rw [if_neg hpath, hold]
          simp [hpath']
      · rw [if_neg hid, ← hold]
        by_cases hpath : path = sub.pref
        · subst hpath
          rw [if_pos rfl, List.count_erase_of_ne hid]
        · rw [if_neg hpath]

/-- Everything `add_subscriber` leaves behind, whether or not the FIFO opens. -/
theorem add_subscriber_find (self : Topic H) (client_id pref fifo_path : Bytes)
    (start_offset : UInt32) (opened : Option Fd) (other : Bytes) :
    (self.add_subscriber client_id pref fifo_path start_offset opened).2.1.subscribers.find other =
      if other = client_id then
        opened.map fun fd =>
          { client_id, pref, fifo_path, fifo_fd := some fd, next_offset := start_offset }
      else self.subscribers.find other := by
  unfold add_subscriber
  cases opened with
  | none => simp
  | some fd => by_cases hother : other = client_id <;> simp [hother]

@[simp] theorem add_subscriber_messages (self : Topic H) (client_id pref fifo_path : Bytes)
    (start_offset : UInt32) (opened : Option Fd) :
    (self.add_subscriber client_id pref fifo_path start_offset opened).2.1.messages = self.messages := by
  unfold add_subscriber
  cases opened <;> simp

theorem add_subscriber_stop_flag (self : Topic H) (client_id pref fifo_path : Bytes) (start_offset : UInt32)
    (opened : Option Fd) :
    (self.add_subscriber client_id pref fifo_path start_offset opened).2.1.stop_flag = self.stop_flag := by
  unfold add_subscriber
  cases opened <;> simp

theorem Synced.add_subscriber {self : Topic H} (hsync : self.Synced) (client_id pref fifo_path : Bytes)
    (start_offset : UInt32) (opened : Option Fd) :
    (self.add_subscriber client_id pref fifo_path start_offset opened).2.1.Synced := by
  have hdropped := hsync.drop_subscriber client_id
  refine ⟨?_, ?_⟩
  · intro id sub hfind
    rw [add_subscriber_find] at hfind
    split at hfind
    · rename_i hid
      obtain ⟨fd, _, rfl⟩ := Option.map_eq_some_iff.mp hfind
      exact hid.symm
    · exact hsync.ids id sub hfind
  · intro path id
    rw [add_subscriber_find]
    have hold := hdropped.clients path id
    rw [drop_subscriber_find] at hold
    unfold Topic.add_subscriber
    cases opened with
    | none => simpa [apply_ite] using hold
    | some fd =>
      by_cases hid : id = client_id
      · subst hid
        have hzero : ∀ p, ((self.drop_subscriber id).1.prefix_tree.clients_at p).count id = 0 := by
          intro p
          simpa using hdropped.clients p id
        by_cases hpath : path = pref
        · subst hpath
          simp [hzero]
        · have hpath' : ¬ pref = path := fun h => hpath h.symm
          simp [hpath, hpath', hzero]
      · have hid' : ¬ client_id = id := fun h => hid h.symm
        rw [if_neg hid] at hold
        by_cases hpath : path = pref
        · subst hpath
          simpa [hid, hid', List.count_singleton] using hold
        · simpa [hpath, hid] using hold

theorem remove_subscriber_eq (self : Topic H) (client_id : Bytes) :
    (self.remove_subscriber client_id).2 = self.drop_subscriber client_id := by
  unfold remove_subscriber drop_subscriber
  split <;> rfl

theorem remove_subscriber_find (self : Topic H) (client_id other : Bytes) :
    (self.remove_subscriber client_id).2.1.subscribers.find other =
      if other = client_id then none else self.subscribers.find other := by
  rw [remove_subscriber_eq, drop_subscriber_find]

@[simp] theorem append_message_subscribers (self : Topic H) (key value : Bytes) :
    (self.append_message key value).subscribers = self.subscribers := rfl

theorem Synced.append_message {self : Topic H} (hsync : self.Synced) (key value : Bytes) :
    (self.append_message key value).Synced := ⟨hsync.ids, hsync.clients⟩

end Topic

/-- The call leaves a descriptor alone. -/
def Syscall.Spares (fd : Fd) (call : Syscall) : Prop :=
  call ≠ .close fd ∧ ∀ bytes taken, call ≠ .write fd bytes taken

theorem ActiveSubscriber.offer_fields (self : ActiveSubscriber) (msg : Message) (is_matched taken : Bool) :
    (self.offer msg is_matched taken).1.client_id = self.client_id ∧
      (self.offer msg is_matched taken).1.pref = self.pref ∧
      (self.offer msg is_matched taken).1.fifo_path = self.fifo_path := by
  unfold ActiveSubscriber.offer
  split
  · split <;> exact ⟨rfl, rfl, rfl⟩
  · exact ⟨rfl, rfl, rfl⟩

/-- An entry makes no call, or it writes one frame to its descriptor and closes it
when the write fails. -/
theorem ActiveSubscriber.offer_calls (self : ActiveSubscriber) (msg : Message) (is_matched taken : Bool) :
    (self.offer msg is_matched taken).2 = [] ∨ ∃ fd, self.fifo_fd = some fd ∧
      (self.offer msg is_matched taken).2 =
        if taken then [.write fd msg.frame true] else [.write fd msg.frame false, .close fd] := by
  unfold ActiveSubscriber.offer
  split
  · rename_i fd hfd
    refine .inr ⟨fd, hfd, ?_⟩
    split <;> rfl
  · exact .inl rfl

/-- Only the write may change the descriptor, and it never opens one. -/
theorem ActiveSubscriber.offer_fifo_fd {self : ActiveSubscriber} {msg : Message} {is_matched taken : Bool} {fd : Fd}
    (hfd : (self.offer msg is_matched taken).1.fifo_fd = some fd) : self.fifo_fd = some fd := by
  unfold ActiveSubscriber.offer at hfd
  split at hfd
  · split at hfd
    · exact hfd
    · cases hfd
  · exact hfd

/-- One turn of the delivery loop with the worker's test replaced by what it
decides in a synced topic. -/
def ActiveSubscriber.served (self : ActiveSubscriber) (msg : Message) (taken : Bool) :
    ActiveSubscriber × List Syscall :=
  let (offered, calls) := self.offer msg (self.pref.isPrefixOf msg.key) taken
  ({ offered with next_offset := self.next_offset + 1 }, calls)

namespace ActiveSubscriber

/-- An entry without a descriptor, or whose prefix does not start the key, only moves on. -/
theorem served_silent (self : ActiveSubscriber) {msg : Message} (taken : Bool)
    (hsilent : self.fifo_fd = none ∨ self.pref.isPrefixOf msg.key = false) :
    self.served msg taken = ({ self with next_offset := self.next_offset + 1 }, []) := by
  obtain ⟨client_id, pref, fifo_path, fifo_fd, next_offset⟩ := self
  unfold served offer
  rcases hsilent with hnone | hpref
  · cases hnone
    cases pref.isPrefixOf msg.key <;> rfl
  · dsimp only at hpref ⊢
    rw [hpref]

theorem served_taken (self : ActiveSubscriber) {msg : Message} {fd : Fd} (hfd : self.fifo_fd = some fd)
    (hpref : self.pref.isPrefixOf msg.key = true) :
    self.served msg true =
      ({ self with next_offset := self.next_offset + 1 }, [.write fd msg.frame true]) := by
  obtain ⟨client_id, pref, fifo_path, fifo_fd, next_offset⟩ := self
  cases hfd
  unfold served offer
  dsimp only at hpref ⊢
  rw [hpref]
  rfl

theorem served_failed (self : ActiveSubscriber) {msg : Message} {fd : Fd} (hfd : self.fifo_fd = some fd)
    (hpref : self.pref.isPrefixOf msg.key = true) :
    self.served msg false =
      ({ self with fifo_fd := none, next_offset := self.next_offset + 1 },
        [.write fd msg.frame false, .close fd]) := by
  obtain ⟨client_id, pref, fifo_path, fifo_fd, next_offset⟩ := self
  cases hfd
  unfold served offer
  dsimp only at hpref ⊢
  rw [hpref]
  rfl

/-- Serving an entry never opens a descriptor. -/
theorem served_fifo_fd {self : ActiveSubscriber} {msg : Message} {taken : Bool} {fd : Fd}
    (hfd : (self.served msg taken).1.fifo_fd = some fd) : self.fifo_fd = some fd := by
  cases hpref : self.pref.isPrefixOf msg.key with
  | false => simpa [self.served_silent taken (.inr hpref)] using hfd
  | true =>
    cases hopen : self.fifo_fd with
    | none => simp [self.served_silent taken (.inl hopen), hopen] at hfd
    | some held =>
      cases taken with
      | true => simpa [self.served_taken hopen hpref, hopen] using hfd
      | false => simp [self.served_failed hopen hpref] at hfd

/-- A write that is taken leaves the entry its descriptor. -/
theorem served_keeps_fd (self : ActiveSubscriber) (msg : Message) :
    (self.served msg true).1.fifo_fd = self.fifo_fd := by
  cases hopen : self.fifo_fd with
  | none => rw [self.served_silent true (.inl hopen), hopen]
  | some fd =>
    cases hpref : self.pref.isPrefixOf msg.key with
    | false => rw [self.served_silent true (.inr hpref), hopen]
    | true => rw [self.served_taken hopen hpref, hopen]

/-- Serving an entry makes calls on its own descriptor only. -/
theorem served_spares {self : ActiveSubscriber} {msg : Message} {taken : Bool} {fd : Fd}
    (hother : self.fifo_fd ≠ some fd) : ∀ call ∈ (self.served msg taken).2, call.Spares fd := by
  intro call hcall
  cases hpref : self.pref.isPrefixOf msg.key with
  | false => simp [self.served_silent taken (.inr hpref)] at hcall
  | true =>
    cases hopen : self.fifo_fd with
    | none => simp [self.served_silent taken (.inl hopen)] at hcall
    | some held =>
      have hheld : held ≠ fd := fun hsame => hother (hsame ▸ hopen)
      cases taken with
      | true =>
        obtain rfl : call = .write held msg.frame true := by
          simpa [self.served_taken hopen hpref] using hcall
        exact ⟨by simp, by simp [hheld]⟩
      | false =>
        have hcalls : call = .write held msg.frame false ∨ call = .close held := by
          simpa [self.served_failed hopen hpref] using hcall
        rcases hcalls with rfl | rfl
        · exact ⟨by simp, by simp [hheld]⟩
        · exact ⟨by simp [hheld], by simp⟩

end ActiveSubscriber

namespace Topic

variable {H : StdHash}

/-- What one turn of the delivery loop does: it serves the next message of the log
to the entry and changes nothing else. -/
theorem Synced.deliver_next_cases {self next : Topic H} {calls : List Syscall} {client_id : Bytes}
    {taken : Bool} (hsync : self.Synced) (hdeliver : self.deliver_next client_id taken = some (next, calls)) :
    ∃ sub msg, self.subscribers.find client_id = some sub ∧
      self.messages[sub.next_offset.toNat]? = some msg ∧
      calls = (sub.served msg taken).2 ∧
      next = { self with subscribers := self.subscribers.replace client_id (sub.served msg taken).1 } := by
  unfold deliver_next at hdeliver
  cases hfind : self.subscribers.find client_id with
  | none => simp [hfind] at hdeliver
  | some sub =>
    cases hmsg : self.messages[sub.next_offset.toNat]? with
    | none => simp [hfind, hmsg] at hdeliver
    | some msg =>
      have hid := hsync.ids client_id sub hfind
      have hmatch : (self.prefix_tree.matching_clients msg.key).contains sub.client_id =
          sub.pref.isPrefixOf msg.key := by
        rw [Bool.eq_iff_iff, List.contains_iff_mem, hid, hsync.is_matched_iff hfind,
          List.isPrefixOf_iff_prefix]
      simp only [hfind, hmsg, hmatch, Option.some.injEq, Prod.mk.injEq] at hdeliver
      obtain ⟨rfl, rfl⟩ := hdeliver
      exact ⟨sub, msg, rfl, hmsg, rfl, rfl⟩

theorem deliver_next_messages {self next : Topic H} {calls : List Syscall} {client_id : Bytes} {taken : Bool}
    (hdeliver : self.deliver_next client_id taken = some (next, calls)) : next.messages = self.messages := by
  unfold deliver_next at hdeliver
  split at hdeliver
  · cases hdeliver
  · split at hdeliver
    · cases hdeliver
    · cases hdeliver
      rfl

theorem deliver_next_stop_flag {self next : Topic H} {calls : List Syscall} {client_id : Bytes} {taken : Bool}
    (hdeliver : self.deliver_next client_id taken = some (next, calls)) : next.stop_flag = self.stop_flag := by
  unfold deliver_next at hdeliver
  split at hdeliver
  · cases hdeliver
  · split at hdeliver
    · cases hdeliver
    · cases hdeliver
      rfl

/-- The calls of a turn are those of its entry. -/
theorem deliver_next_calls {self next : Topic H} {calls : List Syscall} {client_id : Bytes} {taken : Bool}
    (hdeliver : self.deliver_next client_id taken = some (next, calls)) :
    ∃ sub msg is_matched, self.subscribers.find client_id = some sub ∧
      calls = (sub.offer msg is_matched taken).2 := by
  unfold deliver_next at hdeliver
  split at hdeliver
  · cases hdeliver
  · rename_i sub hfind
    split at hdeliver
    · cases hdeliver
    · rename_i msg hmsg
      obtain ⟨_, hcalls⟩ := Prod.mk.inj (Option.some.inj hdeliver)
      exact ⟨sub, msg, _, hfind, hcalls.symm⟩

/-- A turn of the delivery loop replaces an entry by one for the same registration,
which has a descriptor only if it had it before. -/
theorem deliver_next_find {self next : Topic H} {calls : List Syscall} {client_id : Bytes} {taken : Bool}
    (hdeliver : self.deliver_next client_id taken = some (next, calls)) {other : Bytes} {sub : ActiveSubscriber}
    (hfind : next.subscribers.find other = some sub) :
    ∃ old, self.subscribers.find other = some old ∧ sub.fifo_path = old.fifo_path ∧ sub.pref = old.pref ∧
      ∀ fd, sub.fifo_fd = some fd → old.fifo_fd = some fd := by
  unfold deliver_next at hdeliver
  split at hdeliver
  · cases hdeliver
  · rename_i entry hentry
    split at hdeliver
    · cases hdeliver
    · rename_i msg hmsg
      cases hdeliver
      dsimp only at hfind
      rw [HashMap.find_replace_of_find hentry] at hfind
      split at hfind
      · rename_i hother
        obtain rfl := Option.some.inj hfind
        obtain ⟨_, hpref, hpath⟩ := entry.offer_fields msg
          ((self.prefix_tree.matching_clients msg.key).contains entry.client_id) taken
        exact ⟨entry, hother ▸ hentry, hpath, hpref, fun _ hfd => ActiveSubscriber.offer_fifo_fd hfd⟩
      · exact ⟨sub, hfind, rfl, rfl, fun _ hfd => hfd⟩

/-- A turn moves the cursor of one entry, which was inside the log, one further. -/
theorem deliver_next_turn {self next : Topic H} {calls : List Syscall} {client_id : Bytes} {taken : Bool}
    (hdeliver : self.deliver_next client_id taken = some (next, calls)) :
    ∃ sub served, self.subscribers.find client_id = some sub ∧ sub.next_offset.toNat < self.messages.length ∧
      served.next_offset = sub.next_offset + 1 ∧ ∀ other, next.subscribers.find other =
        if other = client_id then some served else self.subscribers.find other := by
  unfold deliver_next at hdeliver
  split at hdeliver
  · cases hdeliver
  · rename_i sub hfind
    split at hdeliver
    · cases hdeliver
    · rename_i msg hmsg
      obtain ⟨hinside, _⟩ := List.getElem?_eq_some_iff.mp hmsg
      cases hdeliver
      exact ⟨sub, _, hfind, hinside, rfl, HashMap.find_replace_of_find hfind _⟩

theorem deliver_next_isSome {self next : Topic H} {calls : List Syscall} {client_id : Bytes} {taken : Bool}
    (hdeliver : self.deliver_next client_id taken = some (next, calls)) (other : Bytes) :
    (next.subscribers.find other).isSome = (self.subscribers.find other).isSome := by
  obtain ⟨sub, served, hfind, _, _, hnext⟩ := deliver_next_turn hdeliver
  rw [hnext]
  split
  · rename_i hother
    rw [hother, hfind]
    rfl
  · rfl

/-- The loop of an entry goes on exactly while its cursor is inside the log. -/
theorem deliver_next_eq_none_iff (self : Topic H) (client_id : Bytes) (taken : Bool) :
    self.deliver_next client_id taken = none ↔
      ∀ sub, self.subscribers.find client_id = some sub → self.messages.length ≤ sub.next_offset.toNat := by
  unfold deliver_next
  cases hfind : self.subscribers.find client_id with
  | none => simp
  | some sub =>
    cases hmsg : self.messages[sub.next_offset.toNat]? with
    | none => simpa [hmsg] using List.getElem?_eq_none_iff.mp hmsg
    | some msg =>
      obtain ⟨hinside, _⟩ := List.getElem?_eq_some_iff.mp hmsg
      simpa [hmsg] using hinside

theorem Synced.deliver_next {self next : Topic H} {calls : List Syscall} {client_id : Bytes}
    {taken : Bool} (hsync : self.Synced) (hdeliver : self.deliver_next client_id taken = some (next, calls)) :
    next.Synced := by
  obtain ⟨sub, msg, hfind, _, _, rfl⟩ := hsync.deliver_next_cases hdeliver
  obtain ⟨hid, hpref, _⟩ := sub.offer_fields msg (sub.pref.isPrefixOf msg.key) taken
  refine ⟨?_, ?_⟩
  · intro id found hfound
    rw [HashMap.find_replace_of_find hfind] at hfound
    split at hfound
    · rename_i heq
      cases hfound
      rw [heq]
      exact hid.trans (hsync.ids client_id sub hfind)
    · exact hsync.ids id found hfound
  · intro path id
    rw [HashMap.find_replace_of_find hfind]
    have hold := hsync.clients path id
    by_cases heq : id = client_id
    · subst heq
      rw [hfind] at hold
      simpa [ActiveSubscriber.served, hpref] using hold
    · simpa [heq] using hold

/-- An idle worker has brought every cursor to the end of the log. -/
theorem next_offset_of_idle {self : Topic H} {client_id : Bytes} {sub : ActiveSubscriber}
    (hidle : self.has_work = false) (hfind : self.subscribers.find client_id = some sub) :
    self.messages.length ≤ sub.next_offset.toNat := by
  have hpending : self.has_pending = false := (Bool.or_eq_false_iff.mp hidle).2
  have hentry := List.any_eq_false.mp hpending _ (HashMap.mem_entries_of_find hfind)
  simpa using hentry

end Topic

end treenity.server

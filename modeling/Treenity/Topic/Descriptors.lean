import Treenity.Foundation.Handles
import Treenity.Topic.Runs
import Treenity.Topic.Shutdown

open treenity.protocol treenity.data_structures treenity.foundation

namespace treenity.server

/-- `open` gives a descriptor out and `close` gives it back. -/
def Syscall.act : Syscall → Act Fd
  | opened fd _ => .acquire fd
  | write fd _ _ => .use fd
  | close fd => .release fd

theorem Syscall.act_eq_release_iff (call : Syscall) (fd : Fd) : call.act = .release fd ↔ call = .close fd := by
  cases call <;> simp [act]

/-- What an entry does when a frame is offered to it, it does to its own descriptor. -/
theorem ActiveSubscriber.offer_custody {own : Bytes → Option Fd} {id : Bytes} {self : ActiveSubscriber}
    (hown : own id = self.fifo_fd) (msg : Message) (is_matched taken : Bool) :
    Custody Syscall.act own (self.offer msg is_matched taken).2
      (Function.update own id (self.offer msg is_matched taken).1.fifo_fd) := by
  have hsame : Function.update own id self.fifo_fd = own := hown ▸ Function.update_eq_self id own
  unfold offer
  split
  · rename_i fd hfd
    have hheld : own id = some fd := hown.trans hfd
    have hwrite : ∀ sent, Custody Syscall.act own [.write fd msg.frame sent] own := fun _ => .use hheld rfl
    have hclose : Custody Syscall.act own [.close fd] (Function.update own id none) := .release hheld rfl
    split
    · rw [hsame]
      exact hwrite true
    · exact (hwrite false).trans hclose
  · rw [hsame]
    exact .refl own

theorem ActiveSubscriber.send_shutdown_custody {own : Bytes → Option Fd} {id : Bytes} {self : ActiveSubscriber}
    (hown : own id = self.fifo_fd) (taken : Fd → Bool) :
    Custody Syscall.act own (self.send_shutdown taken) (Function.update own id none) := by
  unfold send_shutdown
  cases hfd : self.fifo_fd with
  | none =>
    have hsame : Function.update own id none = own := (hown.trans hfd) ▸ Function.update_eq_self id own
    rw [hsame]
    exact .refl own
  | some fd =>
    have hheld : own id = some fd := hown.trans hfd
    have hwrite : Custody Syscall.act own [.write fd Response.serialize_shutdown (taken fd)] own := .use hheld rfl
    have hclose : Custody Syscall.act own [.close fd] (Function.update own id none) := .release hheld rfl
    exact hwrite.trans hclose

/-- The loop of `shutdown` over distinct entries takes the descriptor of each. -/
theorem send_each_custody (taken : Fd → Bool) {entries : List (Bytes × ActiveSubscriber)} {own : Bytes → Option Fd}
    (hdistinct : (entries.map Prod.fst).Nodup) (hown : ∀ entry ∈ entries, own entry.1 = entry.2.fifo_fd) :
    Custody Syscall.act own (entries.flatMap fun entry => entry.2.send_shutdown taken)
      (fun id => if id ∈ entries.map Prod.fst then none else own id) := by
  induction entries generalizing own with
  | nil => simpa using Custody.refl own
  | cons entry rest ih =>
    obtain ⟨hfirst, hrest⟩ := List.nodup_cons.mp hdistinct
    obtain ⟨hentry, hothers⟩ := List.forall_mem_cons.mp hown
    have hafter : ∀ other ∈ rest, Function.update own entry.1 none other.1 = other.2.fifo_fd := by
      intro other hother
      have hne : other.1 ≠ entry.1 := fun hsame => hfirst (hsame ▸ List.mem_map_of_mem hother)
      rw [Function.update_of_ne hne, hothers other hother]
    have hloop := (ActiveSubscriber.send_shutdown_custody hentry taken).trans (ih hrest hafter)
    rw [List.flatMap_cons]
    convert hloop using 1
    funext id
    by_cases hid : id = entry.1
    · simp [hid]
    · rw [Function.update_of_ne hid, List.map_cons]
      simp only [List.mem_cons, hid, false_or]

namespace Topic

variable {H : StdHash}

/-- The descriptor in the entry of a client. -/
def descriptor (self : Topic H) (client_id : Bytes) : Option Fd :=
  (self.subscribers.find client_id).bind ActiveSubscriber.fifo_fd

theorem drop_subscriber_descriptor (self : Topic H) (client_id : Bytes) :
    (self.drop_subscriber client_id).1.descriptor = Function.update self.descriptor client_id none := by
  funext id
  by_cases hid : id = client_id <;> simp [descriptor, hid]

theorem drop_subscriber_custody (self : Topic H) (client_id : Bytes) :
    Custody Syscall.act self.descriptor (self.drop_subscriber client_id).2
      (self.drop_subscriber client_id).1.descriptor := by
  rw [drop_subscriber_descriptor]
  cases hfd : self.descriptor client_id with
  | none =>
    have hsame : Function.update self.descriptor client_id none = self.descriptor :=
      hfd ▸ Function.update_eq_self client_id self.descriptor
    have hcalls : (self.drop_subscriber client_id).2 = [] := by
      unfold drop_subscriber
      split
      · rfl
      · rename_i sub hfind
        have hnone : sub.fifo_fd = none := by simpa [descriptor, hfind] using hfd
        rw [hnone, close_fd]
    rw [hsame, hcalls]
    exact .refl _
  | some fd =>
    obtain ⟨sub, hfind, hopen⟩ := Option.bind_eq_some_iff.mp hfd
    have hcalls : (self.drop_subscriber client_id).2 = [.close fd] := by
      rw [drop_subscriber, hfind]
      dsimp only
      rw [hopen, close_fd]
    rw [hcalls]
    exact .release hfd rfl

/-- `open` succeeds and the entry is there, or neither. -/
theorem add_subscriber_succeeds (self : Topic H) (client_id pref fifo_path : Bytes) (start_offset : UInt32)
    (opened : Option Fd) : (self.add_subscriber client_id pref fifo_path start_offset opened).1 = opened.isSome := by
  unfold add_subscriber
  cases opened <;> rfl

/-- The kernel answers `open` with a descriptor that no entry holds. -/
theorem add_subscriber_custody (self : Topic H) (client_id pref fifo_path : Bytes) (start_offset : UInt32)
    {opened : Option Fd}
    (hfree : ∀ fd, opened = some fd → ∀ id, (self.drop_subscriber client_id).1.descriptor id ≠ some fd) :
    Custody Syscall.act self.descriptor (self.add_subscriber client_id pref fifo_path start_offset opened).2.2
      (self.add_subscriber client_id pref fifo_path start_offset opened).2.1.descriptor := by
  have hdropped := self.drop_subscriber_custody client_id
  cases opened with
  | none => exact hdropped
  | some fd =>
    have hvacant : (self.drop_subscriber client_id).1.descriptor client_id = none := by
      rw [drop_subscriber_descriptor, Function.update_self]
    have hopened : Custody Syscall.act (self.drop_subscriber client_id).1.descriptor [.opened fd fifo_path]
        (Function.update (self.drop_subscriber client_id).1.descriptor client_id (some fd)) :=
      .acquire hvacant (hfree fd rfl) rfl
    have hnext : (self.add_subscriber client_id pref fifo_path start_offset (some fd)).2.1.descriptor =
        Function.update (self.drop_subscriber client_id).1.descriptor client_id (some fd) := by
      funext id
      rw [descriptor, add_subscriber_find]
      by_cases hid : id = client_id <;> simp [hid, descriptor]
    rw [hnext]
    exact hdropped.trans hopened

theorem deliver_next_custody {self next : Topic H} {calls : List Syscall} {client_id : Bytes} {taken : Bool}
    (hdeliver : self.deliver_next client_id taken = some (next, calls)) :
    Custody Syscall.act self.descriptor calls next.descriptor := by
  unfold deliver_next at hdeliver
  split at hdeliver
  · cases hdeliver
  · rename_i sub hfind
    have hown : self.descriptor client_id = sub.fifo_fd := by rw [descriptor, hfind, Option.bind_some]
    have hupdated : ∀ (topic : Topic H) served, topic.subscribers = self.subscribers.replace client_id served →
        topic.descriptor = Function.update self.descriptor client_id served.fifo_fd := by
      intro topic served hsubscribers
      funext id
      rw [descriptor, hsubscribers, HashMap.find_replace_of_find hfind]
      by_cases hid : id = client_id <;> simp [hid, descriptor]
    split at hdeliver
    · cases hdeliver
    · obtain ⟨hnext, rfl⟩ := Prod.mk.inj (Option.some.inj hdeliver)
      rw [hupdated next _ (congrArg Topic.subscribers hnext).symm]
      exact ActiveSubscriber.offer_custody hown _ _ taken

/-- A turn gives no client a descriptor. -/
theorem deliver_next_vacant {self next : Topic H} {calls : List Syscall} {client_id : Bytes} {taken : Bool}
    (hdeliver : self.deliver_next client_id taken = some (next, calls)) (id : Bytes)
    (hnone : self.descriptor id = none) : next.descriptor id = none := by
  cases hfd : next.descriptor id with
  | none => rfl
  | some fd =>
    obtain ⟨sub, hfind, hopen⟩ := Option.bind_eq_some_iff.mp hfd
    obtain ⟨old, hold, _, _, hkept⟩ := deliver_next_find hdeliver hfind
    rw [descriptor, hold, Option.bind_some, hkept fd hopen] at hnone
    cases hnone

theorem shutdown_descriptor {self : Topic H} (hrunning : self.stop_flag = false) (taken : Fd → Bool) (id : Bytes) :
    (self.shutdown taken).1.descriptor id = none := by
  rw [descriptor, shutdown_find, hrunning]
  rfl

theorem shutdown_custody (self : Topic H) (taken : Fd → Bool) :
    Custody Syscall.act self.descriptor (self.shutdown taken).2 (self.shutdown taken).1.descriptor := by
  cases hflag : self.stop_flag with
  | true =>
    rw [shutdown_stopped hflag]
    exact .refl _
  | false =>
    have hown : ∀ entry ∈ self.subscribers.entries, self.descriptor entry.1 = entry.2.fifo_fd := by
      intro entry hentry
      rw [descriptor, HashMap.find_of_mem_entries hentry, Option.bind_some]
    have hloop := send_each_custody taken self.subscribers.keys_nodup hown
    have hcalls : (self.shutdown taken).2 =
        self.subscribers.entries.flatMap (fun entry => entry.2.send_shutdown taken) := by
      rw [shutdown, if_neg (by simp [hflag])]
    rw [hcalls]
    convert hloop using 1
    funext id
    rw [shutdown_descriptor hflag]
    split
    · rfl
    · rename_i habsent
      cases hfd : self.descriptor id with
      | none => rfl
      | some fd =>
        obtain ⟨sub, hfind, _⟩ := Option.bind_eq_some_iff.mp hfd
        exact absurd (List.mem_map_of_mem (f := Prod.fst) (HashMap.mem_entries_of_find hfind)) habsent

end Topic

/-- A `Topic` object until it is destroyed. `fds` are the descriptors that `open` gave it and no
`close` has taken back, and `pass` holds the entries that the current delivery pass has still to
visit, if the worker is in one. Of a destroyed object `topic` is what the destructor's body left. -/
structure TopicObject (H : StdHash) where
  topic : Topic H
  pass : Option (List Bytes)
  destroyed : Bool
  fds : List Fd

inductive TopicObject.Event where
  | append_message (key value : Bytes)
  | add_subscriber (client_id pref fifo_path : Bytes) (start_offset : UInt32) (opened : Option Fd)
  | remove_subscriber (client_id : Bytes)
  | begin_pass
  | turn (taken : Bool)
  | end_pass
  | shutdown (taken : Fd → Bool)
  | destroy (taken : Fd → Bool)

namespace TopicObject

variable {H : StdHash}

def new (topic_name : Bytes) : TopicObject H := ⟨Topic.new topic_name, none, false, []⟩

/-- The object after an operation on the topic, with its system calls. -/
def after (self : TopicObject H) (outcome : Topic H × List Syscall) : TopicObject H × List Syscall :=
  ({ self with topic := outcome.1, fds := handles Syscall.act self.fds outcome.2 }, outcome.2)

/-- One step, with its system calls. The mutex keeps the other operations out of a delivery pass,
the worker begins none once it sees `stop_flag`, and nothing may follow the destructor. The
kernel answers `open` with a descriptor that is not open. -/
def step (self : TopicObject H) (event : Event) : Option (TopicObject H × List Syscall) :=
  if self.destroyed then none
  else
    match self.pass, event with
    | none, .append_message key value => some (self.after (self.topic.append_message key value, []))
    | none, .add_subscriber client_id pref fifo_path start_offset opened =>
      let still_open := handles Syscall.act self.fds (self.topic.drop_subscriber client_id).2
      if opened.any (fun fd => still_open.contains fd) then none
      else some (self.after (self.topic.add_subscriber client_id pref fifo_path start_offset opened).2)
    | none, .remove_subscriber client_id => some (self.after (self.topic.remove_subscriber client_id).2)
    | none, .begin_pass =>
      if !self.topic.stop_flag && self.topic.has_pending then
        some ({ self with pass := some self.topic.subscribers.keys }, [])
      else none
    | some (client_id :: rest), .turn taken =>
      match self.topic.deliver_next client_id taken with
      | some outcome => some (self.after outcome)
      | none => some ({ self with pass := some rest }, [])
    | some [], .end_pass => some ({ self with pass := none }, [])
    | none, .shutdown taken => some (self.after (self.topic.shutdown taken))
    | none, .destroy taken =>
      let (last, calls) := self.after (self.topic.shutdown taken)
      some ({ last with destroyed := true }, calls)
    | _, _ => none

/-- The event is a call of `add_subscriber` that returns true. -/
def Event.subscribes : Event → Bool
  | add_subscriber _ _ _ _ opened => opened.isSome
  | _ => false

def Event.is_shutdown : Event → Bool
  | shutdown _ => true
  | _ => false

/-- What a step can be: `add_subscriber`, the body of `shutdown`, or something that opens no
descriptor and leaves `stop_flag` alone. -/
inductive Kind (self : TopicObject H) : Event → List Syscall → TopicObject H → Prop
  | add_subscriber {next : TopicObject H} {calls : List Syscall} (client_id pref fifo_path : Bytes)
      (start_offset : UInt32) (opened : Option Fd) (hlive : next.destroyed = false)
      (hfresh : ∀ fd, opened = some fd →
        fd ∉ handles Syscall.act self.fds (self.topic.drop_subscriber client_id).2)
      (htopic : next.topic = (self.topic.add_subscriber client_id pref fifo_path start_offset opened).2.1)
      (hcalls : calls = (self.topic.add_subscriber client_id pref fifo_path start_offset opened).2.2) :
      Kind self (.add_subscriber client_id pref fifo_path start_offset opened) calls next
  | shutdown {event : Event} {next : TopicObject H} {calls : List Syscall} (taken : Fd → Bool)
      (hevent : event.is_shutdown = true ∨ next.destroyed = true)
      (htopic : next.topic = (self.topic.shutdown taken).1) (hcalls : calls = (self.topic.shutdown taken).2) :
      Kind self event calls next
  | other {event : Event} {next : TopicObject H} {calls : List Syscall} (hlive : next.destroyed = false)
      (hflag : next.topic.stop_flag = self.topic.stop_flag)
      (hcustody : Custody Syscall.act self.topic.descriptor calls next.topic.descriptor)
      (hnone : ∀ id, self.topic.descriptor id = none → next.topic.descriptor id = none) :
      Kind self event calls next

theorem step_kind {self next : TopicObject H} {event : Event} {calls : List Syscall}
    (hstep : self.step event = some (next, calls)) :
    self.destroyed = false ∧ next.fds = handles Syscall.act self.fds calls ∧ self.Kind event calls next := by
  unfold step at hstep
  split at hstep
  · cases hstep
  · rename_i hlive
    have hlive : self.destroyed = false := by simpa using hlive
    refine ⟨hlive, ?_⟩
    split at hstep
    · cases hstep
      exact ⟨rfl, .other hlive rfl (.refl _) fun _ hnone => hnone⟩
    · rename_i client_id pref fifo_path start_offset opened _
      dsimp only at hstep
      split at hstep
      · cases hstep
      · rename_i hfree
        have hfresh : ∀ fd, opened = some fd →
            fd ∉ handles Syscall.act self.fds (self.topic.drop_subscriber client_id).2 := by
          rintro fd rfl
          simpa using hfree
        cases hstep
        exact ⟨rfl, .add_subscriber client_id pref fifo_path start_offset opened hlive hfresh rfl rfl⟩
    · rename_i client_id _
      cases hstep
      refine ⟨rfl, .other hlive ?_ ?_ ?_⟩
      all_goals simp only [Topic.remove_subscriber_eq]
      · exact self.topic.drop_subscriber_stop_flag client_id
      · exact self.topic.drop_subscriber_custody client_id
      · intro id hnone
        rw [Topic.drop_subscriber_descriptor, Function.update_apply, hnone, ite_self]
    · split at hstep
      · cases hstep
        exact ⟨rfl, .other hlive rfl (.refl _) fun _ hnone => hnone⟩
      · cases hstep
    · split at hstep
      · rename_i outcome hdeliver
        cases hstep
        exact ⟨rfl, .other hlive (Topic.deliver_next_stop_flag hdeliver) (Topic.deliver_next_custody hdeliver)
          (Topic.deliver_next_vacant hdeliver)⟩
      · cases hstep
        exact ⟨rfl, .other hlive rfl (.refl _) fun _ hnone => hnone⟩
    · cases hstep
      exact ⟨rfl, .other hlive rfl (.refl _) fun _ hnone => hnone⟩
    · rename_i taken _
      cases hstep
      exact ⟨rfl, .shutdown taken (.inl rfl) rfl rfl⟩
    · rename_i taken _
      cases hstep
      exact ⟨rfl, .shutdown taken (.inr rfl) rfl rfl⟩
    · cases hstep

/-- The descriptors stay in custody whatever the step is. -/
theorem Kind.custody {self next : TopicObject H} {event : Event} {calls : List Syscall}
    (hkind : self.Kind event calls next) (howned : Owned self.topic.descriptor self.fds) :
    Custody Syscall.act self.topic.descriptor calls next.topic.descriptor := by
  cases hkind with
  | add_subscriber client_id pref fifo_path start_offset opened _ hfresh htopic hcalls =>
    have hdropped := (self.topic.drop_subscriber_custody client_id self.fds howned).2
    rw [htopic, hcalls]
    apply Topic.add_subscriber_custody
    intro fd hopened id hheld
    exact hfresh fd hopened ((hdropped.mem_iff fd).mpr ⟨id, hheld⟩)
  | shutdown taken _ htopic hcalls =>
    rw [htopic, hcalls]
    exact self.topic.shutdown_custody taken
  | other _ _ hcustody => exact hcustody

/-- No call of `add_subscriber` succeeds after one of `shutdown`. -/
def QuietAfterShutdown (labels : List (Event × List Syscall)) : Prop :=
  labels.Pairwise fun earlier later => earlier.1.is_shutdown = true → later.1.subscribes = false

/-- What a run keeps: its calls are disciplined, and the descriptors they left open are those of
the entries. -/
structure Kept (past : List (Event × List Syscall)) (object : TopicObject H) : Prop where
  disciplined : Disciplined Syscall.act [] (past.flatMap Prod.snd)
  fds : object.fds = handles Syscall.act [] (past.flatMap Prod.snd)
  owned : Owned object.topic.descriptor object.fds

theorem new_kept (topic_name : Bytes) : Kept [] (new topic_name : TopicObject H) := by
  refine ⟨trivial, rfl, .empty ?_⟩
  intro id
  simp [new, Topic.new, Topic.descriptor]

theorem Kept.step {past : List (Event × List Syscall)} {self next : TopicObject H} {event : Event}
    {calls : List Syscall} (hkept : Kept past self) (hstep : self.step event = some (next, calls)) :
    Kept (past ++ [(event, calls)]) next := by
  obtain ⟨_, hfds, hkind⟩ := step_kind hstep
  obtain ⟨hdisciplined, howned⟩ := hkind.custody hkept.owned self.fds hkept.owned
  have hpast : (past ++ [(event, calls)]).flatMap Prod.snd = past.flatMap Prod.snd ++ calls := by simp
  refine ⟨?_, ?_, hfds ▸ howned⟩
  · rw [hpast, disciplined_append, ← hkept.fds]
    exact ⟨hkept.disciplined, hdisciplined⟩
  · rw [hpast, handles_append, ← hkept.fds, hfds]

/-- What becomes of the entries of a topic that is shut down: they have no descriptor, unless
one of them came after that. -/
structure Emptied (past : List (Event × List Syscall)) (object : TopicObject H) : Prop where
  stopped : object.destroyed = true → object.topic.stop_flag = true
  announced : object.topic.stop_flag = true →
    object.destroyed = true ∨ ∃ label ∈ past, label.1.is_shutdown = true
  emptied : QuietAfterShutdown past → object.topic.stop_flag = true → ∀ id, object.topic.descriptor id = none

theorem new_emptied (topic_name : Bytes) : Emptied [] (new topic_name : TopicObject H) := by
  refine ⟨fun hdestroyed => ?_, fun hstopped => ?_, fun _ hstopped => ?_⟩
  · cases hdestroyed
  · cases hstopped
  · cases hstopped

theorem Emptied.step {past : List (Event × List Syscall)} {self next : TopicObject H} {event : Event}
    {calls : List Syscall} (hself : Emptied past self) (hstep : self.step event = some (next, calls)) :
    Emptied (past ++ [(event, calls)]) next := by
  obtain ⟨hlive, _, hkind⟩ := step_kind hstep
  have hshut : self.topic.stop_flag = true → ∃ label ∈ past, label.1.is_shutdown = true := by
    intro hstopped
    apply (hself.announced hstopped).resolve_left
    simp [hlive]
  have hbefore : QuietAfterShutdown (past ++ [(event, calls)]) → self.topic.stop_flag = true →
      event.subscribes = false ∧ ∀ id, self.topic.descriptor id = none := by
    intro hquiet hstopped
    obtain ⟨hquietPast, _, hlast⟩ := List.pairwise_append.mp hquiet
    obtain ⟨label, hlabel, hshuts⟩ := hshut hstopped
    exact ⟨hlast label hlabel _ (List.mem_singleton_self _) hshuts, hself.emptied hquietPast hstopped⟩
  -- A step that leaves `stop_flag` alone announces nothing new.
  have hsame : next.topic.stop_flag = self.topic.stop_flag → next.topic.stop_flag = true →
      next.destroyed = true ∨ ∃ label ∈ past ++ [(event, calls)], label.1.is_shutdown = true := by
    intro hflag hstopped
    obtain ⟨label, hlabel, hshuts⟩ := hshut (hflag ▸ hstopped)
    exact .inr ⟨label, List.mem_append_left _ hlabel, hshuts⟩
  cases hkind with
  | add_subscriber client_id pref fifo_path start_offset opened hnotDestroyed _ htopic =>
    have hflag : next.topic.stop_flag = self.topic.stop_flag := by
      rw [htopic, Topic.add_subscriber_stop_flag]
    refine ⟨by simp [hnotDestroyed], hsame hflag, ?_⟩
    intro hquiet hstopped id
    obtain ⟨hfails, hnone⟩ := hbefore hquiet (hflag ▸ hstopped)
    obtain rfl : opened = none := by simpa [Event.subscribes] using hfails
    have hid := hnone id
    rw [Topic.descriptor, htopic, Topic.add_subscriber_find]
    split
    · simp
    · exact hid
  | shutdown taken hevent htopic =>
    have hstopped : next.topic.stop_flag = true := by rw [htopic, Topic.shutdown_stop_flag]
    refine ⟨fun _ => hstopped, ?_, ?_⟩
    · intro _
      rcases hevent with hshuts | hdestroyed
      · exact .inr ⟨(event, calls), by simp, hshuts⟩
      · exact .inl hdestroyed
    · intro hquiet _ id
      cases hflag : self.topic.stop_flag with
      | true =>
        rw [htopic, Topic.shutdown_stopped hflag]
        exact (hbefore hquiet hflag).2 id
      | false =>
        rw [htopic, Topic.shutdown_descriptor hflag]
  | other hnotDestroyed hflag _ hvacant =>
    refine ⟨by simp [hnotDestroyed], hsame hflag, ?_⟩
    intro hquiet hstopped id
    exact hvacant id ((hbefore hquiet (hflag ▸ hstopped)).2 id)

/-- Over every run of a topic, a descriptor that `open` gave it is in exactly one entry until it is
closed. Until its number is given out again it is closed once at most and not written to after
that, and when the object is destroyed it has been closed, unless a client subscribed after
`shutdown`. -/
theorem descriptors_owned (topic_name : Bytes) {self : TopicObject H} {labels : List (Event × List Syscall)}
    (hrun : Run (Fires step) (new topic_name) labels self) {fd : Fd} {path : Bytes} {earlier since : List Syscall}
    (hopened : labels.flatMap Prod.snd = earlier ++ .opened fd path :: since) :
    (.close fd ∉ since → ∃! client_id, self.topic.descriptor client_id = some fd) ∧
      (tenure Syscall.act fd since).count (.close fd) ≤ 1 ∧
      (∀ first rest, tenure Syscall.act fd since = first ++ .close fd :: rest →
        ∀ bytes taken, .write fd bytes taken ∉ rest) ∧
      (self.destroyed = true → QuietAfterShutdown labels → .close fd ∈ since) := by
  have hkept : Kept labels self :=
    hrun.history (new_kept topic_name) fun past object label next hobject hstep => hobject.step hstep
  have hemptied : Emptied labels self :=
    hrun.history (new_emptied topic_name) fun past object label next hobject hstep => hobject.step hstep
  have hdisciplined := hkept.disciplined
  have hfds := hkept.fds
  rw [hopened, disciplined_append] at hdisciplined
  rw [hopened, handles_append] at hfds
  obtain ⟨_, _, hsince⟩ := hdisciplined
  have hheld : .close fd ∉ since → fd ∈ self.fds := by
    intro hopen
    rw [hfds, handles_cons]
    apply mem_handles_of_kept (by simp [Syscall.act, Act.apply])
    intro call hcall hrelease
    exact hopen ((call.act_eq_release_iff fd).mp hrelease ▸ hcall)
  have hafter : ∀ first rest, tenure Syscall.act fd since = first ++ .close fd :: rest →
      ∀ call ∈ rest, call.act ≠ .use fd ∧ call.act ≠ .release fd :=
    fun first rest hsplit => hsince.after_release hsplit rfl
  refine ⟨fun hopen => hkept.owned.existsUnique (hheld hopen), ?_, ?_, ?_⟩
  · by_cases hclosed : .close fd ∈ tenure Syscall.act fd since
    · obtain ⟨first, rest, hsplit, hfirst⟩ := List.eq_append_cons_of_mem hclosed
      have hrest : .close fd ∉ rest := fun hagain => (hafter first rest hsplit _ hagain).2 rfl
      rw [hsplit, List.count_append, List.count_cons_self, List.count_eq_zero_of_not_mem hfirst,
        List.count_eq_zero_of_not_mem hrest]
    · rw [List.count_eq_zero_of_not_mem hclosed]
      exact Nat.zero_le 1
  · intro first rest hsplit bytes taken hwrite
    exact (hafter first rest hsplit _ hwrite).1 rfl
  · intro hdestroyed hquiet
    by_contra hopen
    obtain ⟨client_id, hheld, _⟩ := hkept.owned.existsUnique (hheld hopen)
    rw [hemptied.emptied hquiet (hemptied.stopped hdestroyed)] at hheld
    cases hheld

/-- A write that fails in the middle of a pass, and its number given out to another client. -/
theorem descriptors_owned_reopened :
    let hashes : StdHash := ⟨fun _ => 0, fun _ => 0, fun _ => 0⟩
    ∃ (self : TopicObject hashes) (labels : List (Event × List Syscall)) (since : List Syscall),
      Run (Fires step) (new [116]) labels self ∧ labels.flatMap Prod.snd = .opened 3 [112] :: since ∧
        .opened 3 [113] ∈ since ∧ (tenure Syscall.act 3 since).count (.close 3) ≤ 1 ∧ .close 3 ∈ since := by
  intro hashes
  have hcomputed : (exec step (new [116] : TopicObject hashes)
      [.add_subscriber [97] [] [112] 0 (some 3), .add_subscriber [98] [] [113] 0 (some 4),
        .append_message [107] [1], .begin_pass, .turn false, .turn true, .turn true, .turn true, .end_pass,
        .add_subscriber [98] [] [113] 0 (some 3), .shutdown fun _ => false, .destroy fun _ => true]).any
      (fun outcome => outcome.1.destroyed &&
        decide (outcome.2.Pairwise fun earlier later => earlier.1.is_shutdown = true → later.1.subscribes = false) &&
        decide ((outcome.2.flatMap Prod.snd).head? = some (.opened 3 [112])) &&
        decide (.opened 3 [113] ∈ (outcome.2.flatMap Prod.snd).tail)) = true := by
    decide +kernel
  obtain ⟨⟨self, labels⟩, hexec, hall⟩ := (Option.any_eq_true _ _).mp hcomputed
  simp only [Bool.and_eq_true, decide_eq_true_eq] at hall
  obtain ⟨⟨⟨hdestroyed, hquiet⟩, hhead⟩, hagain⟩ := hall
  obtain ⟨since, hsince⟩ := List.head?_eq_some_iff.mp hhead
  have hopened : labels.flatMap Prod.snd = [] ++ .opened 3 [112] :: since := hsince
  obtain ⟨_, honce, _, hclosed⟩ := descriptors_owned [116] (Run.of_exec hexec) hopened
  refine ⟨self, labels, since, Run.of_exec hexec, hsince, ?_, honce, hclosed hdestroyed hquiet⟩
  rwa [hsince] at hagain

end TopicObject

end treenity.server

import Treenity.Topic.Evolution
import Treenity.Topic.Progress

open treenity.protocol treenity.data_structures treenity.foundation

namespace treenity.server

/-- Where the worker is in `run`: before it locks `topic_mutex`, blocked in `cv.wait`, in
`cv.wait` and no longer blocked, in a delivery pass with the mutex, or past the loop. -/
inductive Worker where
  | at_loop
  | asleep
  | awake
  | passing
  | ended
  deriving DecidableEq

/-- Where the call of `shutdown` is that set `stop_flag`, if there was one. -/
inductive ShutdownCall where
  | none
  | notifying
  | joining
  | returned
  deriving DecidableEq

/-- The steps that the call has still to make, and the one of a worker that it wakes. -/
def ShutdownCall.left : ShutdownCall → Nat
  | notifying => 3
  | joining => 1
  | none | returned => 0

/-- `cv.notify_all()`. -/
def Worker.notified : Worker → Worker
  | asleep => awake
  | worker => worker

theorem Worker.notified_ne_asleep (self : Worker) : self.notified ≠ .asleep := by
  cases self <;> simp [notified]

theorem Worker.notified_eq_ended_iff (self : Worker) : self.notified = .ended ↔ self = .ended := by
  cases self <;> simp [notified]

theorem Topic.run_pass_stop_flag {H : StdHash} {self next : Topic H} {fuel : Nat} {outcomes : List Bool}
    {calls : List Syscall} (hpass : self.run_pass fuel outcomes = some (next, calls)) :
    next.stop_flag = self.stop_flag :=
  run_pass_induction (P := fun _ topic => topic.stop_flag = self.stop_flag)
    (fun _ _ _ _ _ _ hsame hdeliver => (deliver_next_stop_flag hdeliver).trans hsame) [] rfl hpass

/-- A topic with its worker thread, `topic_mutex` and `cv`. Only a pass keeps the mutex from one
step to the next. -/
structure Monitor (H : StdHash) where
  topic : Topic H
  worker : Worker
  shutdown_call : ShutdownCall

inductive Monitor.Event where
  | append_message (key value : Bytes)
  | add_subscriber (client_id pref fifo_path : Bytes) (start_offset : UInt32) (opened : Option Fd)
  | remove_subscriber (client_id : Bytes)
  | shutdown (taken : Fd → Bool)
  | notify
  | join
  | spurious_wakeup
  | lock
  | pass (outcomes : List Bool)

namespace Monitor

variable {H : StdHash}

def new (topic_name : Bytes) : Monitor H := ⟨Topic.new topic_name, .at_loop, .none⟩

def unlocked (self : Monitor H) : Bool := self.worker != .passing

/-- With the mutex the worker looks at `has_work`: it ends, begins a pass or gives the mutex
back and blocks, which `cv.wait` does in one. -/
def look (self : Monitor H) : Monitor H :=
  if self.topic.stop_flag then { self with worker := .ended }
  else if self.topic.has_pending then { self with worker := .passing }
  else { self with worker := .asleep }

/-- One step of any thread, with its system calls. `shutdown` gives the mutex back before it
notifies; the other members notify with the mutex. -/
def step (self : Monitor H) : Event → Option (Monitor H × List Syscall)
  | .append_message key value =>
    if self.unlocked then
      some ({ self with topic := self.topic.append_message key value, worker := self.worker.notified }, [])
    else none
  | .add_subscriber client_id pref fifo_path start_offset opened =>
    if self.unlocked then
      let (added, topic, calls) := self.topic.add_subscriber client_id pref fifo_path start_offset opened
      some ({ self with topic, worker := if added then self.worker.notified else self.worker }, calls)
    else none
  | .remove_subscriber client_id =>
    if self.unlocked then
      let (_, topic, calls) := self.topic.remove_subscriber client_id
      some ({ self with topic }, calls)
    else none
  | .shutdown taken =>
    if self.unlocked then
      let (topic, calls) := self.topic.shutdown taken
      some ({ self with topic, shutdown_call := if self.topic.stop_flag then self.shutdown_call else .notifying },
        calls)
    else none
  | .notify =>
    if self.shutdown_call = .notifying then
      some ({ self with worker := self.worker.notified, shutdown_call := .joining }, [])
    else none
  | .join =>
    if self.shutdown_call = .joining ∧ self.worker = .ended then
      some ({ self with shutdown_call := .returned }, [])
    else none
  | .spurious_wakeup => if self.worker = .asleep then some ({ self with worker := .awake }, []) else none
  | .lock => if self.worker = .at_loop ∨ self.worker = .awake then some (self.look, []) else none
  | .pass outcomes =>
    if self.worker = .passing then
      (self.topic.run_pass self.topic.messages.length outcomes).map fun (topic, calls) =>
        ({ self with topic, worker := .at_loop }, calls)
    else none

/-- A step that a thread makes which is inside a function of the topic. -/
def Event.inside : Event → Bool
  | notify | join | lock | pass _ => true
  | _ => false

/-- No thread is on its way: the worker has ended as it was told to, or it sleeps and there is
nothing to do, and the call of `shutdown` has returned. -/
structure AtRest (monitor : Monitor H) : Prop where
  worker : monitor.worker = .ended ∧ monitor.topic.stop_flag = true ∨
    monitor.worker = .asleep ∧ monitor.topic.has_work = false
  shutdown_call : monitor.shutdown_call = .none ∨ monitor.shutdown_call = .returned

/-- What a step does. -/
inductive Moves (self : Monitor H) : Event → Monitor H → Prop
  | adds {event : Event} {topic : Topic H} (hmember : event.inside = false)
      (hevolves : Topic.Evolves self.topic topic) (hflag : topic.stop_flag = self.topic.stop_flag) :
      Moves self event { self with topic, worker := self.worker.notified }
  | removes {event : Event} {topic : Topic H} (hmember : event.inside = false)
      (hevolves : Topic.Evolves self.topic topic) (hflag : topic.stop_flag = self.topic.stop_flag)
      (hidle : self.topic.has_pending = false → topic.has_pending = false) : Moves self event { self with topic }
  | stops (taken : Fd → Bool) (hrunning : self.topic.stop_flag = false) :
      Moves self (.shutdown taken) { self with topic := (self.topic.shutdown taken).1, shutdown_call := .notifying }
  | notify (hcall : self.shutdown_call = .notifying) :
      Moves self .notify { self with worker := self.worker.notified, shutdown_call := .joining }
  | join (hcall : self.shutdown_call = .joining) (hended : self.worker = .ended) :
      Moves self .join { self with shutdown_call := .returned }
  | wakes (hasleep : self.worker = .asleep) : Moves self .spurious_wakeup { self with worker := .awake }
  | looks (hworker : self.worker = .at_loop ∨ self.worker = .awake) : Moves self .lock self.look
  | passes {outcomes : List Bool} {topic : Topic H} {calls : List Syscall} (hworker : self.worker = .passing)
      (hpass : self.topic.run_pass self.topic.messages.length outcomes = some (topic, calls)) :
      Moves self (.pass outcomes) { self with topic, worker := .at_loop }

theorem step_moves {self next : Monitor H} {event : Event} {calls : List Syscall}
    (hstep : self.step event = some (next, calls)) : self.Moves event next := by
  cases event with
  | append_message key value =>
    simp only [step, Option.ite_none_right_eq_some] at hstep
    obtain ⟨_, heq⟩ := hstep
    cases heq
    exact .adds rfl (.append_message self.topic key value) rfl
  | add_subscriber client_id pref fifo_path start_offset opened =>
    simp only [step, Option.ite_none_right_eq_some] at hstep
    obtain ⟨_, heq⟩ := hstep
    cases heq
    have hflag := self.topic.add_subscriber_stop_flag client_id pref fifo_path start_offset opened
    have hevolves := Topic.Evolves.add_subscriber self.topic client_id pref fifo_path start_offset opened
    cases opened with
    | none =>
      -- The old entry is gone, and nobody is notified.
      refine .removes rfl hevolves hflag fun hidle => ?_
      have hremoved := Topic.remove_subscriber_pending hidle client_id
      rwa [Topic.remove_subscriber_eq] at hremoved
    | some fd => exact .adds rfl hevolves hflag
  | remove_subscriber client_id =>
    simp only [step, Option.ite_none_right_eq_some] at hstep
    obtain ⟨_, heq⟩ := hstep
    cases heq
    have hflag : (self.topic.remove_subscriber client_id).2.1.stop_flag = self.topic.stop_flag := by
      rw [Topic.remove_subscriber_eq, Topic.drop_subscriber_stop_flag]
    exact .removes rfl (.remove_subscriber self.topic client_id) hflag fun hidle =>
      Topic.remove_subscriber_pending hidle client_id
  | shutdown taken =>
    simp only [step, Option.ite_none_right_eq_some] at hstep
    obtain ⟨_, heq⟩ := hstep
    cases heq
    cases hflag : self.topic.stop_flag with
    | true =>
      have hevolves := Topic.Evolves.shutdown self.topic taken
      rw [Topic.shutdown_stopped hflag] at hevolves ⊢
      exact .removes rfl hevolves rfl id
    | false => exact .stops taken hflag
  | notify =>
    simp only [step, Option.ite_none_right_eq_some] at hstep
    obtain ⟨hcall, heq⟩ := hstep
    cases heq
    exact .notify hcall
  | join =>
    simp only [step, Option.ite_none_right_eq_some] at hstep
    obtain ⟨⟨hcall, hended⟩, heq⟩ := hstep
    cases heq
    exact .join hcall hended
  | spurious_wakeup =>
    simp only [step, Option.ite_none_right_eq_some] at hstep
    obtain ⟨hasleep, heq⟩ := hstep
    cases heq
    exact .wakes hasleep
  | lock =>
    simp only [step, Option.ite_none_right_eq_some] at hstep
    obtain ⟨hworker, heq⟩ := hstep
    cases heq
    exact .looks hworker
  | pass outcomes =>
    simp only [step, Option.ite_none_right_eq_some] at hstep
    obtain ⟨hworker, hstep⟩ := hstep
    obtain ⟨⟨topic, made⟩, hpass, heq⟩ := Option.map_eq_some_iff.mp hstep
    cases heq
    exact .passes hworker hpass

/-- The worker sleeps only when there is nothing to do, or when it is about to be told to end;
and there is a call of `shutdown` exactly when the flag is set. -/
structure Vigilant (monitor : Monitor H) : Prop where
  asleep : monitor.worker = .asleep →
    monitor.topic.has_pending = false ∧ (monitor.topic.stop_flag = true → monitor.shutdown_call = .notifying)
  ended : monitor.worker = .ended → monitor.topic.stop_flag = true
  called : monitor.shutdown_call = .none ↔ monitor.topic.stop_flag = false

/-- A worker on its way. -/
theorem Vigilant.of_busy {self : Monitor H} (hsleeps : self.worker ≠ .asleep) (hends : self.worker ≠ .ended)
    (hcalled : self.shutdown_call = .none ↔ self.topic.stop_flag = false) : self.Vigilant :=
  ⟨fun hasleep => absurd hasleep hsleeps, fun hended => absurd hended hends, hcalled⟩

theorem new_vigilant (topic_name : Bytes) : (new topic_name : Monitor H).Vigilant :=
  .of_busy (by simp [new]) (by simp [new]) (by simp [new, Topic.new])

theorem shutdown_pending {topic : Topic H} (hrunning : topic.stop_flag = false) (taken : Fd → Bool) :
    (topic.shutdown taken).1.has_pending = false := by
  apply List.any_eq_false.mpr
  rintro ⟨id, sub⟩ hentry
  have hfind := HashMap.find_of_mem_entries hentry
  rw [Topic.shutdown_find, hrunning] at hfind
  cases hfind

theorem Vigilant.step {self next : Monitor H} {event : Event} (hvigilant : self.Vigilant)
    (hmoves : self.Moves event next) : next.Vigilant := by
  obtain ⟨hasleep, hended, hcalled⟩ := hvigilant
  cases hmoves with
  | adds _ _ hflag =>
    refine ⟨fun hsleeps => absurd hsleeps self.worker.notified_ne_asleep, fun hends => ?_, by rw [hflag]; exact hcalled⟩
    rw [hflag]
    exact hended ((Worker.notified_eq_ended_iff _).mp hends)
  | removes _ _ hflag hidle =>
    refine ⟨fun hsleeps => ⟨hidle (hasleep hsleeps).1, ?_⟩, ?_, ?_⟩
    all_goals rw [hflag]
    · exact (hasleep hsleeps).2
    · exact hended
    · exact hcalled
  | stops taken hrunning =>
    exact ⟨fun _ => ⟨shutdown_pending hrunning taken, fun _ => rfl⟩, fun _ => self.topic.shutdown_stop_flag taken,
      by simp⟩
  | notify hcall =>
    have hflag : self.topic.stop_flag = true := by
      by_contra hrunning
      have hnone := hcalled.mpr (by simpa using hrunning)
      rw [hcall] at hnone
      cases hnone
    exact ⟨fun hsleeps => absurd hsleeps self.worker.notified_ne_asleep, fun _ => hflag, by simp [hflag]⟩
  | join _ hends =>
    have hflag := hended hends
    exact ⟨fun hsleeps => absurd (hends.symm.trans hsleeps) (by simp), fun _ => hflag, by simp [hflag]⟩
  | wakes => exact .of_busy (by simp) (by simp) hcalled
  | looks =>
    unfold look
    split
    · rename_i hflag
      exact ⟨fun hsleeps => absurd hsleeps (by simp), fun _ => hflag, hcalled⟩
    · rename_i hrunning
      split
      · exact .of_busy (by simp) (by simp) hcalled
      · rename_i hidle
        exact ⟨fun _ => ⟨by simpa using hidle, fun hflag => absurd hflag hrunning⟩,
          fun hends => absurd hends (by simp), hcalled⟩
  | passes _ hpass =>
    have hflag := Topic.run_pass_stop_flag hpass
    exact .of_busy (by simp) (by simp) (by rw [hflag]; exact hcalled)

theorem vigilant_of_run {topic_name : Bytes} {labels : List (Event × List Syscall)} {self : Monitor H}
    (hrun : Run (Fires step) (new topic_name) labels self) : self.Vigilant :=
  hrun.invariant (new_vigilant topic_name) fun _ _ _ hvigilant hfires => hvigilant.step (step_moves hfires)

/-- How many steps the threads inside have still to make, at most. -/
def left (self : Monitor H) : Nat :=
  self.shutdown_call.left +
  match self.worker with
  | .at_loop | .awake => if self.topic.has_pending then 3 else 1
  | .passing => 2
  | .asleep | .ended => 0

theorem left_le (self : Monitor H) : self.left ≤ 6 := by
  have hcall : self.shutdown_call.left ≤ 3 := by cases self.shutdown_call <;> decide
  unfold left
  split
  · split <;> omega
  · split <;> omega
  all_goals omega

/-- A pass that began leaves nothing pending. -/
theorem pass_idle {self next : Topic H} (hlog : self.messages.length < 2 ^ 32) {outcomes : List Bool}
    {calls : List Syscall} (hpass : self.run_pass self.messages.length outcomes = some (next, calls)) :
    next.messages = self.messages ∧ next.has_pending = false := by
  obtain ⟨last, made, hends, hmessages, _, hidle⟩ := self.run_pass_ends hlog outcomes
  rw [hpass] at hends
  cases hends
  exact ⟨hmessages, hidle⟩

/-- Each step of a thread inside brings all of them closer to rest. -/
theorem Vigilant.nearer {self next : Monitor H} {event : Event} (hvigilant : self.Vigilant)
    (hlog : self.topic.messages.length < 2 ^ 32) (hinside : event.inside = true) (hmoves : self.Moves event next) :
    next.topic.messages = self.topic.messages ∧ next.left < self.left := by
  cases hmoves with
  | adds hmember | removes hmember => simp [hmember] at hinside
  | stops | wakes => simp [Event.inside] at hinside
  | notify hcall =>
    refine ⟨rfl, ?_⟩
    cases hworker : self.worker with
    | asleep => simp [left, ShutdownCall.left, hcall, hworker, Worker.notified, (hvigilant.asleep hworker).1]
    | at_loop | awake | passing | ended => simp [left, ShutdownCall.left, hcall, hworker, Worker.notified]
  | join hcall hended => exact ⟨rfl, by simp [left, ShutdownCall.left, hcall, hended]⟩
  | looks hworker =>
    have hbusy : self.left = self.shutdown_call.left + if self.topic.has_pending then 3 else 1 := by
      rcases hworker with hworker | hworker <;> simp [left, hworker]
    rw [hbusy]
    unfold look
    split
    · refine ⟨rfl, ?_⟩
      simp only [left]
      split <;> omega
    · split
      · exact ⟨rfl, by simp only [left]; omega⟩
      · exact ⟨rfl, by simp only [left]; omega⟩
  | passes hworker hpass =>
    obtain ⟨hmessages, hidle⟩ := pass_idle hlog hpass
    exact ⟨hmessages, by simp [left, hworker, hidle]⟩

/-- Threads that can make no step are at rest: nobody waits for ever. -/
theorem Vigilant.at_rest {self : Monitor H} (hvigilant : self.Vigilant)
    (hlog : self.topic.messages.length < 2 ^ 32) (hstuck : ∀ event, event.inside = true → self.step event = none) :
    self.AtRest := by
  have hnotified : self.shutdown_call ≠ .notifying := fun hcall => by
    have hnone := hstuck .notify rfl
    simp [Monitor.step, hcall] at hnone
  have hlocked : self.worker ≠ .at_loop ∧ self.worker ≠ .awake := by
    have hnone := hstuck .lock rfl
    simpa [Monitor.step] using hnone
  have hpassed : self.worker ≠ .passing := fun hworker => by
    obtain ⟨next, calls, hpass, _⟩ := self.topic.run_pass_ends hlog []
    have hnone := hstuck (.pass []) rfl
    simp [Monitor.step, hworker, hpass] at hnone
  cases hworker : self.worker with
  | at_loop => exact absurd hworker hlocked.1
  | awake => exact absurd hworker hlocked.2
  | passing => exact absurd hworker hpassed
  | asleep =>
    obtain ⟨hidle, hcalled⟩ := hvigilant.asleep hworker
    have hrunning : self.topic.stop_flag = false := by
      by_contra hflag
      exact hnotified (hcalled (by simpa using hflag))
    exact ⟨.inr ⟨hworker, by rw [Topic.has_work, hrunning, hidle]; rfl⟩, .inl (hvigilant.called.mpr hrunning)⟩
  | ended =>
    refine ⟨.inl ⟨hworker, hvigilant.ended hworker⟩, ?_⟩
    cases hcall : self.shutdown_call with
    | none => exact .inl rfl
    | returned => exact .inr rfl
    | notifying => exact absurd hcall hnotified
    | joining =>
      have hnone := hstuck .join rfl
      simp [Monitor.step, hcall, hworker] at hnone

/-- No wake-up is lost and no thread waits for ever, however the members, the worker and spurious
wake-ups interleave. The worker never sleeps on work that it was not told of, but for the moment before
`shutdown` notifies it. And from any state reached with a log whose positions fit in 32 bits the threads
inside make 6 steps at most, after which everything is delivered or `shutdown` has joined the worker. -/
theorem worker_wakes {topic_name : Bytes} {labels : List (Event × List Syscall)} {self : Monitor H}
    (hrun : Run (Fires step) (new topic_name) labels self) :
    (self.worker = .asleep → self.topic.has_work = true → self.shutdown_call = .notifying) ∧
    (self.topic.messages.length < 2 ^ 32 → ∀ more next,
      Run (Fires (guarded (fun _ event => event.inside = true) step)) self more next →
        more.length ≤ 6 ∧ ((∀ event, event.inside = true → next.step event = none) → next.AtRest)) := by
  have hvigilant := vigilant_of_run hrun
  constructor
  · intro hsleeps hwork
    obtain ⟨hidle, hcalled⟩ := hvigilant.asleep hsleeps
    rw [Topic.has_work, hidle, Bool.or_false] at hwork
    exact hcalled hwork
  · intro hlog more next hmore
    have hstep : ∀ (s : Monitor H) (label : Event × List Syscall) (t : Monitor H),
        (s.Vigilant ∧ s.topic.messages.length < 2 ^ 32) →
        Fires (guarded (fun _ event => event.inside = true) step) s label t →
        (t.Vigilant ∧ t.topic.messages.length < 2 ^ 32) ∧ t.left < s.left := by
      rintro s label t ⟨hs, hfits⟩ hfires
      obtain ⟨hfired, hinside⟩ := fires_guarded_iff.mp hfires
      obtain ⟨hmessages, hnearer⟩ := hs.nearer hfits hinside (step_moves hfired)
      exact ⟨⟨hs.step (step_moves hfired), hmessages ▸ hfits⟩, hnearer⟩
    refine ⟨(hmore.length_le left ⟨hvigilant, hlog⟩ hstep).trans self.left_le, fun hstuck => ?_⟩
    obtain ⟨hlast, hfits⟩ := hmore.invariant ⟨hvigilant, hlog⟩ fun s label t hs hfires => (hstep s label t hs hfires).1
    exact hlast.at_rest hfits hstuck

/-- The threads of a topic with one subscriber, just after `shutdown` has set the flag. -/
theorem worker_wakes_shutdown :
    (after step (new [116] : Monitor ⟨List.length, UInt8.toNat, UInt32.toNat⟩)
      [.lock, .add_subscriber [99] [] [47] 0 (some 3), .lock, .shutdown fun _ => true]).1.shutdown_call = .notifying :=
  (worker_wakes (Run.of_after (by decide +kernel))).1 (by decide +kernel) (by decide +kernel)

/-- What holds of topics that are worked on step by step holds with threads. -/
theorem evolves_of_run {topic_name : Bytes} {labels : List (Event × List Syscall)} {self : Monitor H}
    (hrun : Run (Fires step) (new topic_name) labels self) :
    Relation.ReflTransGen Topic.Evolves (Topic.new topic_name) self.topic := by
  refine hrun.invariant (P := fun s => Relation.ReflTransGen Topic.Evolves (Topic.new topic_name) s.topic) .refl ?_
  rintro s ⟨event, calls⟩ t hreach hfires
  have hmoves : s.Moves event t := step_moves hfires
  cases hmoves with
  | adds _ hevolves | removes _ hevolves => exact hreach.tail hevolves
  | stops taken => exact hreach.tail (.shutdown s.topic taken)
  | notify | join | wakes => exact hreach
  | looks =>
    unfold look
    split
    · exact hreach
    · split <;> exact hreach
  | passes _ hpass => exact hreach.trans (Topic.run_pass_evolves hpass)

end Monitor

end treenity.server

import Treenity.Broker.Writes

open treenity.protocol treenity.data_structures treenity.ipc treenity.client treenity.server treenity.foundation

namespace treenity.broker

/-- The system together with the main loop of the server and its end. `reading` is the
main thread in `read`, `buffered` is how many of the frames in the queue are in
`recv_buf`, and `stopping` are the topics that the loop of `stop`, or later the
destructor of the table, has yet to shut down; while there are any the main thread
cannot have `server_mutex`. `written`, `failed` and `shut` tell what each process
got: the writes in order, if a write to it failed, and if it got a shutdown frame.
No step looks at these three. -/
structure Service (H : StdHash) where
  system : Broker H
  running : Bool
  reading : Bool
  buffered : Nat
  stopping : Option (List Bytes)
  destroyed : Bool
  written : Nat → List Bytes
  failed : Nat → Bool
  shut : Nat → Bool

/-- A topic shuts down. A write to a process that is gone fails. -/
def Broker.shutdown_topic {H : StdHash} (self : Broker H) (topic_name : Bytes) (topic : Topic H) (taken : Fd → Bool) :
    Broker H × List Effect :=
  let (last, calls) := topic.shutdown (fun fd => taken fd && self.alive fd)
  ({ self with
      server := self.server.set_topic topic_name last
      procs := (calls.map Effect.syscall).foldl perform self.procs }, calls.map Effect.syscall)

/-- The write to the process `q` failed. -/
def fails (q : Nat) : Effect → Bool
  | .syscall (.write p _ false) => p == q
  | _ => false

namespace Service

variable {H : StdHash}

def new : Service H := ⟨Broker.new, true, false, 0, none, false, fun _ => [], fun _ => false, fun _ => false⟩

/-- What can happen: a step of the system, the main loop starts to read and gets whole
frames, `stop` begins and gets `server_mutex`, a topic shuts down, and the object
is destroyed. -/
inductive Event where
  | turn (event : broker.Event)
  | loop
  | read (frames : Nat)
  | stop
  | lock
  | shutdown (taken : Fd → Bool)
  | destroy

/-- Nobody else has `server_mutex`. -/
def unlocked (self : Service H) : Bool := (self.stopping.getD []).isEmpty

/-- The main loop has nothing to do but to look at `running` again. -/
def at_loop (self : Service H) : Bool := !self.reading && self.buffered == 0 && self.system.pending.isNone

/-- The main thread takes the next frame of `recv_buf`, and the worker of a topic ends
when that is shut down. -/
def allows (self : Service H) : broker.Event → Bool
  | .handle => self.unlocked && 0 < self.buffered
  | .deliver topic_name _ _ => !self.system.server.stopped topic_name
  | _ => true

/-- The effects of a step are noted down. -/
def record (self : Service H) (next : Broker H) (effects : List Effect) : Service H :=
  { self with
    system := next
    written := fun q => self.written q ++ effects.filterMap (self.system.reaching q)
    failed := fun q => self.failed q || effects.any (fails q) }

def step (self : Service H) : Event → Option (Service H × List Effect)
  | .turn event =>
    if self.allows event then
      (self.system.step event).map fun (next, effects) =>
        ({ self.record next effects with buffered := if event = .handle then self.buffered - 1 else self.buffered },
          effects)
    else none
  | .loop => if self.at_loop && self.running then some ({ self with reading := true }, []) else none
  | .read frames =>
    if self.reading && frames ≤ self.system.queue.length && (frames == 0 || self.stopping != some []) then
      some ({ self with reading := false, buffered := frames }, [])
    else none
  | .stop => if self.running then some ({ self with running := false }, []) else none
  | .lock =>
    if !self.running && self.stopping.isNone && self.system.pending.isNone then
      some ({ self with stopping := some self.system.server.topics.keys }, [])
    else none
  | .shutdown taken =>
    match self.stopping with
    | some (topic_name :: rest) =>
      match self.system.server.topics.find topic_name with
      | some topic =>
        let (next, effects) := self.system.shutdown_topic topic_name topic taken
        some ({ self.record next effects with
          stopping := some rest
          shut := fun q => self.shut q || !(effects.filterMap (self.system.reaching q)).isEmpty }, effects)
      | none => some ({ self with stopping := some rest }, [])
    | _ => none
  | .destroy =>
    if self.at_loop && !self.running && self.stopping == some [] && !self.destroyed then
      some ({ self with stopping := some self.system.server.topics.keys, destroyed := true }, [])
    else none

/-- What a step does to the system and to what the processes have got. -/
inductive Moves (self : Service H) : Event → Service H → Prop
  | turn {event : broker.Event} {next : Broker H} {effects : List Effect} (hallows : self.allows event = true)
      (hstep : self.system.step event = some (next, effects)) :
      Moves self (.turn event)
        { self.record next effects with buffered := if event = .handle then self.buffered - 1 else self.buffered }
  | shutdown {topic_name : Bytes} {rest : List Bytes} {topic : Topic H} (taken : Fd → Bool)
      (hstopping : self.stopping = some (topic_name :: rest))
      (hfound : self.system.server.topics.find topic_name = some topic) :
      Moves self (.shutdown taken)
        { self.record (self.system.shutdown_topic topic_name topic taken).1
            (self.system.shutdown_topic topic_name topic taken).2 with
          stopping := some rest
          shut := fun q => self.shut q ||
            !((self.system.shutdown_topic topic_name topic taken).2.filterMap (self.system.reaching q)).isEmpty }
  | control {event : Event} {next : Service H} (hevent : ∀ turn, event ≠ .turn turn)
      (hsystem : next.system = self.system) (hwritten : next.written = self.written)
      (hfailed : next.failed = self.failed) (hshut : next.shut = self.shut) : Moves self event next

theorem step_moves {self next : Service H} {event : Event} {effects : List Effect}
    (hstep : self.step event = some (next, effects)) : self.Moves event next := by
  cases event with
  | turn event =>
    simp only [step, Option.ite_none_right_eq_some] at hstep
    obtain ⟨hallows, hstep⟩ := hstep
    obtain ⟨⟨later, made⟩, hturn, heq⟩ := Option.map_eq_some_iff.mp hstep
    cases heq
    exact .turn hallows hturn
  | shutdown taken =>
    simp only [step] at hstep
    split at hstep
    · rename_i topic_name rest hstopping
      split at hstep
      · rename_i topic hfound
        cases hstep
        exact .shutdown taken hstopping hfound
      · cases hstep
        exact .control (by simp) rfl rfl rfl rfl
    · cases hstep
  | loop | read | stop | lock | destroy =>
    simp only [step, Option.ite_none_right_eq_some] at hstep
    obtain ⟨_, heq⟩ := hstep
    cases heq
    exact .control (by simp) rfl rfl rfl rfl

end Service

end treenity.broker

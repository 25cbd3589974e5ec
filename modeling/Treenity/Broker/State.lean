import Mathlib.Logic.Function.Basic
import Treenity.Client.Subscriber
import Treenity.Foundation.Run
import Treenity.Protocol.Frame
import Treenity.Server.Handlers

open treenity.protocol treenity.data_structures treenity.ipc treenity.client treenity.server

namespace treenity.broker

/-- Where a process is in `execute_subscriber_command`. -/
inductive Phase where
  | created
  | waiting
  | listening
  | acking (next_offset : UInt32)
  | disconnected
  | done
  deriving DecidableEq

/-- What has become of the SUBSCRIBE of a process. No step looks at it. -/
inductive Status where
  | unsent
  | queued
  | rejected
  | accepted (start_offset : UInt32)
  deriving DecidableEq

/-- A command that `parse_command` accepts and that runs a subscriber. The kernel
limits the length of an argument to far less than this. -/
def subscribes (command : Command) : Bool :=
  command.type = .SUBSCRIBE && is_valid_name command.topic && is_valid_name command.subscriber &&
    command.pref.length < 2 ^ 31

/-- A subscriber process. `pipe` is what its FIFO holds, `output` what it has printed. -/
structure Process where
  client_pid : UInt32
  command : Command
  runs : subscribes command = true
  phase : Phase
  status : Status
  pipe : Bytes
  output : List Message
  alive : Bool
  deriving DecidableEq

/-- A frame in the server FIFO, with the number of the process that wrote it, or a
request of another client. -/
inductive Sent where
  | subscribe (p : Nat) (request : Request.Subscribe)
      (hrequest : Request.parse_subscribe (Request.subscribe_payload request) = .ok request)
  | ack (p : Nat) (client_id : Bytes) (next_offset : UInt32) (hname : client_id.length ≤ 32)
  | disconnect (p : Nat) (client_id : Bytes) (hname : client_id.length ≤ 32)
  | other (action : UInt8) (payload : Bytes)
      (hother : action.toNat ≠ 6 ∧ action.toNat ≠ 7 ∧ action.toNat ≠ 8) (hsize : payload.length < 2 ^ 32)

namespace Sent

def action : Sent → UInt8
  | subscribe _ _ _ => CommandType.SUBSCRIBE.code
  | ack _ _ _ _ => CommandType.ACK.code
  | disconnect _ _ _ => CommandType.DISCONNECT.code
  | other action _ _ _ => action

def payload : Sent → Bytes
  | subscribe _ request _ => Request.subscribe_payload request
  | ack _ client_id next_offset _ => Request.ack_payload client_id next_offset
  | disconnect _ client_id _ => Request.disconnect_payload client_id
  | other _ payload _ _ => payload

/-- What a client writes for it. -/
def bytes : Sent → Bytes
  | subscribe _ request _ =>
    Request.serialize_subscribe request.pid request.client_id request.topic request.pref request.offset
  | ack _ client_id next_offset _ => Request.serialize_ack client_id next_offset
  | disconnect _ client_id _ => Request.serialize_disconnect client_id
  | other action payload _ _ => frame action payload

theorem bytes_eq (sent : Sent) : sent.bytes = frame sent.action sent.payload := by
  cases sent with
  | subscribe _ request => exact Request.serialize_subscribe_eq _ _ _ _ _
  | ack _ client_id next_offset => exact Request.serialize_ack_eq client_id next_offset
  | disconnect _ client_id => exact Request.serialize_disconnect_eq client_id
  | other => rfl

end Sent

namespace Process

def create (client_pid : UInt32) (command : Command) (runs : subscribes command = true) : Process :=
  ⟨client_pid, command, runs, .created, .unsent, [], [], true⟩

def fifo_path (self : Process) : Bytes := client_fifo_path self.client_pid

def request (self : Process) : Request.Subscribe := subscribe_request self.client_pid self.command

theorem name_length (self : Process) : self.command.subscriber.length ≤ 32 := by
  have hruns := self.runs
  simp only [subscribes, Bool.and_eq_true] at hruns
  exact is_valid_name_length hruns.1.2

/-- The server reads the SUBSCRIBE of a process as it was meant. -/
theorem request_parses (self : Process) :
    Request.parse_subscribe (Request.subscribe_payload self.request) = .ok self.request := by
  have hruns := self.runs
  simp only [subscribes, Bool.and_eq_true, decide_eq_true_eq] at hruns
  obtain ⟨⟨⟨_, htopic⟩, _⟩, hpref⟩ := hruns
  have hname := self.name_length
  have htopic := is_valid_name_length htopic
  have hsize : (Request.subscribe_payload self.request).length =
      20 + self.command.subscriber.length + self.command.topic.length + self.command.pref.length :=
    Request.subscribe_payload_length _
  have hbuf : (Request.subscribe_payload self.request).length ≤ 2 ^ 63 := by omega
  exact (Request.parse_subscribe_iff hbuf self.request).mpr ⟨rfl, show self.command.subscriber.length < _ by omega,
    show self.command.topic.length < _ by omega, show self.command.pref.length < _ by omega⟩

def receive (bytes : Bytes) (self : Process) : Process := { self with pipe := self.pipe ++ bytes }

/-- What a process can do next: it writes its SUBSCRIBE, reads the response, reads a
message and prints it, acknowledges it, or finds that a shutdown was requested. -/
inductive Action where
  | subscribe | handshake | output | ack | disconnect
  deriving DecidableEq

/-- The process after an action of the process number `p`, and the frames it writes. -/
def act (self : Process) (p : Nat) : Action → Option (Process × List Sent)
  | .subscribe =>
    if self.phase = .created then
      some ({ self with phase := .waiting, status := .queued }, [.subscribe p self.request self.request_parses])
    else none
  | .handshake =>
    if self.phase = .waiting then
      (handshake self.pipe).map fun (success, left) =>
        ({ self with phase := if success then .listening else .done, pipe := left }, [])
    else none
  | .output =>
    if self.phase = .listening then
      (read_delivery self.pipe).map fun (read, left) =>
        match read with
        | some msg =>
          ({ self with phase := .acking (msg.offset + 1), pipe := left, output := self.output ++ [msg] }, [])
        | none => ({ self with phase := .done, pipe := left }, [])
    else none
  | .ack =>
    match self.phase with
    | .acking next_offset =>
      some ({ self with phase := .listening }, [.ack p self.command.subscriber next_offset self.name_length])
    | _ => none
  | .disconnect =>
    if self.phase = .listening then
      some ({ self with phase := .disconnected }, [.disconnect p self.command.subscriber self.name_length])
    else none

end Process

/-- The whole system: the server with the SUBSCRIBE it has answered but not yet
registered, the frames in its FIFO, and all subscriber processes that ever
started, by number. A descriptor stands for the process at its other end. `owner`
is the process whose SUBSCRIBE was the last to be accepted for a name; no step
looks at it. -/
structure Broker (H : StdHash) where
  server : Server H
  pending : Option (Nat × Server.Subscription)
  queue : List Sent
  procs : List Process
  owner : Bytes → Option Nat

inductive Event where
  | start (client_pid : UInt32) (command : Command)
  | request (action : UInt8) (payload : Bytes)
  | act (p : Nat) (action : Process.Action)
  | exit (p : Nat)
  | handle
  | register
  | deliver (topic_name client_id : Bytes) (taken : Bool)
  deriving DecidableEq

/-- The live process that has this FIFO open. -/
def holder (procs : List Process) (path : Bytes) : Option Fd :=
  procs.findIdx? (fun proc => proc.alive && proc.fifo_path == path)

/-- A write into a FIFO. It is lost when nobody has the FIFO open. -/
def post (procs : List Process) (path bytes : Bytes) : List Process :=
  match holder procs path with
  | some p => procs.modify p (Process.receive bytes)
  | none => procs

/-- What an effect of the server does to the processes. -/
def perform (procs : List Process) : Effect → List Process
  | .response path bytes => post procs path bytes
  | .syscall (.write p bytes true) => procs.modify p (Process.receive bytes)
  | _ => procs

namespace Broker

variable {H : StdHash}

def new : Broker H := ⟨Server.new, none, [], [], fun _ => none⟩

/-- `is_reader_active` and the `open` for delivery. -/
def kernel (self : Broker H) : Kernel := ⟨fun path => (holder self.procs path).isSome, holder self.procs⟩

def alive (self : Broker H) (p : Nat) : Bool := self.procs[p]?.any Process.alive

/-- The server takes the next frame from its FIFO. For a SUBSCRIBE it goes up to the
response here; `register` is the rest. The answers to the requests of other
clients go to FIFOs that no subscriber process has. -/
def handle (self : Broker H) : Option (Broker H × List Effect) :=
  match self.pending, self.queue with
  | none, .subscribe p request _ :: rest =>
    let (sub, server, effects) := self.server.accept_subscriber (Request.subscribe_payload request)
      self.kernel.reader_active
    let procs := effects.foldl perform self.procs
    match sub with
    | none =>
      some ({ self with
        server, queue := rest, procs := procs.modify p (fun proc => { proc with status := .rejected }) }, effects)
    | some sub =>
      some ({
        server, pending := some (p, sub), queue := rest
        procs := procs.modify p (fun proc => { proc with status := .accepted sub.start_offset })
        owner := Function.update self.owner sub.client_id (some p) }, effects)
  | none, sent :: rest =>
    let (server, effects) := self.server.handle_request sent.action sent.payload self.kernel
    some ({ self with server, queue := rest }, effects)
  | _, _ => none

/-- The rest of `handle_subscriber_connect`. -/
def register (self : Broker H) : Option (Broker H × List Effect) :=
  match self.pending with
  | none => none
  | some (_, sub) =>
    let (server, effects) := self.server.register_subscriber sub (self.kernel.open_fifo sub.consumer_ipc)
    some ({ self with server, pending := none }, effects)

/-- One turn of the worker of a topic for one entry; its passes are sequences of
these. A write fails when the process is gone and may fail when it is not. -/
def deliver (self : Broker H) (topic_name client_id : Bytes) (taken : Bool) :
    Option (Broker H × List Effect) :=
  match self.server.topics.find topic_name with
  | none => none
  | some topic =>
    let reads := ((topic.subscribers.find client_id).bind ActiveSubscriber.fifo_fd).any self.alive
    (topic.deliver_next client_id (taken && reads)).map fun (next, calls) =>
      ({ self with
        server := self.server.set_topic topic_name next
        procs := (calls.map Effect.syscall).foldl perform self.procs }, calls.map Effect.syscall)

/-- Nobody who is alive has the pid of a process that starts. -/
def step (self : Broker H) : Event → Option (Broker H × List Effect)
  | .start client_pid command =>
    if runs : subscribes command = true then
      if (holder self.procs (client_fifo_path client_pid)).isNone then
        some ({ self with procs := self.procs ++ [Process.create client_pid command runs] }, [])
      else none
    else none
  | .request action payload =>
    if hother : action.toNat ≠ 6 ∧ action.toNat ≠ 7 ∧ action.toNat ≠ 8 then
      if hsize : payload.length < 2 ^ 32 then
        some ({ self with queue := self.queue ++ [.other action payload hother hsize] }, [])
      else none
    else none
  | .act p action =>
    match self.procs[p]? with
    | none => none
    | some proc =>
      if proc.alive then
        (proc.act p action).map fun (next, sent) =>
          ({ self with queue := self.queue ++ sent, procs := self.procs.set p next }, [])
      else none
  | .exit p => some ({ self with procs := self.procs.modify p (fun proc => { proc with alive := false }) }, [])
  | .handle => self.handle
  | .register => self.register
  | .deliver topic_name client_id taken => self.deliver topic_name client_id taken

end Broker

end treenity.broker

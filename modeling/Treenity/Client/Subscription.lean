import Treenity.Client.Publication

open treenity.foundation treenity.protocol treenity.ipc treenity.server

namespace treenity.client.Process

variable {passes : Bytes → Bytes → Nat} {d : Data}

/-- Nothing was handed over, and the output only grew. -/
def Prints (d e : Data) : Prop := e.sent = d.sent ∧ d.cout.output <+: e.cout.output

theorem Prints.refl (d : Data) : Prints d d := ⟨rfl, List.prefix_refl _⟩

theorem Prints.trans {e f : Data} (hfirst : Prints d e) (hsecond : Prints e f) : Prints d f :=
  ⟨hsecond.1.trans hfirst.1, hfirst.2.trans hsecond.2⟩

/-- What may be the case within a turn of the loop: nothing more is handed over, or a part of a
DISCONNECT is, or a message was read and printed and a part of its ACK is handed over. -/
inductive Serving (passes : Bytes → Bytes → Nat) (command : Command) (d e : Data) : Prop
  | prints (hprints : Prints d e)
  | disconnects {part : Bytes} (hpart : part <+: Request.serialize_disconnect command.subscriber)
      (hsent : e.sent = d.sent ++ [part]) (hcout : e.cout = d.cout)
  | acks {msg : Message} {rest part : Bytes} (hread : read_delivery d.pipe = some (some msg, rest))
      (hprinted : output_message passes command.raw msg d.cout = (true, e.cout))
      (hpart : part <+: Request.serialize_ack command.subscriber (msg.offset + 1)) (hsent : e.sent = d.sent ++ [part])

/-- What is known after a turn that is not the last. -/
inductive Served (passes : Bytes → Bytes → Nat) (command : Command) (d e : Data) : Prop
  | idle (hsame : e = d)
  | acked {msg : Message} (hread : read_delivery d.pipe = some (some msg, e.pipe))
      (hprinted : output_message passes command.raw msg d.cout = (true, e.cout))
      (hsent : e.sent = d.sent ++ [Request.serialize_ack command.subscriber (msg.offset + 1)])

/-- What a turn shows. -/
def Serves (passes : Bytes → Bytes → Nat) (command : Command) (d : Data) (outcome : Unit ⊕ Nat) (e : Data) : Prop :=
  outcome = .inl () → Served passes command d e

theorem Serving.report {command : Command} {e : Data} (hserving : Serving passes command d e) (text : Bytes) :
    Serving passes command d (e.report text) := by
  cases hserving with
  | prints hprints => exact .prints hprints
  | disconnects hpart hsent hcout => exact .disconnects hpart hsent hcout
  | acks hread hprinted hpart hsent => exact .acks hread hprinted hpart hsent

section Loop

variable (passes) (command : Command) (start : Bytes) (cout : Ostream UInt8) (base : List Bytes)

/-- A loop that started with `start` in its FIFO, `cout` as its output and after the writes `base`: it is
between two turns, as far as the pure loop after some turns. -/
def Listening (e : Data) : Prop :=
  ∃ done, e.sent = base ++ done.map Prod.snd ∧ ∀ more,
    output_loop passes command.raw command.subscriber (done.length + more) start cout =
      (done ++ (output_loop passes command.raw command.subscriber more e.pipe e.cout).1,
        (output_loop passes command.raw command.subscriber more e.pipe e.cout).2)

/-- Such a loop has handed over ACKs of the pure loop after some turns, in each of which a message is
acknowledged, a part of the last ACK or of a DISCONNECT; and it has output what the pure loop has. -/
def Acknowledging (e : Data) : Prop :=
  ∃ turns, (output_loop passes command.raw command.subscriber turns start cout).1.length = turns ∧
    Cut (base ++ (output_loop passes command.raw command.subscriber turns start cout).1.map Prod.snd ++
      [Request.serialize_disconnect command.subscriber]) e.sent ∧
    (output_loop passes command.raw command.subscriber turns start cout).2.output <+: e.cout.output

variable {passes command start cout base}

theorem output_loop_read {pipe rest : Bytes} {output output' : Ostream UInt8} {msg : Message}
    (hread : read_delivery pipe = some (some msg, rest))
    (hprinted : output_message passes command.raw msg output = (true, output')) (more : Nat) :
    output_loop passes command.raw command.subscriber (more + 1) pipe output =
      ((msg, Request.serialize_ack command.subscriber (msg.offset + 1)) ::
          (output_loop passes command.raw command.subscriber more rest output').1,
        (output_loop passes command.raw command.subscriber more rest output').2) := by
  rw [output_loop, hread]
  simp [hprinted]

theorem Listening.served {e f : Data} (hlistening : Listening passes command start cout base e)
    (hserved : Served passes command e f) : Listening passes command start cout base f := by
  cases hserved with
  | idle hsame => exact hsame ▸ hlistening
  | acked hread hprinted hsame =>
    rename_i msg
    obtain ⟨done, hsent, hloop⟩ := hlistening
    refine ⟨done ++ [(msg, Request.serialize_ack command.subscriber (msg.offset + 1))], ?_, fun more => ?_⟩
    · rw [hsame, hsent]
      simp
    · have hnext := hloop (more + 1)
      rw [output_loop_read hread hprinted] at hnext
      rw [List.length_append, List.length_singleton, Nat.add_assoc, Nat.add_comm 1 more, hnext, List.append_assoc]
      rfl

end Loop

/-- At most a part of the first write is handed over, and nothing was output. -/
structure Beginning (d : Data) (frame : Bytes) (e : Data) : Prop where
  sent : e.sent = d.sent ∨ ∃ part, part <+: frame ∧ e.sent = d.sent ++ [part]
  cout : e.cout = d.cout

/-- The SUBSCRIBE frame of a process. -/
def subscribe_frame (client_pid : UInt32) (command : Command) : Bytes :=
  Request.serialize_subscribe client_pid command.subscriber command.topic command.pref
    (if command.has_offset then command.offset else OFFSET_UNSET)

variable {status : StatusCode} {rest : Bytes}

/-- A subscriber process at any moment: it is before the end of the handshake, or its loop has started with
what follows the response. -/
def Subscribing (passes : Bytes → Bytes → Nat) (client_pid : UInt32) (command : Command) (d e : Data) : Prop :=
  Beginning d (subscribe_frame client_pid command) e ∨
    ∃ pipe, d.pipe = Response.serialize_response .SUCCESS [] ++ pipe ∧
      Acknowledging passes command pipe d.cout (d.sent ++ [subscribe_frame client_pid command]) e

end treenity.client.Process

import Treenity.Client.Producer
import Treenity.Client.Subscriber
import Treenity.Foundation.Pipe
import Treenity.Protocol.Frame

open treenity.protocol treenity.foundation treenity.ipc

namespace treenity.client

/-- The bytes a single write can put into a FIFO without being interleaved. -/
def PIPE_BUF : Nat := 4096

/-- The code of the response, if `exchange_request` completes; `pipe` is what the
process gets to read. -/
def exchange_request (pipe : Bytes) : Option StatusCode :=
  if pipe.length < 5 then none
  else
    match parse_response_header pipe with
    | none => none
    | some header => if pipe.length < 5 + header.payload_len.toNat then none else some header.status_code

/-- The writes to the server FIFO of `execute_producer_command`. -/
def execute_producer_command (client_pid : UInt32) (command : Command) (pipe input : Bytes) : List Bytes :=
  Request.serialize_connect client_pid command.topic ::
    match exchange_request pipe with
    | some .SUCCESS =>
      if command.raw then (execute_publish_raw command.topic input).1
      else (execute_publish_text command.topic input).1
    | _ => []

/-- A client process: the arguments `parse_command` accepted, and its surroundings. -/
structure Client where
  argv : List Bytes
  command : Command
  parsed : parse_command argv = .ok command
  client_pid : UInt32
  input : Bytes
  pipe : Bytes
  turns : Nat

/-- The writes to the server FIFO of `main`, each made by one `write_exact`. -/
def Client.sends (self : Client) : List Bytes :=
  match self.command.type with
  | .CREATE => [Request.serialize_create self.client_pid self.command.topic]
  | .LIST => [Request.serialize_list self.client_pid]
  | .INFO => [Request.serialize_info self.client_pid self.command.subscriber]
  | .CONNECT => execute_producer_command self.client_pid self.command self.pipe self.input
  | _ => execute_subscriber_command self.client_pid self.command self.pipe self.turns

/-- The length of the SUBSCRIBE frame is within the bound. -/
def Client.SubscribeFits (self : Client) : Prop :=
  self.command.type = .SUBSCRIBE →
    25 + self.command.subscriber.length + self.command.topic.length + self.command.pref.length ≤ PIPE_BUF

theorem serialize_produce_fits {topic frame : Bytes} (htopic : topic.length ≤ 32) (hproduces : Produces topic frame) :
    frame.length ≤ PIPE_BUF := by
  obtain ⟨key, value, rfl, hlimit⟩ := hproduces
  have hlimit : key.length + value.length ≤ 1024 := hlimit
  rw [Request.serialize_produce_eq, frame_length]
  simp only [Request.produce_payload, List.length_append, le32_length, PIPE_BUF]
  omega

theorem listen_fits {subscriber : Bytes} (hsubscriber : subscriber.length ≤ 32) (turns : Nat) (pipe : Bytes) :
    ∀ frame ∈ listen subscriber turns pipe, frame.length ≤ PIPE_BUF := by
  induction turns generalizing pipe with
  | zero =>
    simp [listen, Request.serialize_disconnect_eq, Request.disconnect_payload, PIPE_BUF]
    omega
  | succ turns ih =>
    rw [listen]
    split
    · refine List.forall_mem_cons.mpr ⟨?_, ih _⟩
      simp [Request.serialize_ack_eq, Request.ack_payload, PIPE_BUF]
      omega
    · simp

theorem execute_producer_command_fits {command : Command} (htopic : command.topic.length ≤ 32)
    (client_pid : UInt32) (pipe input : Bytes) :
    ∀ frame ∈ execute_producer_command client_pid command pipe input, frame.length ≤ PIPE_BUF := by
  refine List.forall_mem_cons.mpr ⟨?_, ?_⟩
  · simp [Request.serialize_connect_eq, Request.named_payload, PIPE_BUF]
    omega
  · intro frame hframe
    split at hframe
    · split at hframe
      · exact serialize_produce_fits htopic (execute_publish_raw_produces frame hframe)
      · exact serialize_produce_fits htopic (execute_publish_text_produces frame hframe)
    · cases hframe

/-- The only write a client can make that is longer than the bound is a SUBSCRIBE. -/
theorem Client.sends_fit {self : Client} (hfits : self.SubscribeFits) :
    ∀ frame ∈ self.sends, frame.length ≤ PIPE_BUF := by
  have haccepted := parse_command_accepted self.parsed
  have htopic := haccepted.topic_length
  have hsubscriber := haccepted.subscriber_length
  unfold Client.sends
  split
  · simp [Request.serialize_create_eq, Request.named_payload, PIPE_BUF]
    omega
  · simp [Request.serialize_list_eq, PIPE_BUF]
  · simp [Request.serialize_info_eq, Request.named_payload, PIPE_BUF]
    omega
  · exact execute_producer_command_fits htopic _ _ _
  · rename_i hcreate hlist hinfo hconnect
    have hsubscribe : self.command.type = .SUBSCRIBE := by
      have htype := haccepted.type
      simp only [List.mem_cons, List.not_mem_nil, or_false] at htype
      exact (((htype.resolve_left hcreate).resolve_left hlist).resolve_left hinfo).resolve_left hconnect
    refine List.forall_mem_cons.mpr ⟨?_, ?_⟩
    · have hlength := hfits hsubscribe
      rw [Request.serialize_subscribe_eq, frame_length, Request.subscribe_payload_length]
      dsimp only
      omega
    · intro frame hframe
      split at hframe
      · exact listen_fits hsubscriber _ _ frame hframe
      · cases hframe

/-- However the writes of the clients are interleaved, the server FIFO carries whole
frames when no SUBSCRIBE is too long for the pipe. With a single client that also
holds of longer ones, whenever it is not in the middle of a write. -/
theorem server_fifo_whole {clients : List Client} {labels : List (Nat × Bytes)} {pipe : Pipe UInt8}
    (hrun : Run (Pipe.Step PIPE_BUF) (Pipe.start (clients.map Client.sends)) labels pipe)
    (hfits : (∀ client ∈ clients, client.SubscribeFits) ∨ clients.length ≤ 1 ∧ pipe.Idle) :
    pipe.Whole (clients.map Client.sends) := by
  rcases hfits with hfits | ⟨hlone, hidle⟩
  · refine Pipe.whole_of_bounded ?_ hrun
    intro writes hwrites
    obtain ⟨client, hclient, rfl⟩ := List.mem_map.mp hwrites
    exact client.sends_fit (hfits client hclient)
  · exact Pipe.whole_of_lone (by simpa using hlone) hrun hidle

/-- `client /tmp/treenity create t`. -/
def create_client : Client where
  argv := [ascii "client", ascii "/tmp/treenity", ascii "create", ascii "t"]
  command := { make_empty_command with type := .CREATE, ipc_identifier := ascii "/tmp/treenity", topic := ascii "t" }
  parsed := by decide +kernel
  client_pid := 8
  input := []
  pipe := []
  turns := 0

/-- `client /tmp/treenity subscribe t s --prefix aa...a`. -/
def subscribe_client (prefix_length : Nat)
    (hparsed : parse_command [ascii "client", ascii "/tmp/treenity", ascii "subscribe", ascii "t", ascii "s",
      ascii "--prefix", List.replicate prefix_length 97] = .ok
        { make_empty_command with
          type := .SUBSCRIBE, ipc_identifier := ascii "/tmp/treenity", topic := ascii "t",
          subscriber := ascii "s", pref := List.replicate prefix_length 97 }) : Client where
  argv := _
  command := _
  parsed := hparsed
  client_pid := 7
  input := []
  pipe := []
  turns := 0

/-- Both clients write their frames, which are short enough. -/
theorem server_fifo_whole_two_clients :
    let clients := [subscribe_client 4 (by decide +kernel), create_client]
    ∃ labels pipe, Run (Pipe.Step PIPE_BUF) (Pipe.start (clients.map Client.sends)) labels pipe ∧
      pipe.stream.length = 41 ∧ pipe.Whole (clients.map Client.sends) := by
  intro clients
  have hrun : Run (Pipe.Step PIPE_BUF) (Pipe.start (clients.map Client.sends)) _ _ :=
    .snoc (.snoc (.nil _) (.put (i := 1) rfl (.whole (by decide +kernel))))
      (.put (i := 0) rfl (.whole (by decide +kernel)))
  refine ⟨_, _, hrun, by decide +kernel, server_fifo_whole hrun (.inl ?_)⟩
  refine List.forall_mem_cons.mpr ⟨fun _ => by decide +kernel, List.forall_mem_singleton.mpr ?_⟩
  exact fun htype => by cases htype

/-- The prefix of the first client makes its frame one byte longer than the pipe
takes at once; the frame of the second comes into the middle of it. -/
theorem long_prefix_splits_frame :
    let clients := [subscribe_client 4070 (by decide +kernel), create_client]
    ∃ labels pipe, Run (Pipe.Step PIPE_BUF) (Pipe.start (clients.map Client.sends)) labels pipe ∧ pipe.Idle ∧
      ¬ pipe.Whole (clients.map Client.sends) := by
  intro clients
  let long := Request.serialize_subscribe 7 (ascii "s") (ascii "t") (List.replicate 4070 97) OFFSET_UNSET
  let short := Request.serialize_create 8 (ascii "t")
  have hsends : clients.map Client.sends = [[long], [short]] := rfl
  rw [hsends]
  refine ⟨_, _, Pipe.run_split (k := 100) (by decide +kernel) (by decide +kernel) (by decide +kernel)
    (by decide +kernel), by simp [Pipe.Idle], fun hwhole => ?_⟩
  obtain ⟨writes, hwrites, write, hwrite, hstarts⟩ := hwhole.starts (by decide +kernel)
  have hnone : ∀ writes ∈ [[long], [short]], ∀ write ∈ writes,
      ¬ write <+: long.take 100 ++ short ++ long.drop 100 := by decide +kernel
  exact hnone writes hwrites write hwrite hstarts

end treenity.client

import Treenity.Client.Output
import Treenity.Client.Subscriber
import Treenity.Ipc.Fifo

open treenity.protocol treenity.ipc treenity.server

namespace treenity.client

/-- `ClientError`. -/
inductive ClientError where
  | None | Topic | Ipc | General
  deriving DecidableEq

def priority_for : ClientError → Nat
  | .General => 3
  | .Ipc => 2
  | .Topic => 1
  | .None => 0

def code_for : ClientError → Nat
  | .General => 1
  | .Ipc => 3
  | .Topic => 2
  | .None => 0

def exit_code_for (first second : ClientError) : Nat :=
  if priority_for second > priority_for first then code_for second else code_for first

def exit_code_from_response_code (response_code : UInt8) : Nat :=
  if response_code = 0 then 0
  else if response_code = 1 then 1
  else if response_code = 2 then 2
  else if response_code = 3 then 3
  else 3

inductive IpcExchangeStatus where
  | Complete | ServerUnavailable | CommunicationError | InvalidResponse
  deriving DecidableEq

structure ResponseFrame where
  code : StatusCode
  payload : Bytes
  deriving DecidableEq

structure IpcExchangeResult where
  status : IpcExchangeStatus
  response : ResponseFrame
  deriving DecidableEq

namespace Process

/-- A result without a response. -/
def exchange_failed (status : IpcExchangeStatus) : IpcExchangeResult := ⟨status, ⟨.SUCCESS, []⟩⟩

/-- The scope of `writer` in `exchange_request`, with the members it has at the end of it. -/
def exchange_over (reader writer : Members) (request : Bytes) : Calls (IpcExchangeResult × Members) := do
  if !writer.is_open then return (exchange_failed .ServerUnavailable, writer)
  if !(← writer.write_exact request) then return (exchange_failed .CommunicationError, writer)
  FifoWriter.close writer
  let (ok, header_buf) ← reader.read_exact 5 2000
  if !ok then return (exchange_failed .CommunicationError, .empty)
  match parse_response_header header_buf with
  | none => return (exchange_failed .InvalidResponse, .empty)
  | some header =>
    if header.payload_len > 0 then
      let (ok, payload) ← reader.read_exact header.payload_len.toNat 2000
      if !ok then return (exchange_failed .CommunicationError, .empty)
      return (⟨.Complete, ⟨header.status_code, payload⟩⟩, .empty)
    return (⟨.Complete, ⟨header.status_code, []⟩⟩, .empty)

/-- The scope of `reader`. That of `writer` ends before it, with the destructor. -/
def exchange_with (reader : Members) (server_fifo request : Bytes) : Calls IpcExchangeResult := do
  if !reader.is_open then return exchange_failed .CommunicationError
  let writer ← FifoWriter.open_fifo server_fifo
  let (result, writer) ← exchange_over reader writer request
  FifoWriter.close writer
  return result

def exchange_request (server_fifo : Bytes) (client_pid : UInt32) (request : Bytes) : Calls IpcExchangeResult := do
  let reader ← FifoReader.create (client_fifo_path client_pid) true
  let result ← exchange_with reader server_fifo request
  FifoReader.close reader
  return result

/-- The text and the exit code that all commands have for an exchange without a response. -/
def exchange_error : IpcExchangeStatus → Option (Bytes × Nat)
  | .ServerUnavailable => some (ascii "failed to connect to server FIFO\n", 1)
  | .CommunicationError => some (ascii "IPC communication error\n", 3)
  | .InvalidResponse => some (ascii "invalid response from server\n", 3)
  | .Complete => none

def write_output (payload : Bytes) : Calls Unit := do
  if !payload.isEmpty then
    let _ ← Sys.cout_write payload
  let _ ← Sys.cout_write [10]

/-- What `write_error` prints. -/
def error_text (payload : Bytes) : Bytes :=
  if payload.isEmpty then ascii "server returned an error\n" else payload ++ [10]

def write_error (payload : Bytes) : Calls Unit := Sys.cerr_write (error_text payload)

/-- What the commands that make one request have in common. -/
def execute_request (client_pid : UInt32) (command : Command) (request : Bytes) (exit_code : StatusCode → Nat)
    (success : Bytes → Calls Unit) : Calls Nat := do
  let exchange ← exchange_request command.ipc_identifier client_pid request
  match exchange_error exchange.status with
  | some (text, code) =>
    Sys.cerr_write text
    return code
  | none =>
    if exit_code exchange.response.code ≠ 0 then
      write_error exchange.response.payload
      return exit_code exchange.response.code
    success exchange.response.payload
    return 0

def execute_create_command (client_pid : UInt32) (command : Command) : Calls Nat :=
  execute_request client_pid command (Request.serialize_create client_pid command.topic) (fun code => code.code.toNat)
    (fun _ => do
      let _ ← Sys.cout_write (ascii "topic created")
      let _ ← Sys.cout_write [10])

def execute_list_command (client_pid : UInt32) (command : Command) : Calls Nat :=
  execute_request client_pid command (Request.serialize_list client_pid) (fun code => code.code.toNat) write_output

def execute_info_command (client_pid : UInt32) (command : Command) : Calls Nat :=
  execute_request client_pid command (Request.serialize_info client_pid command.subscriber) (fun code => code.code.toNat)
    write_output

def execute_connect_command (client_pid : UInt32) (command : Command) : Calls Nat :=
  execute_request client_pid command (Request.serialize_connect client_pid command.topic)
    (fun code => exit_code_from_response_code code.code) (fun _ => return ())

/-- A turn of the loop of `execute_publish_text`. -/
def publish_text_turn (topic : Bytes) (writer : Members) : Calls (Unit ⊕ Nat) := do
  match ← Sys.getline with
  | .line line =>
    match split_text line with
    | none =>
      Sys.cerr_write (ascii "text message must contain ':' between key and body\n")
      return .inr 1
    | some (key, value) =>
      if exceeds_limit key value then
        Sys.cerr_write (ascii "message key and body exceed 1024 bytes\n")
        return .inr 1
      if !(← writer.write_exact (Request.serialize_produce topic key value)) then
        Sys.cerr_write (ascii "IPC communication error\n")
        return .inr 3
      return .inl ()
  | .eof => return .inr 0
  | .bad =>
    Sys.cerr_write (ascii "failed to read text input\n")
    return .inr 1

def execute_publish_text (topic : Bytes) (writer : Members) : Calls Nat :=
  .loop (fun _ => publish_text_turn topic writer) ()

/-- The number, if all four bytes came, or whether the input was at its end. -/
def read_little_endian_int32 : Calls (UInt32 ⊕ Bool) := do
  let (bytes, eof) ← Sys.cin_read 4
  if bytes.length < 4 then return .inr (bytes.isEmpty && eof)
  return .inl (read_uint32_le bytes)

def read_exact (size : Nat) : Calls (Option Bytes) := do
  if size = 0 then return some []
  let (value, _) ← Sys.cin_read size
  if value.length < size then return none
  return some value

def partial_record : Calls ((Bytes × Bytes) ⊕ Nat) := do
  Sys.cerr_write (ascii "partial raw record at EOF\n")
  return .inr 1

def oversized_record : Calls ((Bytes × Bytes) ⊕ Nat) := do
  Sys.cerr_write (ascii "message key and body exceed 1024 bytes\n")
  return .inr 1

/-- A turn of the loop of `execute_publish_raw` up to `serialize_produce`: the message, or the
exit code. -/
def read_record : Calls ((Bytes × Bytes) ⊕ Nat) := do
  match ← read_little_endian_int32 with
  | .inr true => return .inr 0
  | .inr false => partial_record
  | .inl key_size =>
    if key_size.toNat > MAX_PAYLOAD_SIZE then oversized_record
    else
      match ← read_exact key_size.toNat with
      | none => partial_record
      | some key =>
        match ← read_little_endian_int32 with
        | .inr _ => partial_record
        | .inl val_size =>
          if val_size.toNat > MAX_PAYLOAD_SIZE - key_size.toNat then oversized_record
          else
            match ← read_exact val_size.toNat with
            | none => partial_record
            | some value => return .inl (key, value)

def publish_raw_turn (topic : Bytes) (writer : Members) : Calls (Unit ⊕ Nat) := do
  match ← read_record with
  | .inr code => return .inr code
  | .inl (key, value) =>
    if !(← writer.write_exact (Request.serialize_produce topic key value)) then
      Sys.cerr_write (ascii "IPC communication error\n")
      return .inr 3
    return .inl ()

def execute_publish_raw (topic : Bytes) (writer : Members) : Calls Nat :=
  .loop (fun _ => publish_raw_turn topic writer) ()

/-- The scope of `writer` in `execute_producer_command`. -/
def publish (command : Command) (writer : Members) : Calls Nat := do
  if !writer.is_open then
    Sys.cerr_write (ascii "failed to connect to server FIFO\n")
    return 1
  if command.raw then execute_publish_raw command.topic writer
  else execute_publish_text command.topic writer

def execute_producer_command (client_pid : UInt32) (command : Command) : Calls Nat := do
  let connect_code ← execute_connect_command client_pid command
  if connect_code ≠ 0 then return connect_code
  let writer ← FifoWriter.open_fifo command.ipc_identifier
  let code ← publish command writer
  FifoWriter.close writer
  return code

/-- The handshake of `execute_subscriber_command`: the exit code, if it returns there. -/
def handshake (client_pid : UInt32) (command : Command) (reader writer : Members) : Calls (Option Nat) := do
  let requested_offset := if command.has_offset then command.offset else OFFSET_UNSET
  if !(← writer.write_exact (Request.serialize_subscribe client_pid command.subscriber command.topic command.pref
      requested_offset)) then
    Sys.cerr_write (ascii "IPC communication error\n")
    return some 3
  let (ok, handshake_hdr) ← reader.read_exact 5 2000
  if !ok then
    Sys.cerr_write (ascii "invalid response from server\n")
    return some 3
  match parse_response_header handshake_hdr with
  | none =>
    Sys.cerr_write (ascii "invalid response from server\n")
    return some 3
  | some response_hdr =>
    if response_hdr.payload_len > 0 then
      let (_, err_payload) ← reader.read_exact response_hdr.payload_len.toNat 2000
      if response_hdr.status_code ≠ .SUCCESS then
        write_error err_payload
        return some (exit_code_from_response_code response_hdr.status_code.code)
      return none
    else if response_hdr.status_code ≠ .SUCCESS then
      return some (exit_code_from_response_code response_hdr.status_code.code)
    else return none

/-- A part of a frame, which is not read when it is empty. -/
def read_part (reader : Members) (length : UInt32) : Calls (Option Bytes) := do
  if length > 0 then
    let (ok, bytes) ← reader.read_exact length.toNat 1000
    if !ok then return none
    return some bytes
  else return some []

def invalid_message : Calls (Unit ⊕ Nat) := do
  Sys.cerr_write (ascii "invalid subscription message\n")
  return .inr 3

/-- The writes of `write_raw_message`, which stop at the first after which the stream is not good. -/
def write_all : List Bytes → Calls Bool
  | [] => return true
  | bytes :: rest => do
    if !(← Sys.cout_write bytes) then return false
    write_all rest

def write_raw_message (offset : UInt32) (message : Message) : Calls Bool := do
  if !can_encode_size message.key.length || !can_encode_size message.value.length then return false
  write_all (raw_writes offset message)

/-- A message on the standard output: nobody looks at the stream after the text. -/
def print_message (raw : Bool) (message : Message) : Calls Bool := do
  if raw then write_raw_message message.offset message
  else
    let _ ← Sys.cout_write (format_text_message message)
    return true

/-- A turn of the loop of `execute_subscriber_command` from the output on. -/
def output_turn (command : Command) (writer : Members) (message : Message) : Calls (Unit ⊕ Nat) := do
  if !(← print_message command.raw message) then
    Sys.cerr_write (ascii "failed to write subscriber output\n")
    return .inr 1
  Sys.cout_flush
  if !(← writer.write_exact (Request.serialize_ack command.subscriber (message.offset + 1))) then
    Sys.cerr_write (ascii "IPC communication error\n")
    return .inr 3
  return .inl ()

/-- A turn of the loop from the reading on. -/
def delivery_turn (command : Command) (reader writer : Members) : Calls (Unit ⊕ Nat) := do
  let (ok, delivery_hdr) ← reader.read_exact 12 1000
  if !ok then invalid_message
  else
    let offset := read_uint32_le delivery_hdr
    let key_len := read_uint32_le (delivery_hdr.drop 4)
    let val_len := read_uint32_le (delivery_hdr.drop 8)
    if Response.is_shutdown offset then return .inr 0
    if (key_len + val_len).toNat > MAX_PAYLOAD_SIZE then invalid_message
    else
      match ← read_part reader key_len with
      | none => invalid_message
      | some key =>
        match ← read_part reader val_len with
        | none => invalid_message
        | some value => output_turn command writer ⟨offset, key, value⟩

/-- A turn of the loop. `poll` is called on an open descriptor. -/
def subscriber_turn (command : Command) (reader writer : Members) : Calls (Unit ⊕ Nat) := do
  if ← Sys.shutdown_requested then
    let _ ← writer.write_exact (Request.serialize_disconnect command.subscriber)
    return .inr 0
  match ← Sys.poll (reader.fd.getD 0) with
  | (.failed, _) => return .inr 3
  | (.interrupted, _) | (.timed_out, _) => return .inl ()
  | (.ready, revents) =>
    if revents.error then return .inr 3
    if !revents.input then return .inl ()
    delivery_turn command reader writer

/-- The scope of `writer` in `execute_subscriber_command`. -/
def subscribe_over (client_pid : UInt32) (command : Command) (reader writer : Members) : Calls Nat := do
  if !writer.is_open then
    Sys.cerr_write (ascii "failed to connect to server FIFO\n")
    return 1
  match ← handshake client_pid command reader writer with
  | some code => return code
  | none => .loop (fun _ => subscriber_turn command reader writer) ()

/-- The scope of `reader`. -/
def subscribe_with (client_pid : UInt32) (command : Command) (reader : Members) : Calls Nat := do
  if !reader.is_open then
    Sys.cerr_write (ascii "IPC communication error\n")
    return 3
  let writer ← FifoWriter.open_fifo command.ipc_identifier
  let code ← subscribe_over client_pid command reader writer
  FifoWriter.close writer
  return code

def execute_subscriber_command (client_pid : UInt32) (command : Command) : Calls Nat := do
  let reader ← FifoReader.create (client_fifo_path client_pid) true
  let code ← subscribe_with client_pid command reader
  FifoReader.close reader
  return code

def execute (client_pid : UInt32) (command : Command) : Calls Nat :=
  match command.type with
  | .CREATE => execute_create_command client_pid command
  | .LIST => execute_list_command client_pid command
  | .INFO => execute_info_command client_pid command
  | .CONNECT => execute_producer_command client_pid command
  | _ => execute_subscriber_command client_pid command

/-- `SIGPIPE` is ignored, so a write without a reader fails and does not end the process. -/
def main (client_pid : UInt32) (argv : List Bytes) : Calls Nat := do
  if !(← Sys.install_shutdown_handlers) then
    Sys.cerr_write (ascii "failed to install shutdown signal handlers\n")
    return 1
  match parse_command argv with
  | .error text =>
    Sys.cerr_write (text ++ [10])
    return 1
  | .ok command => execute client_pid command

end Process

end treenity.client

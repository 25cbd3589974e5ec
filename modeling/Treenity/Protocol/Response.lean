import Treenity.Protocol.Wire

namespace treenity.protocol

/-- `Protocol::StatusCode`. -/
inductive StatusCode where
  | SUCCESS | GENERAL_ERROR | TOPIC_CLIENT_ERR | IPC_ERROR
  deriving DecidableEq

/-- The underlying `uint8_t`. -/
def StatusCode.code : StatusCode → UInt8
  | SUCCESS => 0
  | GENERAL_ERROR => 1
  | TOPIC_CLIENT_ERR => 2
  | IPC_ERROR => 3

/-- `static_cast<StatusCode>` of a byte that is at most 3. -/
def StatusCode.of_code (code : UInt8) : StatusCode :=
  if code = 0 then SUCCESS
  else if code = 1 then GENERAL_ERROR
  else if code = 2 then TOPIC_CLIENT_ERR
  else IPC_ERROR

@[simp] theorem StatusCode.of_code_code (status : StatusCode) : of_code status.code = status := by
  cases status <;> rfl

structure ManagementResponseHeader where
  status_code : StatusCode
  payload_len : UInt32
  deriving DecidableEq

def parse_response_header (buf : Bytes) : Option ManagementResponseHeader :=
  if buf.getD 0 0 > 3 then none
  else some ⟨StatusCode.of_code (buf.getD 0 0), read_uint32_le (buf.drop 1)⟩

namespace Response

def serialize_response (status : StatusCode) (payload : Bytes) : Bytes :=
  write_uint32_le [status.code] (to_uint32 payload.length) ++ payload

def serialize_delivery (offset : UInt32) (key val : Bytes) : Bytes :=
  let buf := write_uint32_le [] offset
  let buf := write_uint32_le buf (to_uint32 key.length)
  let buf := write_uint32_le buf (to_uint32 val.length)
  buf ++ key ++ val

def serialize_shutdown : Bytes := serialize_delivery SHUTDOWN_OFFSET [] []

def is_shutdown (offset : UInt32) : Bool := offset == SHUTDOWN_OFFSET

@[simp] theorem serialize_delivery_length (offset : UInt32) (key val : Bytes) :
    (serialize_delivery offset key val).length = 12 + key.length + val.length := by
  simp [serialize_delivery, write_uint32_le_eq]
  omega

/-- The client reads back the status and the payload length of any response. -/
theorem parse_response_header_serialize (status : StatusCode) (payload : Bytes) :
    parse_response_header (serialize_response status payload) =
      some ⟨status, to_uint32 payload.length⟩ := by
  have hcode : ¬ status.code > 3 := by cases status <;> decide
  simp [parse_response_header, serialize_response, write_uint32_le_eq, hcode, read_le32_append]

end Response

end treenity.protocol

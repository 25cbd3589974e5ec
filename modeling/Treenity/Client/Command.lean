import Treenity.Ipc.Path
import Treenity.Protocol.Request
import Treenity.Server.State

open treenity.protocol treenity.ipc

namespace treenity.client

structure Command where
  type : CommandType
  ipc_identifier : Bytes
  topic : Bytes
  subscriber : Bytes
  pref : Bytes
  offset : UInt32
  has_offset : Bool
  raw : Bool
  deriving DecidableEq

def make_empty_command : Command :=
  ⟨.CREATE, [], [], [], [], 0, false, false⟩

def is_valid_name (value : Bytes) : Bool :=
  if value.isEmpty || value.length > 32 then false
  else value.all (fun c => server.Server.isalnum c || c == 95 || c == 46 || c == 45)

/-- The client checks names the way the server does. -/
theorem is_valid_name_eq (value : Bytes) : is_valid_name value = server.Server.is_valid_identifier value := rfl

theorem is_valid_name_length {value : Bytes} (hvalid : is_valid_name value = true) : value.length ≤ 32 := by
  unfold is_valid_name at hvalid
  split at hvalid
  · cases hvalid
  · rename_i hlength
    simp only [Bool.or_eq_true, decide_eq_true_eq, not_or] at hlength
    omega

/-- The loop of `parse_offset`, from the digits read so far. -/
def parse_digits (number : Nat) : Bytes → Option UInt32
  | [] => some (to_uint32 number)
  | c :: rest =>
    if 48 ≤ c && c ≤ 57 then
      let number := number * 10 + (c.toNat - 48)
      if number > 4294967295 then none else parse_digits number rest
    else none

def parse_offset (value : Bytes) : Option UInt32 := if value.isEmpty then none else parse_digits 0 value

def prefix_error : Bytes := ascii "--prefix requires one value and may only be used once"

def offset_error : Bytes := ascii "--offset requires one unsigned 32-bit integer and may only be used once"

inductive SubscribeOption where
  | raw | pref | offset

def subscribe_option (option : Bytes) : Option SubscribeOption :=
  if option = ascii "--raw" then some .raw
  else if option = ascii "--prefix" then some .pref
  else if option = ascii "--offset" then some .offset
  else none

/-- The loop of `parse_subscribe` over the options. -/
def parse_options (command : Command) (prefix_seen offset_seen : Bool) : List Bytes → Except Bytes Command
  | [] => .ok command
  | option :: rest =>
    match subscribe_option option with
    | some .raw =>
      if command.raw then .error (ascii "duplicate --raw option")
      else parse_options { command with raw := true } prefix_seen offset_seen rest
    | some .pref =>
      match prefix_seen, rest with
      | false, value :: rest => parse_options { command with pref := value } true offset_seen rest
      | _, _ => .error prefix_error
    | some .offset =>
      match offset_seen, rest with
      | false, value :: rest =>
        match parse_offset value with
        | some offset => parse_options { command with offset, has_offset := true } prefix_seen true rest
        | none => .error offset_error
      | _, _ => .error offset_error
    | none => .error (ascii "unknown subscribe option: " ++ option)

/-- `args` are the arguments after the operation. -/
def parse_subscribe (command : Command) (args : List Bytes) : Except Bytes Command :=
  match args with
  | topic :: subscriber :: options =>
    let command := { command with topic, subscriber }
    if !is_valid_name topic then .error (ascii "invalid topic name")
    else if !is_valid_name subscriber then .error (ascii "invalid subscriber name")
    else parse_options command false false options
  | _ =>
    .error (ascii ("usage: client <ipc_identifier> subscribe <topic_name> <subscriber_name> " ++
      "[--prefix <prefix>] [--offset <offset>] [--raw]"))

/-- The result is the command or the text of the error. -/
def parse_command (argv : List Bytes) : Except Bytes Command :=
  match argv with
  | _ :: ipc_identifier :: operation :: args =>
    let command := { make_empty_command with ipc_identifier }
    if ipc_identifier.isEmpty then .error (ascii "invalid IPC identifier")
    else if operation = ascii "create" then
      match args with
      | [topic] =>
        if is_valid_name topic then .ok { command with type := .CREATE, topic }
        else .error (ascii "invalid topic name")
      | _ => .error (ascii "usage: client <ipc_identifier> create <topic_name>")
    else if operation = ascii "list" then
      match args with
      | [] => .ok { command with type := .LIST }
      | _ => .error (ascii "usage: client <ipc_identifier> list")
    else if operation = ascii "produce" then
      match args with
      | [topic] =>
        if is_valid_name topic then .ok { command with type := .CONNECT, topic }
        else .error (ascii "invalid topic name")
      | [topic, option] =>
        if !is_valid_name topic then .error (ascii "invalid topic name")
        else if option ≠ ascii "--raw" then .error (ascii "unknown produce option: " ++ option)
        else .ok { command with type := .CONNECT, topic, raw := true }
      | _ => .error (ascii "usage: client <ipc_identifier> produce <topic_name> [--raw]")
    else if operation = ascii "subscribe" then parse_subscribe { command with type := .SUBSCRIBE } args
    else if operation = ascii "info" then
      match args with
      | [subscriber] =>
        if is_valid_name subscriber then .ok { command with type := .INFO, subscriber }
        else .error (ascii "invalid subscriber name")
      | _ => .error (ascii "usage: client <ipc_identifier> info <subscriber_name>")
    else .error (ascii "unknown command: " ++ operation)
  | _ => .error (ascii "usage: client <ipc_identifier> <create|list|produce|subscribe|info> ...")

/-- What holds of every command that was accepted. -/
structure Command.Accepted (command : Command) : Prop where
  type : command.type ∈ [.CREATE, .LIST, .INFO, .CONNECT, .SUBSCRIBE]
  topic : command.topic = [] ∨ is_valid_name command.topic = true
  subscriber : command.subscriber = [] ∨ is_valid_name command.subscriber = true
  subscribes : command.type = .SUBSCRIBE →
    is_valid_name command.topic = true ∧ is_valid_name command.subscriber = true

theorem Command.Accepted.topic_length {command : Command} (haccepted : command.Accepted) :
    command.topic.length ≤ 32 := by
  rcases haccepted.topic with hnil | hvalid
  · simp [hnil]
  · exact is_valid_name_length hvalid

theorem Command.Accepted.subscriber_length {command : Command} (haccepted : command.Accepted) :
    command.subscriber.length ≤ 32 := by
  rcases haccepted.subscriber with hnil | hvalid
  · simp [hnil]
  · exact is_valid_name_length hvalid

/-- The options touch neither the kind of the command nor the names. -/
theorem parse_options_same {command result : Command} {prefix_seen offset_seen : Bool} {options : List Bytes}
    (hparse : parse_options command prefix_seen offset_seen options = .ok result) :
    result.type = command.type ∧ result.topic = command.topic ∧ result.subscriber = command.subscriber := by
  fun_induction parse_options command prefix_seen offset_seen options with
  | case1 => cases hparse; exact ⟨rfl, rfl, rfl⟩
  | case3 _ _ _ _ _ _ _ ih => exact ih hparse
  | case4 _ _ _ _ _ _ ih => exact ih hparse
  | case6 _ _ _ _ _ _ _ _ ih => exact ih hparse
  | _ => cases hparse

theorem parse_subscribe_accepted {command result : Command} {args : List Bytes}
    (htype : command.type = .SUBSCRIBE) (hparse : parse_subscribe command args = .ok result) : result.Accepted := by
  unfold parse_subscribe at hparse
  split at hparse
  · rename_i topic subscriber options
    dsimp only at hparse
    split at hparse
    · cases hparse
    · rename_i htopic
      split at hparse
      · cases hparse
      · rename_i hsubscriber
        obtain ⟨hkind, hsame, hname⟩ := parse_options_same hparse
        have htopic' : is_valid_name result.topic = true := by
          rw [hsame]
          simpa using htopic
        have hsubscriber' : is_valid_name result.subscriber = true := by
          rw [hname]
          simpa using hsubscriber
        exact ⟨by simp [hkind, htype], .inr htopic', .inr hsubscriber', fun _ => ⟨htopic', hsubscriber'⟩⟩
  · cases hparse

/-- What an accepted command line can be. -/
inductive Parsed (argv : List Bytes) : Command → Prop
  | create (ipc_identifier : Bytes) {topic : Bytes} (htopic : is_valid_name topic = true) :
      Parsed argv { make_empty_command with ipc_identifier, type := .CREATE, topic }
  | list (ipc_identifier : Bytes) : Parsed argv { make_empty_command with ipc_identifier, type := .LIST }
  | produce (ipc_identifier : Bytes) {topic : Bytes} (raw : Bool) (htopic : is_valid_name topic = true) :
      Parsed argv { make_empty_command with ipc_identifier, type := .CONNECT, topic, raw }
  | subscribe {program ipc_identifier operation : Bytes} {args : List Bytes} {command : Command}
      (hargv : argv = program :: ipc_identifier :: operation :: args)
      (hparse : parse_subscribe { make_empty_command with ipc_identifier, type := .SUBSCRIBE } args = .ok command) :
      Parsed argv command
  | info (ipc_identifier : Bytes) {subscriber : Bytes} (hsubscriber : is_valid_name subscriber = true) :
      Parsed argv { make_empty_command with ipc_identifier, type := .INFO, subscriber }

theorem parse_command_parsed {argv : List Bytes} {command : Command} (hparse : parse_command argv = .ok command) :
    Parsed argv command := by
  unfold parse_command at hparse
  split at hparse
  · rename_i program ipc_identifier operation args
    dsimp only at hparse
    split at hparse
    · cases hparse
    split at hparse
    · split at hparse
      · split at hparse
        · cases hparse
          exact .create ipc_identifier ‹_›
        · cases hparse
      · cases hparse
    split at hparse
    · split at hparse
      · cases hparse
        exact .list ipc_identifier
      · cases hparse
    split at hparse
    · split at hparse
      · split at hparse
        · cases hparse
          exact .produce ipc_identifier false ‹_›
        · cases hparse
      · split at hparse
        · cases hparse
        · rename_i hvalid
          split at hparse
          · cases hparse
          · cases hparse
            exact .produce ipc_identifier true (by simpa using hvalid)
      · cases hparse
    split at hparse
    · exact .subscribe rfl hparse
    split at hparse
    · split at hparse
      · split at hparse
        · cases hparse
          exact .info ipc_identifier ‹_›
        · cases hparse
      · cases hparse
    · cases hparse
  · cases hparse

/-- Names are checked for every kind of command. -/
theorem parse_command_accepted {argv : List Bytes} {command : Command}
    (hparse : parse_command argv = .ok command) : command.Accepted := by
  cases parse_command_parsed hparse with
  | create _ htopic => exact ⟨by simp, .inr htopic, .inl rfl, by simp⟩
  | list => exact ⟨by simp, .inl rfl, .inl rfl, by simp⟩
  | produce _ _ htopic => exact ⟨by simp, .inr htopic, .inl rfl, by simp⟩
  | subscribe _ hsubscribe => exact parse_subscribe_accepted rfl hsubscribe
  | info _ hsubscriber => exact ⟨by simp, .inl rfl, .inr hsubscriber, by simp⟩

end treenity.client

import Treenity.Broker.State
import Treenity.Client.Options
import Treenity.Server.Consistency

open treenity.protocol treenity.data_structures treenity.ipc treenity.client treenity.server

namespace treenity.broker

variable {H : StdHash}

theorem invocation_subscribes (invocation : Invocation) : subscribes invocation.command = true := by
  obtain ⟨htopic, hsubscriber⟩ := (parse_command_accepted invocation.parsed).subscribes invocation.subscribes
  have hpref := invocation.pref_length
  simp only [broker.subscribes, invocation.subscribes, htopic, hsubscriber, hpref, decide_true, Bool.and_self]

/-- The first frame that the process writes carries the request, and the server reads it so. -/
theorem first_frame (invocation : Invocation) (client_pid : UInt32) (pipe : Bytes) (turns : Nat) :
    (execute_subscriber_command client_pid invocation.command pipe turns).head? =
        some (frame CommandType.SUBSCRIBE.code (Request.subscribe_payload (invocation.request client_pid))) ∧
      Request.parse_subscribe (Request.subscribe_payload (invocation.request client_pid)) =
        .ok (invocation.request client_pid) := by
  refine ⟨?_, (Process.create client_pid invocation.command (invocation_subscribes invocation)).request_parses⟩
  rw [execute_subscriber_command, List.head?_cons, Request.serialize_subscribe_eq]
  rfl

/-- Where the subscription is to start: at the number that was given, or at the recorded
offset of the client, or at zero for a client that is not known. -/
def wanted (invocation : Invocation) (recorded : Option ClientMetadata) : Nat :=
  invocation.given.getD ((recorded.map fun client_metadata => client_metadata.offset.toNat).getD 0)

/-- The request starts the subscription at the offset: the index records it, and the topic is
to register it, which it does if the FIFO opens. -/
structure StartsAt (before : Server H) (asked : Request.Subscribe) (kernel : Kernel) (start : Nat) : Prop where
  recorded : ((before.handle_subscriber_connect (Request.subscribe_payload asked) kernel).1.client_index.find
    asked.client_id).map (fun client_metadata => client_metadata.offset.toNat) = some start
  called : ∃ offset, .add_subscriber asked.topic asked.client_id asked.pref (client_fifo_path asked.pid) offset ∈
    (before.handle_subscriber_connect (Request.subscribe_payload asked) kernel).2 ∧ offset.toNat = start
  registered : ((before.handle_subscriber_connect (Request.subscribe_payload asked) kernel).1.entry asked.topic
    asked.client_id).map (fun sub => sub.next_offset.toNat) =
      (kernel.open_fifo (client_fifo_path asked.pid)).map fun _ => start

/-- An accepted request starts where the server's choice of three says. -/
theorem starts_at_iff {self : Server H} {asked : Request.Subscribe} {kernel : Kernel} {sub : Server.Subscription}
    (hparse : Request.parse_subscribe (Request.subscribe_payload asked) = .ok asked)
    (haccept : (self.accept_subscriber (Request.subscribe_payload asked) kernel.reader_active).1 = some sub)
    (start : Nat) : StartsAt self asked kernel start ↔
      (Server.start_offset asked.offset (self.client_index.find asked.client_id)).toNat = start := by
  rcases self.handle_subscriber_connect_cases (Request.subscribe_payload asked) kernel with
    ⟨hnone, _⟩ | ⟨found, read, hsome, hsubscribed⟩
  · rw [hnone] at haccept
    cases haccept
  · obtain rfl : asked = read := Except.ok.inj (hparse.symm.trans hsubscribed.parsed)
    have hsub := hsubscribed.sub_eq
    subst hsub
    have hindex := hsubscribed.index asked.client_id
    rw [if_pos rfl] at hindex
    have hentry := hsubscribed.entry asked.topic asked.client_id
    rw [if_pos ⟨rfl, rfl⟩] at hentry
    constructor
    · intro hstarts
      have hrecorded := hstarts.recorded
      rw [hindex] at hrecorded
      exact Option.some.inj hrecorded
    · rintro rfl
      obtain ⟨calls, heffects⟩ := hsubscribed.effects_eq
      refine ⟨?_, ⟨_, ?_, rfl⟩, ?_⟩
      · rw [hindex]
        rfl
      · rw [heffects]
        exact List.mem_cons_of_mem _ List.mem_cons_self
      · rw [hentry, Option.map_map]
        rfl

/-- For every command line and every state that accepts its request, the subscription starts
where it is to exactly if the number that was given is not the one that stands for none on
the wire, or is where the client would start without it. -/
theorem start_offset_iff (invocation : Invocation) (client_pid : UInt32) (self : Server H) (kernel : Kernel)
    (haccept : (self.accept_subscriber (Request.subscribe_payload (invocation.request client_pid))
      kernel.reader_active).1.isSome = true) :
    StartsAt self (invocation.request client_pid) kernel
        (wanted invocation (self.client_index.find invocation.command.subscriber)) ↔
      invocation.given ≠ some OFFSET_UNSET.toNat ∨
        ((self.client_index.find invocation.command.subscriber).map
          fun client_metadata => client_metadata.offset.toNat).getD 0 = OFFSET_UNSET.toNat := by
  obtain ⟨sub, hsub⟩ := Option.isSome_iff_exists.mp haccept
  rw [starts_at_iff (first_frame invocation client_pid [] 0).2 hsub, wanted]
  have hclient : (invocation.request client_pid).client_id = invocation.command.subscriber := rfl
  have hasked : (invocation.request client_pid).offset =
      if invocation.command.has_offset then invocation.command.offset else OFFSET_UNSET := rfl
  have hunset : Server.start_offset OFFSET_UNSET (self.client_index.find invocation.command.subscriber) =
      ((self.client_index.find invocation.command.subscriber).map ClientMetadata.offset).getD 0 := by
    cases self.client_index.find invocation.command.subscriber <;> rfl
  have hnumber : ((self.client_index.find invocation.command.subscriber).map
      fun client_metadata => client_metadata.offset.toNat).getD 0 =
      (((self.client_index.find invocation.command.subscriber).map ClientMetadata.offset).getD 0).toNat := by
    cases self.client_index.find invocation.command.subscriber <;> rfl
  rw [hclient, hasked, hnumber]
  rcases invocation.offset_eq with ⟨hnone, hflag⟩ | ⟨hgiven, hflag⟩
  · rw [hnone, hflag, if_neg Bool.false_ne_true, hunset]
    simp
  · rw [hgiven, hflag, if_pos rfl, Option.getD_some]
    by_cases hsame : invocation.command.offset = OFFSET_UNSET
    · rw [hsame, hunset]
      simp
    · have hother : invocation.command.offset.toNat ≠ OFFSET_UNSET.toNat := fun h => hsame (UInt32.toNat_inj.mp h)
      have hkept : Server.start_offset invocation.command.offset
          (self.client_index.find invocation.command.subscriber) = invocation.command.offset := if_pos hsame
      rw [hkept]
      simp [hother]

/-- `client /tmp/treenity subscribe t s --offset` with a numeral. -/
def subscribe_from (numeral : Bytes) (offset : UInt32)
    (hparsed : parse_command [ascii "client", ascii "/tmp/treenity", ascii "subscribe", ascii "t", ascii "s",
      ascii "--offset", numeral] = .ok
        { make_empty_command with
          type := .SUBSCRIBE, ipc_identifier := ascii "/tmp/treenity", topic := ascii "t",
          subscriber := ascii "s", offset, has_offset := true })
    (hshort : numeral.length < 2 ^ 31) : Invocation where
  argv := _
  command := _
  parsed := hparsed
  subscribes := rfl
  short := by
    simp only [List.forall_mem_cons]
    exact ⟨by decide, by decide, by decide, by decide, by decide, by decide, hshort, List.forall_mem_nil _⟩

/-- A client that is not known starts at seven. -/
theorem start_offset_seven :
    let server : Server ⟨List.length, UInt8.toNat, UInt32.toNat⟩ :=
      (Server.new.handle_create (Request.named_payload 5 (ascii "t"))).1
    let invocation := subscribe_from (ascii "7") 7 (by decide +kernel) (by decide)
    StartsAt server (invocation.request 6) ⟨fun _ => false, fun _ => some 3⟩ 7 := by
  intro server invocation
  have hstarts := (start_offset_iff invocation 6 server ⟨fun _ => false, fun _ => some 3⟩ (by decide +kernel)).mpr
    (.inl (by decide +kernel))
  have hwanted : wanted invocation (server.client_index.find invocation.command.subscriber) = 7 := by decide +kernel
  rwa [hwanted] at hstarts

/-- The largest number that the client takes starts an unknown client at zero. -/
theorem unset_offset_given :
    let server : Server ⟨List.length, UInt8.toNat, UInt32.toNat⟩ :=
      (Server.new.handle_create (Request.named_payload 5 (ascii "t"))).1
    let invocation := subscribe_from (ascii "4294967295") 4294967295 (by decide +kernel) (by decide)
    let kernel : Kernel := ⟨fun _ => false, fun _ => some 3⟩
    (server.accept_subscriber (Request.subscribe_payload (invocation.request 6)) kernel.reader_active).1.isSome = true ∧
      invocation.given = some 4294967295 ∧ ¬ StartsAt server (invocation.request 6) kernel 4294967295 := by
  intro server invocation kernel
  refine ⟨by decide +kernel, by decide +kernel, fun hstarts => ?_⟩
  have hrecorded : ((server.handle_subscriber_connect (Request.subscribe_payload (invocation.request 6))
      kernel).1.client_index.find (invocation.request 6).client_id).map
        (fun client_metadata => client_metadata.offset.toNat) = some 0 := by decide +kernel
  rw [hstarts.recorded] at hrecorded
  cases hrecorded

end treenity.broker

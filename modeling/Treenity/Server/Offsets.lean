import Treenity.Server.Runs

open treenity.protocol treenity.data_structures treenity.foundation treenity.ipc

namespace treenity.server

/-- What the history of a server says about offsets: the topic of a client's last
accepted SUBSCRIBE, and the offset last recorded for a client while it was
subscribed to a topic. -/
structure Ledger where
  current : Bytes → Option Bytes
  recorded : Bytes → Bytes → Option UInt32

namespace Ledger

variable {H : StdHash}

def empty : Ledger := ⟨fun _ => none, fun _ _ => none⟩

def put (self : Ledger) (client_id topic_name : Bytes) (offset : UInt32) : Ledger where
  current other := if other = client_id then some topic_name else self.current other
  recorded other topic :=
    if other = client_id ∧ topic = topic_name then some offset else self.recorded other topic

/-- An ACK records its offset for the topic its client is subscribed to. -/
def acknowledge (self : Ledger) (client_id : Bytes) (offset : UInt32) : Ledger :=
  match self.current client_id with
  | some topic_name => self.put client_id topic_name offset
  | none => self

/-- An accepted SUBSCRIBE records the start offset it hands to `add_subscriber`. -/
def note_effect (self : Ledger) : Effect → Ledger
  | .add_subscriber topic_name client_id _ _ start_offset => self.put client_id topic_name start_offset
  | _ => self

def note (self : Ledger) (label : Server.Event × List Effect) : Ledger :=
  let noted := label.2.foldl note_effect self
  match label.1 with
  | .request action payload _ =>
    if action.toNat = 7 then
      match Request.parse_ack payload with
      | .ok (client_id, next_offset) => noted.acknowledge client_id next_offset
      | .error _ => noted
    else noted
  | .pass _ _ => noted

/-- The ledger of a history. -/
def of (labels : List (Server.Event × List Effect)) : Ledger := labels.foldl note empty

/-- The index holds, for each client, its current topic and the offset last
recorded in it. -/
def Agrees (ledger : Ledger) (server : Server H) : Prop :=
  ∀ client_id,
    (server.client_index.find client_id = none ∧ ledger.current client_id = none ∧
        ∀ topic_name, ledger.recorded client_id topic_name = none) ∨
      ∃ found, server.client_index.find client_id = some found ∧
        ledger.current client_id = some found.topic ∧
        ledger.recorded client_id found.topic = some found.offset

theorem empty_agrees : empty.Agrees (Server.new : Server H) :=
  fun client_id => .inl ⟨by simp [Server.new], rfl, fun _ => rfl⟩

theorem note_effects_silent {ledger : Ledger} {effects : List Effect}
    (hsilent : ∀ effect ∈ effects, ∀ T c p f o, effect ≠ .add_subscriber T c p f o) :
    effects.foldl note_effect ledger = ledger := by
  induction effects with
  | nil => rfl
  | cons effect rest ih =>
    obtain ⟨hfirst, hrest⟩ := List.forall_mem_cons.mp hsilent
    have hsame : ledger.note_effect effect = ledger := by
      unfold note_effect
      split
      · exact absurd rfl (hfirst _ _ _ _ _)
      · rfl
    rw [List.foldl_cons, hsame]
    exact ih hrest

/-- Recording the same offset for the same topic in both keeps them in agreement. -/
theorem Agrees.put {ledger : Ledger} {self next : Server H} {client_id : Bytes} {record : ClientMetadata}
    (hagrees : ledger.Agrees self) (hindex : ∀ other, next.client_index.find other =
      if other = client_id then some record else self.client_index.find other) :
    (ledger.put client_id record.topic record.offset).Agrees next := by
  intro other
  rw [hindex]
  by_cases hother : other = client_id
  · refine .inr ⟨record, by rw [if_pos hother], by simp [Ledger.put, hother], by simp [Ledger.put, hother]⟩
  · simpa [Ledger.put, hother] using hagrees other

/-- Changing other fields of a record keeps them in agreement. -/
theorem Agrees.of_same {ledger : Ledger} {self next : Server H} (hagrees : ledger.Agrees self)
    (hindex : ∀ client_id, (next.client_index.find client_id).map (fun m => (m.topic, m.offset)) =
      (self.client_index.find client_id).map (fun m => (m.topic, m.offset))) : ledger.Agrees next := by
  intro client_id
  have hsame := hindex client_id
  rcases hagrees client_id with ⟨hnone, hledger⟩ | ⟨found, hfound, hcurrent, hrecorded⟩
  · rw [hnone] at hsame
    exact .inl ⟨by simpa using hsame, hledger⟩
  · rw [hfound] at hsame
    obtain ⟨after, hafter, hfields⟩ := Option.map_eq_some_iff.mp hsame
    obtain ⟨htopic, hoffset⟩ := Prod.mk.inj hfields
    exact .inr ⟨after, hafter, by rw [htopic, hcurrent], by rw [htopic, hoffset, hrecorded]⟩

/-- An ACK that changes the index is noted for the topic its client is subscribed to. -/
theorem Agrees.note_ack {ledger : Ledger} {self next : Server H} {action : UInt8} {payload : Bytes}
    {kernel : Kernel} {client_id : Bytes} {next_offset : UInt32} {recorded : ClientMetadata}
    (hagrees : ledger.Agrees self) (haction : action.toNat = 7)
    (hcommitted : self.Committed payload next client_id next_offset recorded) :
    ledger.note (.request action payload kernel, []) = ledger.put client_id recorded.topic next_offset := by
  have hcurrent : ledger.current client_id = some recorded.topic := by
    rcases hagrees client_id with ⟨hnone, _⟩ | ⟨found, hfound, hcurrent, _⟩
    · rw [hcommitted.known] at hnone
      cases hnone
    · rw [hcommitted.known] at hfound
      rw [Option.some.inj hfound, hcurrent]
  simp only [note, haction, List.foldl_nil, if_pos, hcommitted.parsed, acknowledge, hcurrent]

/-- A request that neither subscribes nor changes an offset is not noted. -/
theorem Agrees.note_silent {ledger : Ledger} {self : Server H} {action : UInt8} {payload : Bytes}
    {kernel : Kernel} {effects : List Effect} (hagrees : ledger.Agrees self)
    (hsilent : ∀ effect ∈ effects, ∀ T c p f o, effect ≠ .add_subscriber T c p f o)
    (hack : action.toNat = 7 → ∀ client_id next_offset,
      Request.parse_ack payload = .ok (client_id, next_offset) → self.client_index.find client_id = none) :
    ledger.note (.request action payload kernel, effects) = ledger := by
  rw [note, note_effects_silent hsilent]
  dsimp only
  split
  · rename_i haction
    split
    · rename_i client_id next_offset hparse
      rcases hagrees client_id with ⟨_, hcurrent, _⟩ | ⟨found, hfound, _⟩
      · rw [acknowledge, hcurrent]
      · rw [hack haction client_id next_offset hparse] at hfound
        cases hfound
    · rfl
  · rfl

theorem Agrees.step {ledger : Ledger} {self next : Server H} {label : Server.Event × List Effect}
    (hagrees : ledger.Agrees self) (hstep : Server.Step self label next) : (ledger.note label).Agrees next := by
  cases hstep with
  | pass hfound hpass =>
    rw [note, note_effects_silent (by simp)]
    exact hagrees.of_same (fun _ => rfl)
  | request action payload kernel =>
    have hhandled := self.handle_request_handled action payload kernel
    generalize self.handle_request action payload kernel = handled at hhandled ⊢
    obtain ⟨next, effects⟩ := handled
    cases hhandled with
    | quiet hquiet hanswers _ hack =>
      rw [hagrees.note_silent (fun effect heffect => ?_) hack]
      · exact hagrees.of_same (fun client_id => by rw [hquiet.client_index])
      · obtain ⟨_, _, rfl⟩ := hanswers effect heffect
        simp
    | subscribed sub request haction _ hsubscribed =>
      obtain ⟨calls, rfl⟩ := hsubscribed.effects_eq
      have hrest : (calls.map Effect.syscall).foldl note_effect
          (ledger.put sub.client_id sub.topic sub.start_offset) =
            ledger.put sub.client_id sub.topic sub.start_offset := note_effects_silent (by simp)
      have hnote : ledger.note (.request action payload kernel, Server.send_response request.pid .SUCCESS [] ::
          .add_subscriber sub.topic sub.client_id sub.pref sub.consumer_ipc sub.start_offset ::
            calls.map Effect.syscall) = ledger.put sub.client_id sub.topic sub.start_offset := by
        simp [note, haction, note_effect, Server.send_response, hrest]
      rw [hnote]
      exact hagrees.put hsubscribed.index
    | committed client_id next_offset recorded haction hcommitted heffects =>
      rw [heffects, hagrees.note_ack haction hcommitted]
      exact hagrees.put hcommitted.index
    | disconnected client recorded haction hdisconnected hcalls =>
      rw [hagrees.note_silent (fun effect heffect => ?_) (fun h => by omega)]
      · refine hagrees.of_same (fun client_id => ?_)
        rw [hdisconnected.index]
        split
        · rename_i hclient
          rw [hclient, hdisconnected.known]
          rfl
        · rfl
      · obtain ⟨_, rfl⟩ := hcalls effect heffect
        simp

theorem of_agrees {labels : List (Server.Event × List Effect)} {server : Server H}
    (hrun : Run Server.Step Server.new labels server) : (of labels).Agrees server := by
  apply hrun.history (P := fun past s => (of past).Agrees s) empty_agrees
  intro past s label t hagrees hstep
  rw [of, List.foldl_append]
  exact hagrees.step hstep

end Ledger

namespace Server

variable {H : StdHash}

/-- In every run, a SUBSCRIBE without an offset that is accepted, for a client that
is unknown or whose recorded topic is the one it asks for, hands `add_subscriber`
the offset last recorded for the client in that topic, and zero if there is none. -/
theorem start_offset_from_own_topic {labels : List (Event × List Effect)} {self next : Server H}
    {action : UInt8} {payload : Bytes} {kernel : Kernel} {effects : List Effect} {request : Request.Subscribe}
    {topic_name client_id pref fifo_path : Bytes} {start : UInt32}
    (hrun : Run Step new labels self) (hstep : Step self (.request action payload kernel, effects) next)
    (hparse : Request.parse_subscribe payload = .ok request) (hunset : request.offset = OFFSET_UNSET)
    (haccepted : .add_subscriber topic_name client_id pref fifo_path start ∈ effects)
    (hown : ∀ recorded, self.client_index.find client_id = some recorded → recorded.topic = topic_name) :
    start = ((Ledger.of labels).recorded client_id topic_name).getD 0 := by
  have hagrees := Ledger.of_agrees hrun
  cases hstep
  cases self.handle_request_handled action payload kernel with
  | quiet _ hanswers =>
    obtain ⟨_, _, heffect⟩ := hanswers _ haccepted
    cases heffect
  | committed _ _ _ _ _ heffects =>
    rw [heffects] at haccepted
    cases haccepted
  | disconnected _ _ _ _ hcalls =>
    obtain ⟨_, heffect⟩ := hcalls _ haccepted
    cases heffect
  | subscribed sub found haction haccept hsubscribed =>
    obtain rfl : request = found := Except.ok.inj (hparse.symm.trans hsubscribed.parsed)
    obtain ⟨calls, heffects⟩ := hsubscribed.effects_eq
    have hsame : topic_name = sub.topic ∧ client_id = sub.client_id ∧ pref = sub.pref ∧
        fifo_path = sub.consumer_ipc ∧ start = sub.start_offset := by
      simpa [heffects, send_response] using haccepted
    obtain ⟨rfl, rfl, _, _, rfl⟩ := hsame
    have hstart : sub.start_offset = start_offset request.offset (self.client_index.find sub.client_id) := by
      rw [hsubscribed.sub_eq]
    rw [hstart, hunset]
    rcases hagrees sub.client_id with ⟨hnone, _, hnever⟩ | ⟨recorded, hfound, _, hrecorded⟩
    · rw [hnone, hnever]
      rfl
    · rw [hfound, ← hown recorded hfound, hrecorded]
      rfl

/-- A client acknowledges offset 5 of its topic, disconnects and subscribes again. -/
theorem start_offset_after_ack :
    let kernel : Kernel := ⟨fun _ => false, fun _ => some 3⟩
    let subscribe := Request.subscribe_payload ⟨7, [99], [97], [], OFFSET_UNSET⟩
    let created := ((new : Server ⟨List.length, UInt8.toNat, UInt32.toNat⟩).handle_request 1
      (Request.named_payload 5 [97]) kernel).1
    let subscribed := (created.handle_request 6 subscribe kernel).1
    let acknowledged := (subscribed.handle_request 7 (Request.ack_payload [99] 5) kernel).1
    let gone := (acknowledged.handle_request 8 (Request.disconnect_payload [99]) kernel).1
    ∃ labels, Run Step new labels gone ∧
      .add_subscriber [97] [99] [] (client_fifo_path 7) 5 ∈ (gone.handle_request 6 subscribe kernel).2 ∧
      5 = ((Ledger.of labels).recorded [99] [97]).getD 0 := by
  intro kernel subscribe created subscribed acknowledged gone
  have hrun : Run Step new _ gone :=
    .snoc (.snoc (.snoc (.snoc (.nil _) (.request _ 1 _ kernel)) (.request created 6 subscribe kernel))
      (.request subscribed 7 _ kernel)) (.request acknowledged 8 _ kernel)
  have hparse : Request.parse_subscribe subscribe = .ok ⟨7, [99], [97], [], OFFSET_UNSET⟩ := by decide +kernel
  have haccepted : .add_subscriber [97] [99] [] (client_fifo_path 7) 5 ∈
      (gone.handle_request 6 subscribe kernel).2 := by decide +kernel
  have htopic : (gone.client_index.find [99]).map ClientMetadata.topic = some [97] := by decide +kernel
  refine ⟨_, hrun, haccepted,
    start_offset_from_own_topic hrun (.request gone 6 subscribe kernel) hparse rfl haccepted ?_⟩
  intro recorded hfind
  simpa [hfind] using htopic

/-- The offset 5 of one topic becomes the start offset in another, of which the
client has seen nothing. -/
theorem start_offset_from_other_topic :
    let kernel : Kernel := ⟨fun _ => false, fun _ => some 3⟩
    let subscribe : Bytes → UInt32 → Bytes :=
      fun topic offset => Request.subscribe_payload ⟨7, [99], topic, [], offset⟩
    ∃ (labels : List (Event × List Effect)) (self : Server ⟨List.length, UInt8.toNat, UInt32.toNat⟩),
      Run Step new labels self ∧
      .add_subscriber [98] [99] [] (client_fifo_path 7) 5 ∈
        (self.handle_request 6 (subscribe [98] OFFSET_UNSET) kernel).2 ∧
      ((Ledger.of labels).recorded [99] [98]).getD 0 = 0 := by
  intro kernel subscribe
  refine ⟨_, _, .snoc (.snoc (.snoc (.nil _) (.request _ 1 (Request.named_payload 5 [97]) kernel))
    (.request _ 1 (Request.named_payload 6 [98]) kernel)) (.request _ 6 (subscribe [97] 5) kernel), ?_, ?_⟩
  · decide +kernel
  · decide +kernel

end Server

end treenity.server

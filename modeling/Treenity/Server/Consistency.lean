import Treenity.Server.Runs

open treenity.protocol treenity.data_structures treenity.foundation treenity.ipc

namespace treenity.server.Server

variable {H : StdHash}

/-- The checks a SUBSCRIBE has to pass: its two names, the topic, and that the client name is free. -/
def admits (self : Server H) (request : Request.Subscribe) (reader_active : Bytes → Bool) : Bool :=
  is_valid_identifier request.client_id && is_valid_identifier request.topic &&
    self.topics.contains request.topic && !in_use (self.client_index.find request.client_id) reader_active

/-- Whether a SUBSCRIBE ends registered: it is accepted and `add_subscriber` returns true. -/
def registers (self : Server H) (payload : Bytes) (kernel : Kernel) : Bool :=
  match self.accept_subscriber payload kernel.reader_active with
  | (none, _, _) => false
  | (some sub, accepted, _) =>
    match accepted.topics.find sub.topic with
    | none => false
    | some topic =>
      (topic.add_subscriber sub.client_id sub.pref sub.consumer_ipc sub.start_offset
        (kernel.open_fifo sub.consumer_ipc)).1

/-- What `handle_subscriber_connect` owes the index and the topic: they agree about a client
that is told SUCCESS and marked active, and a registration that fails leaves them alone. -/
structure Consistent (before : Server H) (payload : Bytes) (kernel : Kernel) : Prop where
  registered : ∀ request, Request.parse_subscribe payload = .ok request →
    send_response request.pid .SUCCESS [] ∈ (before.handle_subscriber_connect payload kernel).2 →
    ((before.handle_subscriber_connect payload kernel).1.client_index.find request.client_id).any
      ClientMetadata.is_active →
    ∃ topic sub, (before.handle_subscriber_connect payload kernel).1.topics.find request.topic = some topic ∧
      topic.subscribers.find request.client_id = some sub ∧ sub.pref = request.pref ∧
      sub.fifo_path = client_fifo_path request.pid ∧
      sub.next_offset = start_offset request.offset (before.client_index.find request.client_id) ∧
      request.client_id ∈ topic.prefix_tree.clients_at request.pref
  unchanged : before.registers payload kernel = false →
    (before.handle_subscriber_connect payload kernel).1.client_index = before.client_index ∧
      ∀ topic_name, ((before.handle_subscriber_connect payload kernel).1.topics.find topic_name).map
          (fun topic => (topic.subscribers, topic.prefix_tree)) =
        (before.topics.find topic_name).map (fun topic => (topic.subscribers, topic.prefix_tree))

/-- A SUBSCRIBE that passes the checks is accepted with what it asked for. -/
theorem accept_subscriber_of_admits {self : Server H} {payload : Bytes} {reader_active : Bytes → Bool}
    {request : Request.Subscribe} (hparse : Request.parse_subscribe payload = .ok request)
    (hadmits : self.admits request reader_active = true) :
    (self.accept_subscriber payload reader_active).1 =
      some ⟨request.topic, request.client_id, request.pref, client_fifo_path request.pid,
        start_offset request.offset (self.client_index.find request.client_id)⟩ := by
  obtain ⟨⟨⟨hclient, htopic⟩, hknown⟩, hfree⟩ : ((is_valid_identifier request.client_id = true ∧
      is_valid_identifier request.topic = true) ∧ self.topics.contains request.topic = true) ∧
      in_use (self.client_index.find request.client_id) reader_active = false := by
    simpa [admits] using hadmits
  obtain ⟨topic, hfound⟩ := Option.isSome_iff_exists.mp ((HashMap.contains_eq _ _).symm.trans hknown)
  unfold accept_subscriber
  rw [hparse]
  simp [hclient, htopic, hfound, hfree]

/-- A SUBSCRIBE that fails one of them is not. -/
theorem admits_of_accept_subscriber {self next : Server H} {payload : Bytes} {reader_active : Bytes → Bool}
    {sub : Subscription} {effects : List Effect}
    (haccept : self.accept_subscriber payload reader_active = (some sub, next, effects)) :
    ∃ request, Request.parse_subscribe payload = .ok request ∧ self.admits request reader_active = true ∧
      sub.consumer_ipc = client_fifo_path request.pid := by
  obtain ⟨request, hparse, ⟨topic, hfound⟩, hfree, hsub, _, _⟩ := accept_subscriber_some haccept
  refine ⟨request, hparse, ?_, by rw [hsub]⟩
  have hknown : self.topics.contains request.topic = true := by
    rw [HashMap.contains_eq, hfound]
    rfl
  have hnames : is_valid_identifier request.client_id = true ∧ is_valid_identifier request.topic = true := by
    by_contra hinvalid
    have hrejected : (!is_valid_identifier request.client_id || !is_valid_identifier request.topic) = true := by
      simpa [or_iff_not_imp_left] using hinvalid
    rw [accept_subscriber, hparse] at haccept
    simp [hrejected] at haccept
  rw [admits, hnames.1, hnames.2, hknown, hfree]
  rfl

/-- An opened FIFO ends in the table and the client in the tree, at its prefix. -/
theorem add_subscriber_opened (topic : Topic H) (client_id pref fifo_path : Bytes) (start_offset : UInt32) (fd : Fd) :
    (topic.add_subscriber client_id pref fifo_path start_offset (some fd)).1 = true ∧
      (topic.add_subscriber client_id pref fifo_path start_offset (some fd)).2.1.subscribers.find client_id =
        some ⟨client_id, pref, fifo_path, some fd, start_offset⟩ ∧
      client_id ∈
        (topic.add_subscriber client_id pref fifo_path start_offset (some fd)).2.1.prefix_tree.clients_at pref := by
  refine ⟨rfl, ?_, ?_⟩
  · rw [Topic.add_subscriber_find, if_pos rfl]
    rfl
  · simp [Topic.add_subscriber]

/-- A SUBSCRIBE that is accepted but whose FIFO does not open breaks the agreement: the
client has its SUCCESS and its active record, and the topic has dropped it. -/
theorem Consistent.opens {self : Server H} {payload : Bytes} {kernel : Kernel}
    (hconsistent : self.Consistent payload kernel) {request : Request.Subscribe}
    (hparse : Request.parse_subscribe payload = .ok request)
    (hadmits : self.admits request kernel.reader_active = true) :
    (kernel.open_fifo (client_fifo_path request.pid)).isSome = true := by
  have haccept := accept_subscriber_of_admits hparse hadmits
  rcases self.handle_subscriber_connect_cases payload kernel with ⟨hnone, _⟩ | ⟨sub, found, hsome, hsubscribed⟩
  · rw [haccept] at hnone
    cases hnone
  · obtain rfl : request = found := Except.ok.inj (hparse.symm.trans hsubscribed.parsed)
    have hclient : sub.client_id = request.client_id := by rw [hsubscribed.sub_eq]
    have htopic : sub.topic = request.topic := by rw [hsubscribed.sub_eq]
    have hipc : sub.consumer_ipc = client_fifo_path request.pid := by rw [hsubscribed.sub_eq]
    obtain ⟨calls, heffects⟩ := hsubscribed.effects_eq
    have hactive := hsubscribed.index request.client_id
    rw [if_pos hclient.symm] at hactive
    obtain ⟨topic, entry, hfound, hentry, _⟩ := hconsistent.registered request hparse
      (by rw [heffects]; exact List.mem_cons_self) (by rw [hactive]; rfl)
    have hregistered := hsubscribed.entry request.topic request.client_id
    rw [entry_of_find hfound, hentry, if_pos ⟨htopic.symm, hclient.symm⟩, hipc] at hregistered
    cases hopen : kernel.open_fifo (client_fifo_path request.pid) with
    | some fd => rfl
    | none =>
      rw [hopen] at hregistered
      cases hregistered

/-- The index and the topic agree after a SUBSCRIBE exactly when `add_subscriber` could open
the FIFO of a client that passed the checks. -/
theorem consistent_iff (self : Server H) (payload : Bytes) (kernel : Kernel) :
    self.Consistent payload kernel ↔
      ∀ request, Request.parse_subscribe payload = .ok request →
        self.admits request kernel.reader_active = true →
        (kernel.open_fifo (client_fifo_path request.pid)).isSome = true := by
  constructor
  · intro hconsistent request hparse hadmits
    exact hconsistent.opens hparse hadmits
  · intro hopens
    cases haccept : self.accept_subscriber payload kernel.reader_active with
    | mk accepted rest =>
      obtain ⟨next, effects⟩ := rest
      cases accepted with
      | none =>
        -- A SUBSCRIBE that is turned away changes nothing and is not told SUCCESS.
        obtain ⟨hsame, hanswers⟩ := accept_subscriber_none haccept
        have hhandle : self.handle_subscriber_connect payload kernel = (next, effects) := by
          rw [handle_subscriber_connect, haccept]
        refine ⟨?_, ?_⟩
        · intro request hparse hsuccess _
          rw [hhandle] at hsuccess
          obtain ⟨client_pid, status, hstatus, heffect⟩ := hanswers _ hsuccess
          exact absurd (send_response_status heffect) hstatus.symm
        · intro _
          rw [hhandle, hsame]
          exact ⟨rfl, fun _ => rfl⟩
      | some sub =>
        obtain ⟨asked, hasked, hadmits, hipc⟩ := admits_of_accept_subscriber haccept
        obtain ⟨fd, hfd⟩ := Option.isSome_iff_exists.mp (hopens asked hasked hadmits)
        obtain ⟨request, hparse, ⟨topic, hfound⟩, _, hsub, hnext, _⟩ := accept_subscriber_some haccept
        obtain rfl : asked = request := Except.ok.inj (hasked.symm.trans hparse)
        subst hsub
        have hthere : next.topics.find asked.topic = some topic := by
          rw [hnext]
          exact hfound
        obtain ⟨hadded, hentry, htree⟩ := add_subscriber_opened topic asked.client_id asked.pref
          (client_fifo_path asked.pid) (start_offset asked.offset (self.client_index.find asked.client_id)) fd
        refine ⟨?_, ?_⟩
        · intro other hother _ _
          obtain rfl : asked = other := Except.ok.inj (hasked.symm.trans hother)
          refine ⟨_, _, ?_, hentry, rfl, rfl, rfl, htree⟩
          rw [handle_subscriber_connect, haccept]
          dsimp only
          rw [register_subscriber, hthere, hfd]
          dsimp only
          rw [set_topic_find hthere, if_pos rfl]
        · intro hfailed
          rw [registers, haccept] at hfailed
          dsimp only at hfailed
          rw [hthere, hfd] at hfailed
          dsimp only at hfailed
          rw [hadded] at hfailed
          cases hfailed

/-- A client is registered, its process dies, and the process that subscribes again is gone
before `add_subscriber` opens its FIFO: the registration fails, and still the
record is active and the old entry is gone. -/
theorem failed_open_leaves_active :
    let subscribe : UInt32 → Bytes := fun pid => Request.subscribe_payload ⟨pid, [99], [97], [], OFFSET_UNSET⟩
    let opening : Kernel := ⟨fun _ => false, fun _ => some 3⟩
    let failing : Kernel := ⟨fun _ => false, fun _ => none⟩
    ∃ (labels : List (Event × List Effect)) (self : Server ⟨List.length, UInt8.toNat, UInt32.toNat⟩),
      labels.map Prod.fst = [.request 1 (Request.named_payload 5 [97]) opening, .request 6 (subscribe 7) opening] ∧
      Run Step new labels self ∧ ¬ self.Consistent (subscribe 8) failing ∧
      self.registers (subscribe 8) failing = false ∧ (self.entry [97] [99]).isSome = true ∧
      (self.handle_subscriber_connect (subscribe 8) failing).1.entry [97] [99] = none ∧
      ((self.handle_subscriber_connect (subscribe 8) failing).1.client_index.find [99]).any
        ClientMetadata.is_active = true := by
  intro subscribe opening failing
  refine ⟨_, _, rfl, .snoc (.snoc (.nil _) (.request _ 1 (Request.named_payload 5 [97]) opening))
    (.request _ 6 (subscribe 7) opening), ?_, by decide +kernel, by decide +kernel, by decide +kernel,
    by decide +kernel⟩
  intro hconsistent
  have hparse : Request.parse_subscribe (subscribe 8) = .ok ⟨8, [99], [97], [], OFFSET_UNSET⟩ := by decide +kernel
  have hopens := hconsistent.opens hparse (by decide +kernel)
  cases hopens

end treenity.server.Server

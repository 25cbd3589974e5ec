import Treenity.Broker.Moves

open treenity.protocol treenity.data_structures treenity.ipc treenity.client treenity.server treenity.foundation

namespace treenity.broker

/-- The process `q` is alive and has the FIFO `path` open. -/
def Live (procs : List Process) (q : Nat) (path : Bytes) : Prop :=
  ∃ proc, procs[q]? = some proc ∧ proc.alive = true ∧ proc.fifo_path = path

namespace Broker

variable {H : StdHash}

/-- The table of the topic has an entry of the client with a descriptor for `q`. -/
def Opened (self : Broker H) (topic_name client_id : Bytes) (q : Nat) (path : Bytes) : Prop :=
  ∃ sub, self.server.entry topic_name client_id = some sub ∧ sub.fifo_fd = some q ∧ sub.fifo_path = path

/-- The index has the client active in the topic, with this FIFO. -/
def Current (self : Broker H) (topic_name client_id path : Bytes) : Prop :=
  ∃ recorded, self.server.client_index.find client_id = some recorded ∧ recorded.is_active = true ∧
    recorded.topic = topic_name ∧ recorded.ipc_path = path

/-- Live processes have their own FIFOs; a descriptor that leads to a live process
belongs to the current registration of its client; and while a registration is
pending its client has no such descriptor. -/
structure Exclusive (broker : Broker H) : Prop where
  distinct : ∀ q₁ q₂ path, Live broker.procs q₁ path → Live broker.procs q₂ path → q₁ = q₂
  known : ∀ topic_name client_id q path, broker.Opened topic_name client_id q path → q < broker.procs.length
  current : ∀ topic_name client_id q path live_path, broker.Opened topic_name client_id q path →
    Live broker.procs q live_path → path = live_path ∧ broker.Current topic_name client_id path
  pending : ∀ p sub, broker.pending = some (p, sub) →
    broker.server.client_index.find sub.client_id = some sub.metadata ∧
      ∀ topic_name q path live_path, broker.Opened topic_name sub.client_id q path → ¬ Live broker.procs q live_path

theorem new_exclusive : (new : Broker H).Exclusive := by
  refine ⟨?_, ?_, ?_, ?_⟩
  · rintro q₁ q₂ path ⟨proc, hproc, _⟩
    simp [new] at hproc
  · rintro topic_name client_id q path ⟨sub, hentry, _⟩
    simp [new] at hentry
  · rintro topic_name client_id q path live_path ⟨sub, hentry, _⟩
    simp [new] at hentry
  · intro p sub hpending
    simp [new] at hpending

/-- Nobody becomes live but a process that starts, and nobody had its FIFO. -/
theorem Moves.live_before {self next : Broker H} {event : Event} (hmoves : self.Moves event next) {q : Nat}
    {path : Bytes} (hlive : Live next.procs q path) :
    Live self.procs q path ∨ q = self.procs.length ∧ ∀ r, ¬ Live self.procs r path := by
  obtain ⟨proc, hproc, halive, hpath⟩ := hlive
  rcases hmoves.process_before hproc with ⟨old, hold, hpid, _, hbefore, _⟩ | ⟨client_pid, command, runs, hevent, hq, hnew⟩
  · refine .inl ⟨old, hold, hbefore halive, ?_⟩
    rw [← hpath, Process.fifo_path, Process.fifo_path, hpid]
  · refine .inr ⟨hq, ?_⟩
    rintro r ⟨other, hother, hliving, hsame⟩
    subst hevent
    cases hmoves with
    | start _ hfree =>
      apply holder_none hfree hother hliving
      rw [hsame, ← hpath, hnew]
      rfl

theorem Exclusive.distinct_step {self next : Broker H} {event : Event} (hexclusive : self.Exclusive)
    (hmoves : self.Moves event next) (q₁ q₂ : Nat) (path : Bytes) (h₁ : Live next.procs q₁ path)
    (h₂ : Live next.procs q₂ path) : q₁ = q₂ := by
  rcases hmoves.live_before h₁ with hold₁ | ⟨hq₁, hfree₁⟩
  · rcases hmoves.live_before h₂ with hold₂ | ⟨hq₂, hfree₂⟩
    · exact hexclusive.distinct q₁ q₂ path hold₁ hold₂
    · exact absurd hold₁ (hfree₂ q₁)
  · rcases hmoves.live_before h₂ with hold₂ | ⟨hq₂, hfree₂⟩
    · exact absurd hold₂ (hfree₁ q₂)
    · exact hq₁.trans hq₂.symm

theorem Moves.length_le {self next : Broker H} {event : Event} (hmoves : self.Moves event next) :
    self.procs.length ≤ next.procs.length := by
  by_contra hshort
  have hlast : self.procs.length - 1 < self.procs.length := by omega
  obtain ⟨proc, hproc, _⟩ := hmoves.process_after (List.getElem?_eq_getElem hlast)
  obtain ⟨hlt, _⟩ := List.getElem?_eq_some_iff.mp hproc
  omega

/-- The step that registers aside, nothing is opened. -/
theorem Moves.opened_before {self next : Broker H} {event : Event} (hmoves : self.Moves event next)
    (hevent : event ≠ .register) {topic_name client_id path : Bytes} {q : Nat}
    (hopen : next.Opened topic_name client_id q path) : self.Opened topic_name client_id q path := by
  obtain ⟨entry, hentry, hfd, hpath⟩ := hopen
  rcases hmoves.entry_before hentry hfd with ⟨old, hold, hfd, hsame, _⟩ | ⟨_, _, hregister, _⟩
  · exact ⟨old, hold, hfd, hsame.symm.trans hpath⟩
  · exact absurd hregister hevent

/-- A live process with a descriptor in the tables was alive when it was opened. -/
theorem Exclusive.live_before {self next : Broker H} {event : Event} (hexclusive : self.Exclusive)
    (hmoves : self.Moves event next) {topic_name client_id path live_path : Bytes} {q : Nat}
    (hopen : self.Opened topic_name client_id q path) (hlive : Live next.procs q live_path) :
    Live self.procs q live_path := by
  rcases hmoves.live_before hlive with hold | ⟨hq, _⟩
  · exact hold
  · have hlt := hexclusive.known _ _ _ _ hopen
    omega

theorem Exclusive.known_step {self next : Broker H} {event : Event} (hexclusive : self.Exclusive)
    (hmoves : self.Moves event next) (hevent : event ≠ .register) (topic_name client_id : Bytes) (q : Nat)
    (path : Bytes) (hopen : next.Opened topic_name client_id q path) : q < next.procs.length :=
  Nat.lt_of_lt_of_le (hexclusive.known _ _ _ _ (hmoves.opened_before hevent hopen)) hmoves.length_le

/-- What a live process with a descriptor in the tables had in the index before the step. -/
theorem Exclusive.current_before {self next : Broker H} {event : Event} (hexclusive : self.Exclusive)
    (hmoves : self.Moves event next) (hevent : event ≠ .register) {topic_name client_id path live_path : Bytes}
    {q : Nat} (hopen : next.Opened topic_name client_id q path) (hlive : Live next.procs q live_path) :
    path = live_path ∧ self.Current topic_name client_id path := by
  have hold := hmoves.opened_before hevent hopen
  exact hexclusive.current _ _ _ _ _ hold (hexclusive.live_before hmoves hold hlive)

/-- Steps after which the index says the same of every client with a descriptor in
the tables. -/
theorem Exclusive.of_current {self next : Broker H} {event : Event} (hexclusive : self.Exclusive)
    (hmoves : self.Moves event next) (hevent : event ≠ .register)
    (hcurrent : ∀ topic_name client_id q path, next.Opened topic_name client_id q path →
      self.Current topic_name client_id path → next.Current topic_name client_id path)
    (hpending : ∀ p sub, next.pending = some (p, sub) → self.pending = some (p, sub) ∧
      next.server.client_index = self.server.client_index) : next.Exclusive := by
  refine ⟨hexclusive.distinct_step hmoves, hexclusive.known_step hmoves hevent, ?_, ?_⟩
  · intro topic_name client_id q path live_path hopen hlive
    obtain ⟨hpath, hbefore⟩ := hexclusive.current_before hmoves hevent hopen hlive
    exact ⟨hpath, hcurrent _ _ _ _ hopen hbefore⟩
  · intro p sub hsub
    obtain ⟨hbefore, hindex⟩ := hpending p sub hsub
    obtain ⟨hfind, hnone⟩ := hexclusive.pending p sub hbefore
    refine ⟨by rw [hindex]; exact hfind, ?_⟩
    intro topic_name q path live_path hopen hlive
    have hold := hmoves.opened_before hevent hopen
    exact hnone _ _ _ _ hold (hexclusive.live_before hmoves hold hlive)

/-- The name of a live process with the current registration is in use. -/
theorem Current.in_use {self : Broker H} {topic_name client_id : Bytes} {q : Nat} {proc : Process}
    (hcurrent : self.Current topic_name client_id proc.fifo_path) (hproc : self.procs[q]? = some proc)
    (halive : proc.alive = true) :
    Server.in_use (self.server.client_index.find client_id) self.kernel.reader_active = true := by
  obtain ⟨recorded, hfind, hactive, _, hipc⟩ := hcurrent
  have hreader := holder_isSome hproc halive
  rw [← hipc] at hreader
  simp [hfind, Server.in_use, hactive, kernel, hreader]

/-- A SUBSCRIBE is accepted only when its name has no live registration. -/
theorem Exclusive.free {self : Broker H} (hexclusive : self.Exclusive) {client_id : Bytes}
    (hfree : Server.in_use (self.server.client_index.find client_id) self.kernel.reader_active = false)
    {topic_name path live_path : Bytes} {q : Nat} (hopen : self.Opened topic_name client_id q path) :
    ¬ Live self.procs q live_path := by
  rintro ⟨proc, hproc, halive, hlive⟩
  obtain ⟨hpath, hcurrent⟩ := hexclusive.current _ _ _ _ _ hopen ⟨proc, hproc, halive, hlive⟩
  rw [hpath, ← hlive] at hcurrent
  have hbusy := hcurrent.in_use hproc halive
  rw [hfree] at hbusy
  cases hbusy

/-- Accepting a SUBSCRIBE makes a registration pending. -/
theorem Exclusive.accepted {self next : Broker H} (hexclusive : self.Exclusive) (hmoves : self.Moves .handle next)
    {p : Nat} {sub : Server.Subscription}
    (hfree : Server.in_use (self.server.client_index.find sub.client_id) self.kernel.reader_active = false)
    (hindex : ∀ other, next.server.client_index.find other =
      if other = sub.client_id then some sub.metadata else self.server.client_index.find other)
    (hpending : next.pending = some (p, sub)) : next.Exclusive := by
  have hevent : Event.handle ≠ .register := by simp
  have hname : ∀ {topic_name client_id q path live_path}, next.Opened topic_name client_id q path →
      Live next.procs q live_path → client_id ≠ sub.client_id := by
    rintro topic_name client_id q path live_path hopen hlive rfl
    have hold := hmoves.opened_before hevent hopen
    exact hexclusive.free hfree hold (hexclusive.live_before hmoves hold hlive)
  refine ⟨hexclusive.distinct_step hmoves, hexclusive.known_step hmoves hevent, ?_, ?_⟩
  · intro topic_name client_id q path live_path hopen hlive
    obtain ⟨hpath, hcurrent⟩ := hexclusive.current_before hmoves hevent hopen hlive
    refine ⟨hpath, ?_⟩
    rw [Current, hindex, if_neg (hname hopen hlive)]
    exact hcurrent
  · intro p' sub' hsub
    obtain ⟨rfl, rfl⟩ := Prod.mk.inj (Option.some.inj (hpending.symm.trans hsub))
    refine ⟨by rw [hindex, if_pos rfl], ?_⟩
    intro topic_name q path live_path hopen hlive
    exact hname hopen hlive rfl

/-- The pending registration becomes the only one of its client. -/
theorem Exclusive.registered {self next : Broker H} (hexclusive : self.Exclusive)
    (hmoves : self.Moves .register next) (hprocs : next.procs = self.procs)
    (hindex : next.server.client_index = self.server.client_index) (hpending : next.pending = none) :
    next.Exclusive := by
  have hcases : ∀ {topic_name client_id q path}, next.Opened topic_name client_id q path →
      self.Opened topic_name client_id q path ∨ ∃ p sub, self.pending = some (p, sub) ∧ topic_name = sub.topic ∧
        client_id = sub.client_id ∧ path = sub.consumer_ipc ∧ Live self.procs q path := by
    rintro topic_name client_id q path ⟨entry, hentry, hfd, hpath⟩
    rcases hmoves.entry_before hentry hfd with ⟨old, hold, hfd, hsame, _⟩ |
        ⟨p, sub, _, hsub, htopic, hclient, hholder, rfl⟩
    · exact .inl ⟨old, hold, hfd, hsame.symm.trans hpath⟩
    · exact .inr ⟨p, sub, hsub, htopic, hclient, hpath.symm, hpath ▸ holder_some hholder⟩
  refine ⟨hexclusive.distinct_step hmoves, ?_, ?_, ?_⟩
  · intro topic_name client_id q path hopen
    rw [hprocs]
    rcases hcases hopen with hold | ⟨_, _, _, _, _, _, proc, hproc, _⟩
    · exact hexclusive.known _ _ _ _ hold
    · exact (List.getElem?_eq_some_iff.mp hproc).1
  · intro topic_name client_id q path live_path hopen hlive
    rw [hprocs] at hlive
    rw [Current, hindex]
    rcases hcases hopen with hold | ⟨p, sub, hsub, rfl, rfl, hpath, proc, hproc, _, hown⟩
    · exact hexclusive.current _ _ _ _ _ hold hlive
    · obtain ⟨found, hfound, _, hsame⟩ := hlive
      obtain rfl := Option.some.inj (hproc.symm.trans hfound)
      exact ⟨hown.symm.trans hsame, sub.metadata, (hexclusive.pending p sub hsub).1, rfl, rfl, hpath.symm⟩
  · intro p sub hsub
    rw [hpending] at hsub
    cases hsub

/-- An ACK does not change who is current. -/
theorem Current.committed {self next : Broker H} {payload name : Bytes} {next_offset : UInt32}
    {recorded : ClientMetadata} (hcommitted : self.server.Committed payload next.server name next_offset recorded)
    {topic_name client_id path : Bytes} (hcurrent : self.Current topic_name client_id path) :
    next.Current topic_name client_id path := by
  obtain ⟨found, hfind, hactive, htopic, hipc⟩ := hcurrent
  rw [Current, hcommitted.index]
  split
  · rename_i hclient
    rw [hclient, hcommitted.known] at hfind
    obtain rfl := Option.some.inj hfind
    exact ⟨_, rfl, hactive, htopic, hipc⟩
  · exact ⟨found, hfind, hactive, htopic, hipc⟩

theorem Exclusive.step {self next : Broker H} {event : Event} (hexclusive : self.Exclusive)
    (hmoves : self.Moves event next) : next.Exclusive := by
  have hcurrent := hexclusive.of_current hmoves
  cases hmoves with
  | accepted hrequest hpending hqueue haccept haccepted =>
    refine hexclusive.accepted (.accepted hrequest hpending hqueue haccept haccepted) ?_ (fun other => ?_) rfl
    · have hfree := haccepted.free
      rw [haccepted.sub_eq]
      exact hfree
    · dsimp only
      rw [haccepted.next_eq]
      exact HashMap.find_insert_or_assign _ _ _ other
  | register hpending =>
    exact hexclusive.registered (.register hpending) rfl (Server.register_subscriber_client_index _ _ _) rfl
  | committed hname hpending hqueue hcommitted =>
    exact hcurrent (by simp) (fun _ _ _ _ _ hbefore => hbefore.committed hcommitted) (by simp)
  | disconnected hname hpending hqueue hdisconnected =>
    refine hcurrent (by simp) (fun topic_name client_id _ _ hopen hbefore => ?_) (by simp)
    obtain ⟨entry, hentry, hfd⟩ := hopen
    obtain ⟨found, hfind, hactive, htopic, hipc⟩ := hbefore
    have hleft := (hdisconnected.entry topic_name client_id).symm.trans hentry
    rw [Current]
    dsimp only
    rw [hdisconnected.index]
    split
    · rename_i hclient
      rw [hclient, hdisconnected.known] at hfind
      obtain rfl := Option.some.inj hfind
      rw [if_pos ⟨htopic.symm, hclient⟩] at hleft
      cases hleft
    · exact ⟨found, hfind, hactive, htopic, hipc⟩
  | quiet hpending hqueue hother hquiet =>
    refine hcurrent (by simp) (fun _ _ _ _ _ hbefore => ?_) (by simp)
    rw [Current]
    dsimp only
    rw [hquiet.client_index]
    exact hbefore
  | rejected => exact hcurrent (by simp) (fun _ _ _ _ _ hbefore => hbefore) (by simp)
  | _ => exact hcurrent (by simp) (fun _ _ _ _ _ hbefore => hbefore) (fun _ _ hsub => ⟨hsub, rfl⟩)

end Broker

end treenity.broker

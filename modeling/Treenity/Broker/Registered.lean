import Treenity.Broker.Sessions

open treenity.protocol treenity.data_structures treenity.ipc treenity.client treenity.server treenity.foundation

namespace treenity.broker

namespace Broker

variable {H : StdHash}

/-- The process is alive, and its FIFO is registered for the name in the table of the
topic, with a descriptor. -/
def Registered (self : Broker H) (topic_name client_id : Bytes) (q : Nat) : Prop :=
  self.alive q = true ∧ ∃ sub, self.server.entry topic_name client_id = some sub ∧ sub.fifo_fd = some q

theorem exclusive_of_run {labels : List (Event × List Effect)} {broker : Broker H}
    (hrun : Run (Fires step) new labels broker) : broker.Exclusive :=
  hrun.invariant new_exclusive (fun _ _ _ hexclusive hstep => hexclusive.step (step_moves hstep))

/-- A process that starts and shares its pid with nobody that ever started is fresh. -/
theorem Sessions.fresh_of_distinct {self : Broker H} (hsessions : self.Sessions) {client_pid : UInt32}
    (hnew : client_pid ∉ self.procs.map Process.client_pid) : self.settled client_pid = true := by
  have hknown : ∀ {p : Nat} {proc : Process}, self.procs[p]? = some proc → proc.client_pid ≠ client_pid := by
    rintro p proc hproc rfl
    exact hnew (List.mem_map_of_mem (List.mem_of_getElem? hproc))
  refine Bool.and_eq_true_iff.mpr ⟨List.all_eq_true.mpr (fun sent hsent => ?_), ?_⟩
  · cases sent with
    | subscribe p request =>
      obtain ⟨proc, hproc, rfl⟩ := hsessions.genuine _ hsent
      exact bne_iff_ne.mpr (hknown hproc)
    | _ => rfl
  · cases hpending : self.pending with
    | none => rfl
    | some entry =>
      obtain ⟨p, sub⟩ := entry
      obtain ⟨_, proc, hproc, hmade⟩ := hsessions.pending p sub hpending
      apply bne_iff_ne.mpr
      rw [← hmade.consumer_ipc]
      exact fun hpath => hknown hproc (client_fifo_path_injective hpath)

/-- The pids are only ever added to. -/
theorem Moves.pids_prefix {self next : Broker H} {event : Event} (hmoves : self.Moves event next) :
    self.procs.map Process.client_pid <+: next.procs.map Process.client_pid := by
  rw [List.prefix_iff_getElem?]
  intro q hq
  have hlt : q < self.procs.length := by simpa using hq
  obtain ⟨proc, hproc, hpid, _⟩ := hmoves.process_after (List.getElem?_eq_getElem hlt)
  simp [hproc, hpid]

theorem sessions_of_distinct {labels : List (Event × List Effect)} {broker : Broker H}
    (hrun : Run (Fires step) new labels broker) (hdistinct : (broker.procs.map Process.client_pid).Nodup) :
    broker.Sessions := by
  have hall : broker.Exclusive ∧ ((broker.procs.map Process.client_pid).Nodup → broker.Sessions) := by
    refine hrun.invariant (P := fun b => b.Exclusive ∧ ((b.procs.map Process.client_pid).Nodup → b.Sessions))
      ⟨new_exclusive, fun _ => new_sessions⟩ ?_
    rintro self ⟨event, effects⟩ next ⟨hexclusive, hsessions⟩ hfires
    have hmoves := step_moves hfires
    refine ⟨hexclusive.step hmoves, fun hnodup => ?_⟩
    have hbefore := hsessions (hnodup.sublist hmoves.pids_prefix.sublist)
    apply hbefore.step hexclusive hmoves
    cases hmoves with
    | start runs hfree =>
      rename_i client_pid command
      apply hbefore.fresh_of_distinct
      rw [List.map_append, List.nodup_append] at hnodup
      exact fun hmem => hnodup.2.2 _ hmem _ List.mem_cons_self rfl
    | _ => rfl
  exact hall.2 hdistinct

/-- In every reachable state at most one live process is registered for a name, in
all topics together. It is the one of the active record of the name, which has the
topic and the FIFO; and when no pid was given out twice, that is the topic the
process itself subscribed to. -/
theorem one_live_registration {labels : List (Event × List Effect)} {broker : Broker H}
    (hrun : Run (Fires step) new labels broker) (client_id : Bytes) :
    (∀ topic₁ topic₂ q₁ q₂, broker.Registered topic₁ client_id q₁ → broker.Registered topic₂ client_id q₂ →
      topic₁ = topic₂ ∧ q₁ = q₂) ∧
    ∀ topic_name q proc, broker.Registered topic_name client_id q → broker.procs[q]? = some proc →
      (∃ recorded, broker.server.client_index.find client_id = some recorded ∧ recorded.is_active = true ∧
        recorded.topic = topic_name ∧ recorded.ipc_path = proc.fifo_path) ∧
      ((broker.procs.map Process.client_pid).Nodup →
        proc.command.topic = topic_name ∧ proc.command.subscriber = client_id) := by
  have hexclusive := exclusive_of_run hrun
  have hcurrent : ∀ {topic_name q}, broker.Registered topic_name client_id q → ∃ proc,
      broker.procs[q]? = some proc ∧ Live broker.procs q proc.fifo_path ∧
        broker.Current topic_name client_id proc.fifo_path := by
    rintro topic_name q ⟨halive, sub, hentry, hfd⟩
    obtain ⟨proc, hproc, hliving⟩ := (Option.any_eq_true _ _).mp halive
    have hlive : Live broker.procs q proc.fifo_path := ⟨proc, hproc, hliving, rfl⟩
    obtain ⟨hpath, hcurrent⟩ := hexclusive.current _ _ _ _ _ ⟨sub, hentry, hfd, rfl⟩ hlive
    exact ⟨proc, hproc, hlive, hpath ▸ hcurrent⟩
  refine ⟨?_, ?_⟩
  · intro topic₁ topic₂ q₁ q₂ h₁ h₂
    obtain ⟨proc₁, _, hlive₁, recorded₁, hfind₁, _, htopic₁, hipc₁⟩ := hcurrent h₁
    obtain ⟨proc₂, _, hlive₂, recorded₂, hfind₂, _, htopic₂, hipc₂⟩ := hcurrent h₂
    obtain rfl := Option.some.inj (hfind₁.symm.trans hfind₂)
    refine ⟨htopic₁.symm.trans htopic₂, hexclusive.distinct q₁ q₂ _ hlive₁ ?_⟩
    rwa [← hipc₁, hipc₂]
  · intro topic_name q proc hregistered hproc
    obtain ⟨found, hfound, _, hrecorded⟩ := hcurrent hregistered
    obtain rfl := Option.some.inj (hproc.symm.trans hfound)
    refine ⟨hrecorded, fun hdistinct => ?_⟩
    obtain ⟨_, sub, hentry, hfd⟩ := hregistered
    obtain ⟨other, hother, hhas⟩ := (sessions_of_distinct hrun hdistinct).opened _ _ sub q hentry hfd
    obtain rfl := Option.some.inj (hproc.symm.trans hother)
    exact ⟨hhas.topic, hhas.client_id⟩

/-- `subscribe a c`, without a prefix and an offset. -/
def subscribe_command : Command :=
  { make_empty_command with type := .SUBSCRIBE, topic := [97], subscriber := [99] }

/-- A process subscribes and is the only one registered. -/
theorem one_live_registration_subscribed :
    ∃ (broker : Broker ⟨List.length, UInt8.toNat, UInt32.toNat⟩) (labels : List (Event × List Effect)),
      Run (Fires step) new labels broker ∧ labels.map Prod.fst = [.request 1 (Request.named_payload 5 [97]), .handle,
        .start 7 subscribe_command, .act 0 .subscribe, .handle, .register] ∧
      broker.Registered [97] [99] 0 ∧
      ∀ topic_name q, broker.Registered topic_name [99] q → topic_name = [97] ∧ q = 0 := by
  obtain ⟨broker, labels, hrun, hlabels, hstate⟩ := 
    Run.of_exec_any step (new : Broker ⟨List.length, UInt8.toNat, UInt32.toNat⟩)
      [.request 1 (Request.named_payload 5 [97]), .handle, .start 7 subscribe_command, .act 0 .subscribe, .handle,
        .register]
      (fun broker => broker.alive 0 && (broker.server.entry [97] [99]).any (fun sub => sub.fifo_fd == some 0))
      (by decide +kernel)
  obtain ⟨halive, hany⟩ := Bool.and_eq_true_iff.mp hstate
  obtain ⟨sub, hentry, hfd⟩ := (Option.any_eq_true _ _).mp hany
  have hregistered : broker.Registered [97] [99] 0 := ⟨halive, sub, hentry, beq_iff_eq.mp hfd⟩
  refine ⟨broker, labels, hrun, hlabels, hregistered, fun topic_name q hother => ?_⟩
  exact (one_live_registration hrun [99]).1 _ _ _ _ hother hregistered

end Broker

end treenity.broker

import Treenity.Broker.Commits

open treenity.protocol treenity.data_structures treenity.ipc treenity.client treenity.server treenity.foundation

namespace treenity.broker.Broker

variable {H : StdHash} {client_id topic_name pref : Bytes}

/-- A process of the name has printed the message; the position is its number and the
place in its output. -/
def Printed (broker : Broker H) (client_id : Bytes) (msg : Message) (position : Nat × Nat) : Prop :=
  ∃ proc, broker.procs[position.1]? = some proc ∧ proc.command.subscriber = client_id ∧
    proc.output[position.2]? = some msg

/-- What the processes of the name have printed are messages of the topic with the prefix. -/
def Genuine (client_id topic_name pref : Bytes) (broker : Broker H) : Prop :=
  ∀ (q : Nat) (proc : Process), broker.procs[q]? = some proc → proc.command.subscriber = client_id →
    ∀ msg ∈ proc.output, (broker.server.log topic_name)[msg.offset.toNat]? = some msg ∧ pref <+: msg.key

theorem Printed.at {self : Broker H} {msg : Message} {position : Nat × Nat} (hprinted : self.Printed client_id msg position) :
    self.PrintedAt client_id msg.offset position := by
  obtain ⟨proc, hproc, hname, hmsg⟩ := hprinted
  exact ⟨proc, msg, hproc, hname, hmsg, rfl⟩

theorem Seen.printed {self : Broker H} {msg : Message} (hseen : self.Seen client_id msg) :
    ∃ position, self.Printed client_id msg position := by
  obtain ⟨q, proc, hproc, hname, hmsg⟩ := hseen
  obtain ⟨i, hi⟩ := List.mem_iff_getElem?.mp hmsg
  exact ⟨(q, i), proc, hproc, hname, hi⟩

theorem Genuine.step {self next : Broker H} {event : Event} (hgenuine : Genuine client_id topic_name pref self)
    (halike : Alike client_id topic_name pref self) (hsessions : self.Sessions) (hstreams : self.Streams)
    (hmoves : self.Moves event next) (hlog : (self.server.log topic_name).length < 2 ^ 32 - 1) :
    Genuine client_id topic_name pref next := by
  obtain ⟨more, hmore⟩ := hmoves.keeps.log topic_name
  have hgrows : ∀ (i : Nat) (msg : Message), (self.server.log topic_name)[i]? = some msg →
      (next.server.log topic_name)[i]? = some msg := by
    intro i msg hmsg
    obtain ⟨hinside, _⟩ := List.getElem?_eq_some_iff.mp hmsg
    rw [← hmore, List.getElem?_append_left hinside, hmsg]
  intro q proc hproc hname msg hmsg
  rcases hmoves.process_before hproc with ⟨old, hold, _, hcommand, _⟩ | ⟨_, _, _, _, _, rfl⟩
  · rw [hcommand] at hname
    have hearlier : msg ∈ old.output →
        (next.server.log topic_name)[msg.offset.toNat]? = some msg ∧ pref <+: msg.key := by
      intro hmsg
      obtain ⟨hlogged, hpref⟩ := hgenuine q old hold hname msg hmsg
      exact ⟨hgrows _ _ hlogged, hpref⟩
    rcases hmoves.phase_after hold hproc with ⟨_, houtput⟩ | ⟨_, halive, frames, hacted⟩
    · exact hearlier (houtput ▸ hmsg)
    · cases hacted with
      | output hphase hread =>
        rcases List.mem_append.mp hmsg with hbefore | hlast
        · exact hearlier hbefore
        · -- The message is the next one of the stream of the process.
          obtain rfl := List.mem_singleton.mp hlast
          obtain ⟨rfl, rfl, _⟩ := halike q old hold hname
          obtain ⟨start_offset, hstatus⟩ := (hsessions.consistent q old hold).accepted (by simp [hphase])
            (by simp [hphase]) (by simp [hphase])
          obtain ⟨stop, read, rest, hread, hflows⟩ := hstreams.reads_next hold halive hstatus hphase hlog hread
          obtain rfl := Option.some.inj hread
          have hindexed : Indexed (fun msg => msg.offset.toNat) (self.server.log old.command.topic) :=
            Server.log_indexed hstreams.healthy (by omega)
          have hmem : msg ∈ window (self.server.log old.command.topic) old.accepts start_offset.toNat stop := by
            simp [← hflows.read]
          obtain ⟨hlogged, _, _⟩ := hindexed.pos_of_mem_window hmem
          exact ⟨hgrows _ _ hlogged, List.isPrefixOf_iff_prefix.mp (List.mem_filter.mp hmem).2⟩
      | _ => exact hearlier hmsg
  · simp [Process.create] at hmsg

/-- All that is known of the sessions of a name that are handed over. -/
structure HandedOver (client_id topic_name pref : Bytes) (broker : Broker H) : Prop where
  exclusive : broker.Exclusive
  sessions : broker.Sessions
  streams : broker.Streams
  owned : broker.Owned client_id
  alike : Alike client_id topic_name pref broker
  safe : (broker.server.log topic_name).length < 2 ^ 32 - 1 → AtLeastOnce client_id topic_name pref broker
  commits : (broker.server.log topic_name).length < 2 ^ 32 - 1 → broker.Commits client_id
  genuine : (broker.server.log topic_name).length < 2 ^ 32 - 1 → Genuine client_id topic_name pref broker

theorem HandedOver.step {self next : Broker H} {event : Event} {effects : List Effect}
    (hover : HandedOver client_id topic_name pref self) (hstep : self.step event = some (next, effects))
    (hevent : self.handed_over client_id topic_name pref event = true) : HandedOver client_id topic_name pref next := by
  have hmoves := step_moves hstep
  simp only [handed_over, Bool.and_eq_true] at hevent
  obtain ⟨⟨⟨hfresh, halike⟩, horderly⟩, hsettling⟩ := hevent
  have hlater := hover.sessions.step hover.exclusive hmoves hfresh
  have hbefore : (next.server.log topic_name).length < 2 ^ 32 - 1 → (self.server.log topic_name).length < 2 ^ 32 - 1 :=
    Nat.lt_of_le_of_lt (hmoves.keeps.log topic_name).length_le
  refine ⟨hover.exclusive.step hmoves, hlater, hover.streams.step hover.exclusive hover.sessions hmoves,
    hover.owned.step hover.sessions hmoves horderly, hover.alike.step hmoves halike, fun hlog => ?_, fun hlog => ?_,
    fun hlog => ?_⟩
  · exact (hover.safe (hbefore hlog)).step hover.alike hover.sessions hover.streams hmoves (hbefore hlog)
  · exact (hover.commits (hbefore hlog)).step hover.alike hover.sessions hlater hover.streams hover.owned hmoves
      (hbefore hlog) horderly hsettling
  · exact (hover.genuine (hbefore hlog)).step hover.alike hover.sessions hover.streams hmoves (hbefore hlog)

end treenity.broker.Broker

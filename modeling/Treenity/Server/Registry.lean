import Treenity.Server.Runs

open treenity.protocol treenity.data_structures treenity.foundation treenity.ipc

namespace treenity.server.Server

variable {H : StdHash}

/-- A client has entries in the topic only that the index records for it. -/
def OneTopic (self : Server H) : Prop :=
  ∀ topic_name client_id, (self.entry topic_name client_id).isSome →
    ∃ recorded, self.client_index.find client_id = some recorded ∧ recorded.topic = topic_name

/-- A DISCONNECT removes every entry of its client. -/
def Disconnects (self : Server H) : Prop :=
  ∀ payload client_id, Request.parse_disconnect payload = .ok client_id →
    ∀ topic_name, (self.handle_disconnect payload).1.entry topic_name client_id = none

/-- The condition on a step: if it accepts a SUBSCRIBE of a known client, the topic
recorded for the client is the one it asks for, or has no entry of it. -/
def LeavesNothing (self : Server H) : Event → Prop
  | .request action payload kernel => action.toNat = 6 →
      ∀ sub, (self.accept_subscriber payload kernel.reader_active).1 = some sub →
        ∀ recorded, self.client_index.find sub.client_id = some recorded →
          recorded.topic = sub.topic ∨ self.entry recorded.topic sub.client_id = none
  | .pass _ _ => True

theorem new_one_topic : (new : Server H).OneTopic := by
  intro topic_name client_id hentry
  simp at hentry

/-- What `OneTopic` is for. -/
theorem OneTopic.disconnects {self : Server H} (hone : self.OneTopic) : self.Disconnects := by
  intro payload client_id hparse topic_name
  rcases (handle_disconnect_cases self payload).2 with ⟨hsame, _, hunknown⟩ | ⟨id, recorded, hdisconnected⟩
  · have hnone := hunknown client_id hparse
    rw [hsame]
    by_contra hentry
    obtain ⟨recorded, hfind, _⟩ := hone topic_name client_id (Option.isSome_iff_ne_none.mpr hentry)
    rw [hnone] at hfind
    cases hfind
  · obtain rfl : client_id = id := Except.ok.inj (hparse.symm.trans hdisconnected.parsed)
    rw [hdisconnected.entry]
    split
    · rfl
    · rename_i hother
      by_contra hentry
      obtain ⟨found, hfind, htopic⟩ := hone topic_name client_id (Option.isSome_iff_ne_none.mpr hentry)
      obtain rfl : recorded = found := Option.some.inj (hdisconnected.known.symm.trans hfind)
      exact hother ⟨htopic.symm, rfl⟩

/-- Steps that keep the records' topics and add no entry keep `OneTopic`. -/
theorem OneTopic.of_fewer {self next : Server H} (hone : self.OneTopic)
    (hindex : ∀ client_id, (next.client_index.find client_id).map ClientMetadata.topic =
      (self.client_index.find client_id).map ClientMetadata.topic)
    (hentry : ∀ topic_name client_id, (next.entry topic_name client_id).isSome →
      (self.entry topic_name client_id).isSome) : next.OneTopic := by
  intro topic_name client_id hsome
  obtain ⟨recorded, hfind, htopic⟩ := hone topic_name client_id (hentry topic_name client_id hsome)
  have hmapped := hindex client_id
  rw [hfind] at hmapped
  obtain ⟨found, hfound, hsame⟩ := Option.map_eq_some_iff.mp hmapped
  exact ⟨found, hfound, hsame.trans htopic⟩

/-- An accepted SUBSCRIBE keeps `OneTopic` exactly when it leaves nothing behind. -/
theorem OneTopic.subscribed_iff {self next : Server H} {payload : Bytes} {kernel : Kernel} {sub : Subscription}
    {request : Request.Subscribe} {effects : List Effect} (hone : self.OneTopic)
    (hsubscribed : self.Subscribed payload kernel sub request next effects) :
    next.OneTopic ↔ ∀ recorded, self.client_index.find sub.client_id = some recorded →
      recorded.topic = sub.topic ∨ self.entry recorded.topic sub.client_id = none := by
  have hindex : next.client_index.find sub.client_id = some sub.metadata := by
    rw [hsubscribed.index, if_pos rfl]
  constructor
  · intro hnext recorded hrecorded
    by_contra hleft
    obtain ⟨htopic, hentry⟩ := not_or.mp hleft
    have hstays : (next.entry recorded.topic sub.client_id).isSome := by
      rw [hsubscribed.entry, if_neg (fun h => htopic h.1)]
      exact Option.isSome_iff_ne_none.mpr hentry
    obtain ⟨found, hfound, hsame⟩ := hnext recorded.topic sub.client_id hstays
    obtain rfl : sub.metadata = found := Option.some.inj (hindex.symm.trans hfound)
    exact htopic hsame.symm
  · intro hleaves topic_name client_id hsome
    by_cases hclient : client_id = sub.client_id
    · subst hclient
      refine ⟨sub.metadata, hindex, ?_⟩
      by_contra hother
      rw [hsubscribed.entry, if_neg (fun h => hother h.1.symm)] at hsome
      obtain ⟨recorded, hrecorded, rfl⟩ := hone topic_name sub.client_id hsome
      rcases hleaves recorded hrecorded with htopic | hnone
      · exact hother htopic.symm
      · rw [hnone] at hsome
        cases hsome
    · rw [hsubscribed.entry, if_neg (fun h => hclient h.2)] at hsome
      rw [hsubscribed.index, if_neg hclient]
      exact hone topic_name client_id hsome

/-- One step keeps `OneTopic` exactly when it leaves nothing behind. -/
theorem OneTopic.step_iff {self next : Server H} {label : Event × List Effect} (hone : self.OneTopic)
    (hstep : Step self label next) : next.OneTopic ↔ self.LeavesNothing label.1 := by
  cases hstep with
  | pass hfound hpass =>
    refine iff_of_true (hone.of_fewer (fun _ => rfl) (fun other client_id => ?_)) trivial
    rw [set_topic_entry hfound]
    split
    · rename_i hother
      rw [hother, entry_of_find hfound, Topic.run_pass_isSome hpass]
      exact id
    · exact id
  | request action payload kernel =>
    cases self.handle_request_handled action payload kernel with
    | quiet hquiet _ hsubscribe =>
      refine iff_of_true (hone.of_fewer (fun _ => by rw [hquiet.client_index]) (fun topic_name client_id => ?_)) ?_
      · rw [hquiet.entry]
        exact id
      · intro hsix sub haccept
        rw [hsubscribe hsix] at haccept
        cases haccept
    | subscribed sub request haction haccept hsubscribed =>
      rw [hone.subscribed_iff hsubscribed]
      constructor
      · rintro hleaves _ other hother
        obtain rfl : sub = other := Option.some.inj (haccept.symm.trans hother)
        exact hleaves
      · intro hleaves
        exact hleaves haction sub haccept
    | committed client next_offset recorded haction hcommitted =>
      refine iff_of_true (hone.of_fewer (fun client_id => ?_) (fun topic_name client_id => ?_)) (fun h => by omega)
      · rw [hcommitted.index]
        split
        · rename_i hclient
          rw [hclient, hcommitted.known]
          rfl
        · rfl
      · rw [entry, hcommitted.topics]
        exact id
    | disconnected client recorded haction hdisconnected =>
      refine iff_of_true (hone.of_fewer (fun client_id => ?_) (fun topic_name client_id => ?_)) (fun h => by omega)
      · rw [hdisconnected.index]
        split
        · rename_i hclient
          rw [hclient, hdisconnected.known]
          rfl
        · rfl
      · rw [hdisconnected.entry]
        split
        · simp
        · exact id

/-- For every sequence of requests and delivery passes, with any outcome of the
opens and probes: every state on the way has each client in its recorded topic
only, and a DISCONNECT clears it everywhere, exactly when every step leaves nothing
behind in another topic. -/
theorem one_topic_iff (labels : List (Event × List Effect)) (last : Server H) :
    Run (fun s label t => Step s label t ∧ t.OneTopic ∧ t.Disconnects) new labels last ↔
      Run (fun s label t => Step s label t ∧ s.LeavesNothing label.1) new labels last := by
  constructor
  · intro hrun
    apply (Run.strengthen (P := OneTopic) new_one_topic (fun _ _ _ _ hstep => hstep.2.1) hrun).mono
    rintro s label t ⟨hone, hstep, hnext, _⟩
    exact ⟨hstep, (hone.step_iff hstep).mp hnext⟩
  · intro hrun
    refine (Run.strengthen (P := OneTopic) new_one_topic
      (fun _ _ _ hone hstep => (hone.step_iff hstep.1).mpr hstep.2) hrun).mono ?_
    rintro s label t ⟨hone, hstep, hleaves⟩
    have hnext := (hone.step_iff hstep).mpr hleaves
    exact ⟨hstep, hnext, hnext.disconnects⟩

/-- A client subscribes to one topic, its process dies, and it subscribes to another:
its entry in the first topic stays, and no DISCONNECT will remove it. -/
theorem moved_client_in_two_topics :
    let kernel : Kernel := ⟨fun _ => false, fun _ => some 3⟩
    let subscribe : Bytes → Bytes := fun topic => Request.subscribe_payload ⟨7, [99], topic, [], OFFSET_UNSET⟩
    ∃ (labels : List (Event × List Effect)) (last : Server ⟨List.length, UInt8.toNat, UInt32.toNat⟩),
      labels.map Prod.fst = [.request 1 (Request.named_payload 5 [97]) kernel,
        .request 1 (Request.named_payload 6 [98]) kernel, .request 6 (subscribe [97]) kernel,
        .request 6 (subscribe [98]) kernel] ∧
      Run Step new labels last ∧ ¬ last.OneTopic ∧
      ((last.handle_disconnect (Request.disconnect_payload [99])).1.entry [97] [99]).isSome = true := by
  intro kernel subscribe
  refine ⟨_, _, ?_, .snoc (.snoc (.snoc (.snoc (.nil _) (.request _ 1 (Request.named_payload 5 [97]) kernel))
    (.request _ 1 (Request.named_payload 6 [98]) kernel)) (.request _ 6 (subscribe [97]) kernel))
    (.request _ 6 (subscribe [98]) kernel), ?_, ?_⟩
  · rfl
  · intro hone
    obtain ⟨recorded, hfind, htopic⟩ := hone [97] [99] (by decide +kernel)
    have hother : (ClientMetadata.topic <$> some recorded) = some [98] := by
      rw [← hfind]
      decide +kernel
    rw [Option.map_eq_map, Option.map_some, htopic] at hother
    cases hother
  · decide +kernel

end treenity.server.Server

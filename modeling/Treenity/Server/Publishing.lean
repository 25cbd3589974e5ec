import Mathlib.Data.List.TakeWhile
import Treenity.Server.Runs

open treenity.protocol treenity.data_structures treenity.foundation

namespace treenity.server.Server

variable {H : StdHash}

/-- A CREATE of the topic that was answered SUCCESS. -/
def creates (topic_name : Bytes) (label : Event × List Effect) : Bool :=
  match label with
  | (.request action payload _, effects) =>
    match Request.parse_create payload with
    | .ok (client_pid, name) =>
      action.toNat == 1 && name == topic_name && effects == [send_response client_pid .SUCCESS []]
    | .error _ => false
  | _ => false

/-- The key and the value of a PRODUCE that parses and names the topic. -/
def produces (topic_name : Bytes) (label : Event × List Effect) : Option (Bytes × Bytes) :=
  match label with
  | (.request action payload _, _) =>
    match Request.parse_produce payload with
    | .ok (name, key, value) => if action.toNat = 5 ∧ name = topic_name then some (key, value) else none
    | .error _ => none
  | _ => none

/-- What was published to the topic: the PRODUCE frames for it from its first successful CREATE on. -/
def published (topic_name : Bytes) (labels : List (Event × List Effect)) : List (Bytes × Bytes) :=
  (labels.dropWhile fun label => !creates topic_name label).filterMap (produces topic_name)

/-- The log of a topic, if it exists. -/
def contents (self : Server H) (topic_name : Bytes) : Option (List Message) :=
  (self.topics.find topic_name).map Topic.messages

theorem log_eq_contents (self : Server H) (topic_name : Bytes) :
    self.log topic_name = (self.contents topic_name).getD [] := rfl

theorem contents_of_topics {self next : Server H} (htopics : next.topics = self.topics) (topic_name : Bytes) :
    next.contents topic_name = self.contents topic_name := by
  rw [contents, htopics, contents]

theorem set_topic_contents {self : Server H} {topic_name : Bytes} {old : Topic H}
    (hfound : self.topics.find topic_name = some old) (topic : Topic H) (other : Bytes) :
    (self.set_topic topic_name topic).contents other =
      if other = topic_name then some topic.messages else self.contents other := by
  rw [contents, set_topic_find hfound]
  split <;> rfl

/-- Writing back a topic with the same messages. -/
theorem set_topic_same_contents {self : Server H} {topic_name : Bytes} {old topic : Topic H}
    (hfound : self.topics.find topic_name = some old) (hmessages : topic.messages = old.messages) (other : Bytes) :
    (self.set_topic topic_name topic).contents other = self.contents other := by
  rw [set_topic_contents hfound]
  split
  · rename_i hother
    rw [hother, contents, hfound, hmessages]
    rfl
  · rfl

/-- The log with one more message. -/
def appended (log : List Message) (pair : Bytes × Bytes) : List Message :=
  log ++ [⟨to_uint32 log.length, pair.1, pair.2⟩]

/-- What a step does to the log of a topic: a successful CREATE starts it, a PRODUCE for a
topic that exists appends to it, and nothing else touches it. -/
structure Logs (topic_name : Bytes) (before : Server H) (label : Event × List Effect) (next : Server H) : Prop where
  created : creates topic_name label = true →
    is_valid_identifier topic_name = true ∧ before.contents topic_name = none ∧ next.contents topic_name = some []
  other : creates topic_name label = false →
    next.contents topic_name = (before.contents topic_name).map fun log =>
      ((produces topic_name label).map (appended log)).getD log

/-- A step that neither creates the topic nor publishes to it. -/
theorem Logs.of_same {topic_name : Bytes} {before next : Server H} {label : Event × List Effect}
    (hcreates : creates topic_name label = false) (hproduces : produces topic_name label = none)
    (hsame : next.contents topic_name = before.contents topic_name) : Logs topic_name before label next := by
  refine ⟨fun hcreated => absurd hcreated (by rw [hcreates]; exact Bool.false_ne_true), fun _ => ?_⟩
  rw [hsame, hproduces]
  cases before.contents topic_name <;> rfl

theorem creates_of_action {topic_name payload : Bytes} {action : UInt8} {kernel : Kernel} {effects : List Effect}
    (haction : action.toNat ≠ 1) : creates topic_name (.request action payload kernel, effects) = false := by
  unfold creates
  dsimp only
  split
  · simp [haction]
  · rfl

theorem produces_of_action {topic_name payload : Bytes} {action : UInt8} {kernel : Kernel} {effects : List Effect}
    (haction : action.toNat ≠ 5) : produces topic_name (.request action payload kernel, effects) = none := by
  unfold produces
  dsimp only
  split
  · simp [haction]
  · rfl

theorem handle_create_logs (self : Server H) (topic_name payload : Bytes) (kernel : Kernel) {action : UInt8}
    (haction : action.toNat = 1) :
    Logs topic_name self (.request action payload kernel, (self.handle_create payload).2)
      (self.handle_create payload).1 := by
  have hproduces : ∀ effects, produces topic_name (.request action payload kernel, effects) = none :=
    fun effects => produces_of_action (by omega)
  cases hparse : Request.parse_create payload with
  | error _ =>
    refine .of_same ?_ (hproduces _) ?_
    · simp [creates, hparse]
    · simp [handle_create, hparse]
  | ok fields =>
    obtain ⟨client_pid, name⟩ := fields
    have hrefused : ∀ status, status ≠ .SUCCESS →
        creates topic_name (.request action payload kernel, [send_response client_pid status []]) = false := by
      intro status hstatus
      have hanswer : send_response client_pid status [] ≠ send_response client_pid .SUCCESS [] :=
        fun hsame => hstatus (send_response_status hsame)
      simp [creates, hparse, hanswer]
    by_cases hvalid : is_valid_identifier name = true
    · cases hcontains : self.topics.contains name with
      | true =>
        have hhandle : self.handle_create payload = (self, [send_response client_pid .TOPIC_CLIENT_ERR []]) := by
          simp [handle_create, hparse, hvalid, create_topic, hcontains]
        rw [hhandle]
        exact .of_same (hrefused _ (by decide)) (hproduces _) rfl
      | false =>
        have hnone : self.topics.find name = none := by simpa [HashMap.contains_eq] using hcontains
        have hhandle : self.handle_create payload =
            ((self.create_topic name).2, [send_response client_pid .SUCCESS []]) := by
          simp [handle_create, hparse, hvalid, create_topic, hcontains]
        have hcontents : (self.create_topic name).2.contents topic_name =
            if topic_name = name then some [] else self.contents topic_name := by
          by_cases hname : topic_name = name
          · simp [create_topic, hcontains, contents, hname, hnone, Topic.new]
          · simp [create_topic, hcontains, contents, hname]
        rw [hhandle]
        by_cases hname : topic_name = name
        · rw [if_pos hname] at hcontents
          refine ⟨fun _ => ⟨by rw [hname, hvalid], by rw [hname, contents, hnone]; rfl, hcontents⟩, fun hcreates => ?_⟩
          simp [creates, hparse, haction, hname] at hcreates
        · rw [if_neg hname] at hcontents
          refine .of_same ?_ (hproduces _) hcontents
          have hother : name ≠ topic_name := fun h => hname h.symm
          simp [creates, hparse, hother]
    · have hhandle : self.handle_create payload = (self, [send_response client_pid .GENERAL_ERROR []]) := by
        simp [handle_create, hparse, hvalid]
      rw [hhandle]
      exact .of_same (hrefused _ (by decide)) (hproduces _) rfl

/-- A PRODUCE without a topic name finds no topic, since none has the empty name. -/
theorem handle_publish_logs {self : Server H} (hunnamed : self.topics.find [] = none) (topic_name payload : Bytes)
    (kernel : Kernel) {action : UInt8} (haction : action.toNat = 5) :
    Logs topic_name self (.request action payload kernel, (self.handle_publish payload).2)
      (self.handle_publish payload).1 := by
  have hcreates : ∀ effects, creates topic_name (.request action payload kernel, effects) = false :=
    fun effects => creates_of_action (by omega)
  cases hparse : Request.parse_produce payload with
  | error _ =>
    refine .of_same (hcreates _) ?_ ?_
    · simp [produces, hparse]
    · simp [handle_publish, hparse]
  | ok fields =>
    obtain ⟨name, key, value⟩ := fields
    refine ⟨fun hcreated => absurd hcreated (by rw [hcreates]; exact Bool.false_ne_true), fun _ => ?_⟩
    have hproduces : ∀ effects, produces topic_name (.request action payload kernel, effects) =
        if name = topic_name then some (key, value) else none := by
      intro effects
      simp [produces, hparse, haction]
    rw [hproduces]
    cases hfound : self.topics.find name with
    | none =>
      have hsame : (self.handle_publish payload).1 = self := by
        by_cases hempty : name.isEmpty = true <;> simp [handle_publish, hparse, hempty, get_topic, hfound]
      rw [hsame]
      by_cases hname : name = topic_name
      · rw [contents, ← hname, hfound]
        rfl
      · rw [if_neg hname]
        cases self.contents topic_name <;> rfl
    | some topic =>
      have hempty : name.isEmpty = false := by
        cases name with
        | nil =>
          rw [hunnamed] at hfound
          cases hfound
        | cons => rfl
      have hnext : (self.handle_publish payload).1 = self.set_topic name (topic.append_message key value) := by
        simp [handle_publish, hparse, hempty, get_topic, hfound]
      rw [hnext, set_topic_contents hfound]
      by_cases hname : topic_name = name
      · subst hname
        rw [if_pos rfl, if_pos rfl, contents, hfound]
        rfl
      · rw [if_neg hname, if_neg fun h => hname h.symm]
        cases self.contents topic_name <;> rfl

theorem register_subscriber_contents (self : Server H) (sub : Subscription) (opened : Option Fd) (topic_name : Bytes) :
    (self.register_subscriber sub opened).1.contents topic_name = self.contents topic_name := by
  unfold register_subscriber
  split
  · rfl
  · rename_i topic hfound
    exact set_topic_same_contents hfound (topic.add_subscriber_messages _ _ _ _ _) topic_name

theorem handle_subscriber_connect_contents (self : Server H) (payload : Bytes) (kernel : Kernel) (topic_name : Bytes) :
    (self.handle_subscriber_connect payload kernel).1.contents topic_name = self.contents topic_name := by
  unfold handle_subscriber_connect
  split
  · rename_i next effects haccept
    rw [(accept_subscriber_none haccept).1]
  · rename_i sub accepted effects haccept
    obtain ⟨request, haccepted⟩ := accept_subscriber_some haccept
    exact (register_subscriber_contents accepted sub _ topic_name).trans
      (contents_of_topics (by rw [haccepted.next_eq]) topic_name)

theorem handle_commit_contents (self : Server H) (payload topic_name : Bytes) :
    (self.handle_commit payload).1.contents topic_name = self.contents topic_name := by
  rcases (handle_commit_cases self payload).2 with ⟨hsame, _⟩ | ⟨_, _, _, hcommitted⟩
  · rw [hsame]
  · exact contents_of_topics hcommitted.topics topic_name

theorem handle_disconnect_contents (self : Server H) (payload topic_name : Bytes) :
    (self.handle_disconnect payload).1.contents topic_name = self.contents topic_name := by
  unfold handle_disconnect
  split
  · rfl
  · split
    · rfl
    · dsimp only
      split
      · rfl
      · rename_i client_id _ _ _ _ _ topic hfound
        have hmessages : (topic.remove_subscriber client_id).2.1.messages = topic.messages := by
          rw [Topic.remove_subscriber_eq, Topic.drop_subscriber_messages]
        exact (set_topic_same_contents hfound hmessages topic_name).trans rfl

/-- What handling a request does to the log of a topic. -/
theorem handle_request_logs {self : Server H} (hunnamed : self.topics.find [] = none) (topic_name : Bytes)
    (action : UInt8) (payload : Bytes) (kernel : Kernel) :
    Logs topic_name self (.request action payload kernel, (self.handle_request action payload kernel).2)
      (self.handle_request action payload kernel).1 := by
  by_cases hone : action.toNat = 1
  · have hhandle : self.handle_request action payload kernel = self.handle_create payload := by
      simp only [handle_request, hone]
    rw [hhandle]
    exact handle_create_logs self topic_name payload kernel hone
  by_cases hfive : action.toNat = 5
  · have hhandle : self.handle_request action payload kernel = self.handle_publish payload := by
      simp only [handle_request, hfive]
    rw [hhandle]
    exact handle_publish_logs hunnamed topic_name payload kernel hfive
  refine .of_same (creates_of_action hone) (produces_of_action hfive) ?_
  unfold handle_request
  split
  · exact absurd ‹_› hone
  · unfold handle_list
    split <;> rfl
  · unfold handle_info
    split
    · rfl
    · split <;> rfl
  · unfold handle_producer_connect
    split
    · rfl
    · split <;> rfl
  · exact absurd ‹_› hfive
  · exact handle_subscriber_connect_contents self payload kernel topic_name
  · exact handle_commit_contents self payload topic_name
  · exact handle_disconnect_contents self payload topic_name
  · rfl

/-- What a step of the server does to the log of a topic. -/
theorem Step.logs {self next : Server H} {label : Event × List Effect} (hunnamed : self.topics.find [] = none)
    (hstep : Step self label next) (topic_name : Bytes) : Logs topic_name self label next := by
  cases hstep with
  | request action payload kernel => exact handle_request_logs hunnamed topic_name action payload kernel
  | pass hfound hpass =>
    exact .of_same rfl rfl (set_topic_same_contents hfound (Topic.run_pass_messages hpass) topic_name)

/-- The empty name is never given to a topic. -/
theorem Step.unnamed {self next : Server H} {label : Event × List Effect} (hunnamed : self.topics.find [] = none)
    (hstep : Step self label next) : next.topics.find [] = none := by
  have hlogs := hstep.logs hunnamed []
  cases hcreates : creates [] label with
  | true => exact absurd (hlogs.created hcreates).1 (by decide)
  | false =>
    have hnone : self.contents [] = none := by rw [contents, hunnamed]; rfl
    have hcontents := hlogs.other hcreates
    rw [hnone, Option.map_none] at hcontents
    exact Option.map_eq_none_iff.mp hcontents

/-- Messages with the given keys and values, at the offsets of their positions. -/
def log_of (pairs : List (Bytes × Bytes)) : List Message :=
  pairs.mapIdx fun i pair => ⟨to_uint32 i, pair.1, pair.2⟩

theorem log_of_concat (pairs : List (Bytes × Bytes)) (pair : Bytes × Bytes) :
    log_of (pairs ++ [pair]) = appended (log_of pairs) pair := by
  simp [log_of, appended, List.mapIdx_append]

/-- After the first CREATE each step adds what it publishes. -/
theorem published_snoc {topic_name : Bytes} {past : List (Event × List Effect)}
    (hcreated : past.any (creates topic_name) = true) (label : Event × List Effect) :
    published topic_name (past ++ [label]) = published topic_name past ++ (produces topic_name label).toList := by
  have hleft : (past.dropWhile fun label => !creates topic_name label).isEmpty = false := by
    rw [List.isEmpty_eq_false_iff, ne_eq, List.dropWhile_eq_nil_iff]
    obtain ⟨first, hmem, hfirst⟩ := List.any_eq_true.mp hcreated
    intro hall
    have hnever := hall first hmem
    rw [hfirst] at hnever
    cases hnever
  rw [published, List.dropWhile_append, hleft]
  cases hproduces : produces topic_name label <;> simp [published, hproduces]

/-- A CREATE publishes nothing, and neither does what comes before it. -/
theorem published_of_first {topic_name : Bytes} {past : List (Event × List Effect)} {label : Event × List Effect}
    (hcreated : past.any (creates topic_name) = false) (hcreates : creates topic_name label = true) :
    published topic_name (past ++ [label]) = [] := by
  have hnone : (past.dropWhile fun label => !creates topic_name label) = [] := by
    rw [List.dropWhile_eq_nil_iff]
    intro label hmem
    rw [Bool.not_eq_true', ← Bool.not_eq_true]
    exact List.any_eq_false.mp hcreated label hmem
  have hproduces : produces topic_name label = none := by
    obtain ⟨event, effects⟩ := label
    cases event with
    | request action payload kernel =>
      refine produces_of_action fun haction => ?_
      rw [creates_of_action (by omega)] at hcreates
      cases hcreates
    | pass => rfl
  rw [published, List.dropWhile_append, hnone]
  simp [hcreates, hproduces]

/-- Every topic has the log of what was published to it. -/
theorem contents_of_run {labels : List (Event × List Effect)} {self : Server H} (hrun : Run Step new labels self) :
    self.topics.find [] = none ∧ ∀ topic_name, self.contents topic_name =
      if labels.any (creates topic_name) then some (log_of (published topic_name labels)) else none := by
  refine hrun.history (P := fun past s => s.topics.find [] = none ∧ ∀ topic_name, s.contents topic_name =
    if past.any (creates topic_name) then some (log_of (published topic_name past)) else none) ?_ ?_
  · refine ⟨by simp [new], fun topic_name => ?_⟩
    simp [new, contents]
  · rintro past s label t ⟨hunnamed, hcontents⟩ hstep
    refine ⟨hstep.unnamed hunnamed, fun topic_name => ?_⟩
    have hlogs := hstep.logs hunnamed topic_name
    have hbefore := hcontents topic_name
    rw [List.any_append, List.any_cons, List.any_nil, Bool.or_false]
    cases hpast : past.any (creates topic_name) with
    | true =>
      rw [hpast, if_pos rfl] at hbefore
      have hcreates : creates topic_name label = false := by
        by_contra hcreated
        have hnone := (hlogs.created (Bool.not_eq_false _ ▸ hcreated)).2.1
        rw [hbefore] at hnone
        cases hnone
      rw [hlogs.other hcreates, hbefore, Bool.true_or, if_pos rfl, published_snoc hpast]
      cases produces topic_name label with
      | none => simp
      | some pair => simp [log_of_concat]
    | false =>
      rw [hpast] at hbefore
      rw [Bool.false_or]
      cases hcreates : creates topic_name label with
      | true =>
        rw [if_pos rfl, (hlogs.created hcreates).2.2, published_of_first hpast hcreates]
        rfl
      | false =>
        rw [hlogs.other hcreates, hbefore]
        rfl

/-- For every sequence of requests, with delivery passes between them: the log of a topic is
what was published to it from its first successful CREATE on, in order and at the
offsets 0, 1, 2 and so on; and a further step leaves the log a prefix of the next
one, which is longer only by a PRODUCE for this topic. -/
theorem log_of_run {labels : List (Event × List Effect)} {self : Server H} (hrun : Run Step new labels self)
    (topic_name : Bytes) (hfew : (published topic_name labels).length < 2 ^ 32) :
    self.topics.contains topic_name = labels.any (creates topic_name) ∧
      (labels.any (creates topic_name) = true →
        (self.log topic_name).map (fun msg => (msg.key, msg.value)) = published topic_name labels ∧
        ∀ (i : Nat) (msg : Message), (self.log topic_name)[i]? = some msg → msg.offset.toNat = i) ∧
      ∀ label next, Step self label next → self.log topic_name <+: next.log topic_name ∧
        (next.log topic_name ≠ self.log topic_name → (produces topic_name label).isSome = true) := by
  obtain ⟨hunnamed, hcontents⟩ := contents_of_run hrun
  have hcontents := hcontents topic_name
  refine ⟨?_, ?_, ?_⟩
  · rw [HashMap.contains_eq, show (self.topics.find topic_name).isSome = (self.contents topic_name).isSome by
      rw [contents, Option.isSome_map], hcontents]
    cases labels.any (creates topic_name) <;> rfl
  · intro hcreated
    rw [hcreated, if_pos rfl] at hcontents
    rw [log_eq_contents, hcontents, Option.getD_some]
    refine ⟨?_, ?_⟩
    · apply List.ext_getElem?
      intro i
      simp [log_of, List.getElem?_mapIdx, Function.comp_def]
    · intro i msg hmsg
      rw [log_of, List.getElem?_mapIdx, Option.map_eq_some_iff] at hmsg
      obtain ⟨pair, hpair, rfl⟩ := hmsg
      have hi := (List.getElem?_eq_some_iff.mp hpair).1
      exact to_uint32_toNat (by omega)
  · intro label next hstep
    have hlogs := hstep.logs hunnamed topic_name
    rw [log_eq_contents, log_eq_contents]
    cases hcreates : creates topic_name label with
    | true =>
      obtain ⟨_, hbefore, hafter⟩ := hlogs.created hcreates
      rw [hbefore, hafter]
      exact ⟨List.prefix_rfl, fun hchanged => absurd rfl hchanged⟩
    | false =>
      rw [hlogs.other hcreates]
      cases self.contents topic_name with
      | none => exact ⟨List.prefix_rfl, fun hchanged => absurd rfl hchanged⟩
      | some log =>
        cases produces topic_name label with
        | none => exact ⟨List.prefix_rfl, fun hchanged => absurd rfl hchanged⟩
        | some pair => exact ⟨List.prefix_append _ _, fun _ => rfl⟩

/-- CREATE, a PRODUCE, a duplicate CREATE and another PRODUCE. -/
theorem log_of_run_two_messages :
    let kernel : Kernel := ⟨fun _ => false, fun _ => some 3⟩
    let create := Request.named_payload 5 [97]
    let produce : UInt8 → Bytes := fun byte => Request.produce_payload [97] [107] [byte]
    ∃ (labels : List (Event × List Effect)) (self : Server ⟨List.length, UInt8.toNat, UInt32.toNat⟩),
      labels.map Prod.fst = [.request 1 create kernel, .request 5 (produce 1) kernel, .request 1 create kernel,
        .request 5 (produce 2) kernel] ∧
      Run Step new labels self ∧ self.topics.contains [97] = labels.any (creates [97]) ∧
      (self.log [97]).map (fun msg => (msg.key, msg.value)) = [([107], [1]), ([107], [2])] := by
  intro kernel create produce
  let first := ((new : Server ⟨List.length, UInt8.toNat, UInt32.toNat⟩).handle_request 1 create kernel).1
  let second := (first.handle_request 5 (produce 1) kernel).1
  let third := (second.handle_request 1 create kernel).1
  have hrun : Run Step new _ (third.handle_request 5 (produce 2) kernel).1 :=
    .snoc (.snoc (.snoc (.snoc (.nil _) (.request new 1 create kernel)) (.request first 5 (produce 1) kernel))
      (.request second 1 create kernel)) (.request third 5 (produce 2) kernel)
  obtain ⟨hcontains, hlog, _⟩ := log_of_run hrun [97] (by decide +kernel)
  exact ⟨_, _, rfl, hrun, hcontains, (hlog (by decide +kernel)).1.trans (by decide +kernel)⟩

end treenity.server.Server

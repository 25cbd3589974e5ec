import Treenity.Server.Runs
import Treenity.Server.Topics

open treenity.protocol treenity.data_structures treenity.foundation

namespace treenity.server.Server

variable {H : StdHash}

/-- The names in a body of LIST: the pieces between the commas, where there is anything. -/
def split_names (body : Bytes) : List Bytes := if body.isEmpty then [] else body.splitOn 44

/-- A request that has been handled, with what came of it. -/
structure Served where
  action : UInt8
  payload : Bytes
  effects : List Effect

/-- The steps of a server as its directory sees them: a request, or something happens to one
topic, be it a delivery, a whole pass or a shutdown, at any moment between two requests. -/
inductive Lives : Server H → Option Served → Server H → Prop
  | request (self : Server H) (action : UInt8) (payload : Bytes) (kernel : Kernel) :
      Lives self (some ⟨action, payload, (self.handle_request action payload kernel).2⟩)
        (self.handle_request action payload kernel).1
  | topic {self : Server H} {topic_name : Bytes} {topic : Topic H}
      (hfound : self.topics.find topic_name = some topic) (later : Topic H) :
      Lives self none (self.set_topic topic_name later)

/-- The steps of requests and passes are such steps. -/
theorem Step.lives {self next : Server H} {label : Event × List Effect} (hstep : Step self label next) :
    ∃ served, Lives self served next := by
  cases hstep with
  | request action payload kernel => exact ⟨_, .request self action payload kernel⟩
  | pass hfound hpass => exact ⟨none, .topic hfound _⟩

/-- The name that a CREATE asks for, if it can be read. -/
def Served.asked (self : Served) : Option Bytes :=
  if self.action.toNat = 1 then (Request.parse_create self.payload).toOption.map Prod.snd else none

/-- The name that a CREATE asks for, if it is answered SUCCESS. -/
def Served.created (self : Served) : Option Bytes :=
  if self.action.toNat = 1 then
    (Request.parse_create self.payload).toOption.bind fun (pid, topic_name) =>
      if self.effects = [send_response pid .SUCCESS []] then some topic_name else none
  else none

/-- The names that were asked for, and those whose CREATE was answered SUCCESS, in order. -/
def asked (past : List (Option Served)) : List Bytes := past.filterMap (·.bind Served.asked)

def created (past : List (Option Served)) : List Bytes := past.filterMap (·.bind Served.created)

/-- A name is free of commas and not empty. -/
theorem valid_name {topic_name : Bytes} (hvalid : is_valid_identifier topic_name = true) :
    topic_name ≠ [] ∧ 44 ∉ topic_name := by
  unfold is_valid_identifier at hvalid
  split at hvalid
  · cases hvalid
  · rename_i hlength
    refine ⟨?_, ?_⟩
    · rintro rfl
      simp at hlength
    · intro hcomma
      have hother := List.all_eq_true.mp hvalid 44 hcomma
      revert hother
      decide

/-- Such names come back from the body of LIST. -/
theorem split_names_intercalate {names : List Bytes} (hnames : ∀ name ∈ names, name ≠ [] ∧ 44 ∉ name) :
    split_names ([44].intercalate names) = names := by
  cases names with
  | nil => rfl
  | cons first rest =>
    have hsplit := List.splitOn_intercalate 44 (fun name hname => (hnames name hname).2) (List.cons_ne_nil first rest)
    unfold split_names
    split
    · rename_i hempty
      rw [List.isEmpty_iff.mp hempty] at hsplit
      obtain ⟨hfirst, _⟩ := List.cons_eq_cons.mp hsplit
      exact absurd hfirst.symm (hnames first List.mem_cons_self).1
    · exact hsplit

/-- What CREATE does to the directory and what it answers. -/
theorem handle_create_spec (self : Server H) {payload : Bytes} {pid : UInt32} {topic_name : Bytes}
    (hparse : Request.parse_create payload = .ok (pid, topic_name)) :
    ((self.handle_create payload).2 = [send_response pid .SUCCESS []] ↔
        is_valid_identifier topic_name = true ∧ self.topics.find topic_name = none) ∧
      ∀ other, ((self.handle_create payload).1.topics.find other).isSome = true ↔
        (self.topics.find other).isSome = true ∨
          other = topic_name ∧ (self.handle_create payload).2 = [send_response pid .SUCCESS []] := by
  have hrefused : ∀ status, status ≠ .SUCCESS →
      [send_response pid status []] ≠ [send_response pid .SUCCESS []] := by
    intro status hstatus hsame
    exact hstatus (send_response_status (List.singleton_inj.mp hsame))
  unfold handle_create
  rw [hparse]
  dsimp only
  cases hvalid : is_valid_identifier topic_name with
  | false => simp [hrefused]
  | true =>
    cases hfound : self.topics.find topic_name with
    | some topic => simp [create_topic, HashMap.contains_eq, hfound, hrefused]
    | none =>
      simp only [create_topic, HashMap.contains_eq, hfound, Option.isSome_none, Bool.false_eq_true, if_false,
        Bool.not_true, HashMap.find_subscript, true_and, and_true]
      intro other
      by_cases hother : other = topic_name
      · simp [hother]
      · simp [hother]

/-- No other request makes or removes a topic. -/
theorem Touched.names {self next : Server H} {action : UInt8} {payload : Bytes}
    (htouched : self.Touched action payload next) (haction : action.toNat ≠ 1) (topic_name : Bytes) :
    (next.topics.find topic_name).isSome = (self.topics.find topic_name).isSome := by
  cases htouched with
  | same htopics => rw [htopics]
  | created _ hcreate => exact absurd hcreate haction
  | changed hfound hchanged htopics =>
    rw [htopics, HashMap.find_replace_of_find hfound]
    split
    · rename_i hsame
      rw [hsame, hfound]
      rfl
    · rfl

/-- The directory holds exactly the names whose CREATE was answered SUCCESS, each made once,
and every name that was asked for and can be one. -/
structure Listed (past : List (Option Served)) (reached : Server H) : Prop where
  found : ∀ topic_name, (reached.topics.find topic_name).isSome = true ↔ topic_name ∈ created past
  once : (created past).Nodup
  valid : ∀ topic_name ∈ created past, is_valid_identifier topic_name = true
  answered : ∀ topic_name ∈ asked past, is_valid_identifier topic_name = true → topic_name ∈ created past

theorem new_listed : (new : Server H).Listed [] :=
  ⟨by simp [new, created], List.nodup_nil, by simp [created], by simp [asked]⟩

/-- Steps that ask for no topic and leave the names as they are. -/
theorem Listed.of_names {past : List (Option Served)} {self next : Server H} (hlisted : self.Listed past)
    {label : Option Served} (hasked : label.bind Served.asked = none) (hcreated : label.bind Served.created = none)
    (hnames : ∀ topic_name, (next.topics.find topic_name).isSome = (self.topics.find topic_name).isSome) :
    next.Listed (past ++ [label]) := by
  have hsame : created (past ++ [label]) = created past := by simp [created, hcreated]
  have hpast : asked (past ++ [label]) = asked past := by simp [asked, hasked]
  refine ⟨?_, ?_, ?_, ?_⟩
  · intro topic_name
    rw [hnames, hsame]
    exact hlisted.found topic_name
  · rw [hsame]
    exact hlisted.once
  · rw [hsame]
    exact hlisted.valid
  · rw [hsame, hpast]
    exact hlisted.answered

/-- A CREATE that can be read. -/
theorem Listed.create {past : List (Option Served)} {self : Server H} (hlisted : self.Listed past) {action : UInt8}
    (haction : action.toNat = 1) {payload : Bytes} {pid : UInt32} {topic_name : Bytes}
    (hparse : Request.parse_create payload = .ok (pid, topic_name)) :
    (self.handle_create payload).1.Listed (past ++ [some ⟨action, payload, (self.handle_create payload).2⟩]) := by
  obtain ⟨hanswer, hfind⟩ := handle_create_spec self hparse
  have hasked : asked (past ++ [some ⟨action, payload, (self.handle_create payload).2⟩]) = asked past ++ [topic_name] := by
    simp [asked, Served.asked, haction, hparse, Except.toOption]
  by_cases hsuccess : (self.handle_create payload).2 = [send_response pid .SUCCESS []]
  · have hcreated : created (past ++ [some ⟨action, payload, (self.handle_create payload).2⟩]) =
        created past ++ [topic_name] := by
      simp [created, Served.created, haction, hparse, Except.toOption, hsuccess]
    obtain ⟨hvalid, hnone⟩ := hanswer.mp hsuccess
    have hnew : topic_name ∉ created past := by
      rw [← hlisted.found, hnone]
      simp
    refine ⟨?_, ?_, ?_, ?_⟩
    · intro other
      rw [hfind, hcreated, hlisted.found]
      simp [hsuccess]
    · rw [hcreated]
      exact List.nodup_append'.mpr ⟨hlisted.once, List.nodup_singleton _, by simpa using hnew⟩
    · rw [hcreated]
      refine List.forall_mem_append.mpr ⟨hlisted.valid, ?_⟩
      simpa using hvalid
    · rw [hcreated, hasked]
      intro other hother hok
      rcases List.mem_append.mp hother with hold | hlast
      · exact List.mem_append_left _ (hlisted.answered other hold hok)
      · exact List.mem_append_right _ hlast
  · have hcreated : created (past ++ [some ⟨action, payload, (self.handle_create payload).2⟩]) = created past := by
      simp [created, Served.created, haction, hparse, Except.toOption, hsuccess]
    refine ⟨?_, ?_, ?_, ?_⟩
    · intro other
      rw [hfind, hcreated, hlisted.found]
      simp [hsuccess]
    · rw [hcreated]
      exact hlisted.once
    · rw [hcreated]
      exact hlisted.valid
    · rw [hcreated, hasked]
      intro other hother hok
      rcases List.mem_append.mp hother with hold | hlast
      · exact hlisted.answered other hold hok
      · obtain rfl := List.mem_singleton.mp hlast
        have hsome : self.topics.find other ≠ none := fun hnone => hsuccess (hanswer.mpr ⟨hok, hnone⟩)
        exact (hlisted.found other).mp (Option.isSome_iff_ne_none.mpr hsome)

theorem Listed.step {past : List (Option Served)} {self next : Server H} {label : Option Served}
    (hlisted : self.Listed past) (hstep : Lives self label next) : next.Listed (past ++ [label]) := by
  cases hstep with
  | topic hfound later =>
    refine hlisted.of_names rfl rfl (fun other => ?_)
    rw [set_topic_find hfound]
    split
    · rename_i hother
      rw [hother, hfound]
      rfl
    · rfl
  | request action payload kernel =>
    by_cases haction : action.toNat = 1
    · have hcreate : self.handle_request action payload kernel = self.handle_create payload := by
        simp only [handle_request, haction]
      rw [hcreate]
      cases hparse : Request.parse_create payload with
      | ok fields => exact hlisted.create haction hparse
      | error err =>
        refine hlisted.of_names ?_ ?_ (fun other => ?_)
        · simp [Served.asked, hparse, Except.toOption]
        · simp [Served.created, hparse, Except.toOption]
        · simp only [handle_create, hparse]
    · refine hlisted.of_names ?_ ?_ ((handle_request_touched self action payload kernel).names haction)
      · simp [Served.asked, haction]
      · simp [Served.created, haction]

theorem Listed.run {past : List (Option Served)} {self : Server H} (hrun : Run Lives new past self) :
    self.Listed past := by
  apply hrun.history (P := fun past self => self.Listed past) new_listed
  intro past self label next hlisted hstep
  exact hlisted.step hstep

/-- What was answered SUCCESS was asked for. -/
theorem created_asked {past : List (Option Served)} {topic_name : Bytes} (hcreated : topic_name ∈ created past) :
    topic_name ∈ asked past := by
  obtain ⟨label, hlabel, hname⟩ := List.mem_filterMap.mp hcreated
  refine List.mem_filterMap.mpr ⟨label, hlabel, ?_⟩
  obtain ⟨served, rfl, hserved⟩ := Option.bind_eq_some_iff.mp hname
  unfold Served.created at hserved
  rw [Option.bind_some, Served.asked]
  split at hserved
  · rename_i haction
    obtain ⟨⟨pid, name⟩, hparse, hsuccess⟩ := Option.bind_eq_some_iff.mp hserved
    dsimp only at hsuccess
    split at hsuccess
    · rw [if_pos haction, hparse]
      exact hsuccess
    · cases hsuccess
  · cases hserved

/-- After every run no name has been answered SUCCESS twice. A CREATE is answered SUCCESS
exactly if it is the first for its name and this can be one. A LIST is answered with the
names that were answered SUCCESS, each once, and with nothing exactly if there are none. -/
theorem directory_lists_created {past : List (Option Served)} {self : Server H} (hrun : Run Lives new past self)
    (kernel : Kernel) :
    (created past).Nodup ∧
    (∀ payload pid topic_name, Request.parse_create payload = .ok (pid, topic_name) →
      ((self.handle_request 1 payload kernel).2 = [send_response pid .SUCCESS []] ↔
        is_valid_identifier topic_name = true ∧ topic_name ∉ asked past)) ∧
    ∀ payload pid, Request.parse_list payload = .ok pid →
      ∃ body, (self.handle_request 2 payload kernel).2 = [send_response pid .SUCCESS body] ∧
        (split_names body).Nodup ∧ (∀ topic_name, topic_name ∈ split_names body ↔ topic_name ∈ created past) ∧
        (body = [] ↔ created past = []) := by
  have hlisted := Listed.run hrun
  refine ⟨hlisted.once, ?_, ?_⟩
  · intro payload pid topic_name hparse
    refine (handle_create_spec self hparse).1.trans (and_congr_right fun hvalid => ?_)
    rw [← Option.not_isSome_iff_eq_none, hlisted.found]
    refine not_congr ⟨?_, fun hasked => hlisted.answered topic_name hasked hvalid⟩
    exact fun hcreated => created_asked hcreated
  · intro payload pid hparse
    have hkeys : ∀ topic_name, topic_name ∈ self.topics.keys ↔ topic_name ∈ created past := by
      intro topic_name
      rw [HashMap.mem_keys_iff, hlisted.found]
    have hsplit : split_names ([44].intercalate self.topics.keys) = self.topics.keys :=
      split_names_intercalate fun name hname => valid_name (hlisted.valid name ((hkeys name).mp hname))
    refine ⟨[44].intercalate self.topics.keys, ?_, ?_, ?_, ?_⟩
    · show (self.handle_list payload).2 = _
      rw [handle_list, hparse]
    · rw [hsplit]
      exact self.topics.keys_nodup
    · rw [hsplit]
      exact hkeys
    · constructor
      · intro hbody
        rw [hbody] at hsplit
        apply List.eq_nil_iff_forall_not_mem.mpr
        intro topic_name hcreated
        rw [← hkeys, ← hsplit] at hcreated
        cases hcreated
      · intro hnone
        have hempty : self.topics.keys = [] := by
          apply List.eq_nil_iff_forall_not_mem.mpr
          intro topic_name hkey
          rw [hkeys, hnone] at hkey
          cases hkey
        rw [hempty]
        rfl

/-- The same name asked for twice, and a LIST. -/
theorem directory_lists_created_once :
    let kernel : Kernel := ⟨fun _ => true, fun _ => none⟩
    let first : Server ⟨List.length, UInt8.toNat, UInt32.toNat⟩ × List Effect :=
      new.handle_request 1 (Request.named_payload 7 [97]) kernel
    let second := first.1.handle_request 1 (Request.named_payload 7 [97]) kernel
    ∃ body, (second.1.handle_request 2 (Request.named_payload 8 []) kernel).2 = [send_response 8 .SUCCESS body] ∧
      ∀ topic_name, topic_name ∈ split_names body ↔ topic_name = [97] := by
  intro kernel first second
  have hrun : Run Lives new ([] ++ [some ⟨1, Request.named_payload 7 [97], first.2⟩] ++
      [some ⟨1, Request.named_payload 7 [97], second.2⟩]) second.1 :=
    .snoc (.snoc (.nil _) (.request _ _ _ kernel)) (.request _ _ _ kernel)
  have hcreated : created ([] ++ [some ⟨1, Request.named_payload 7 [97], first.2⟩] ++
      [some ⟨1, Request.named_payload 7 [97], second.2⟩]) = [[97]] := by decide +kernel
  obtain ⟨body, hreply, _, hnames, _⟩ :=
    (directory_lists_created hrun kernel).2.2 (Request.named_payload 8 []) 8 (by decide +kernel)
  refine ⟨body, hreply, fun topic_name => ?_⟩
  rw [hnames, hcreated, List.mem_singleton]

end treenity.server.Server

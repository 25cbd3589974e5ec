import Treenity.Foundation.Json
import Treenity.Server.Consistency

open treenity.protocol treenity.data_structures treenity.foundation treenity.ipc

namespace treenity.server.Server

variable {H : StdHash}

/-- What the index keeps about a client: its two names were checked and the path was made for
a process. Its prefix is what a SUBSCRIBE carried. -/
structure Recorded (labels : List (Event × List Effect)) (client_id : Bytes) (recorded : ClientMetadata) :
    Prop where
  client : recorded.client_id = client_id
  client_valid : is_valid_identifier client_id = true
  topic_valid : is_valid_identifier recorded.topic = true
  ipc_path : ∃ pid, recorded.ipc_path = client_fifo_path pid
  pref : ∃ action payload kernel effects request, (.request action payload kernel, effects) ∈ labels ∧
    action.toNat = 6 ∧ Request.parse_subscribe payload = .ok request ∧ recorded.pref = request.pref

/-- The prefix of every SUBSCRIBE is plain. -/
def PlainSubscribes (labels : List (Event × List Effect)) : Prop :=
  ∀ action payload kernel effects request, (.request action payload kernel, effects) ∈ labels →
    action.toNat = 6 → Request.parse_subscribe payload = .ok request → Json.Plain request.pref

/-- The members of the answer to INFO. -/
def info_members (recorded : ClientMetadata) : List (Bytes × Json) :=
  [(ascii "client", .string recorded.client_id), (ascii "topic", .string recorded.topic),
    (ascii "offset", .number (to_string recorded.offset)), (ascii "prefix", .string recorded.pref),
    (ascii "ipc", .string recorded.ipc_path)]

/-- The text is a JSON object with these members and no others. -/
def Describes (text : Bytes) (members : List (Bytes × Json)) : Prop :=
  ∃ found, Json.read text = some (.object found) ∧ ∀ member, member ∈ found ↔ member ∈ members

/-- A record stays when its offset or its mark changes. -/
theorem Recorded.updated {labels : List (Event × List Effect)} {client_id : Bytes} {old : ClientMetadata}
    (hold : Recorded labels client_id old) (label : Event × List Effect) (offset : UInt32) (is_active : Bool) :
    Recorded (labels ++ [label]) client_id { old with offset, is_active } := by
  obtain ⟨hclient, hvalid, htopic, hpath, action, payload, kernel, effects, request, hmem, hsubscribe⟩ := hold
  exact ⟨hclient, hvalid, htopic, hpath, action, payload, kernel, effects, request,
    List.mem_append_left _ hmem, hsubscribe⟩

/-- An accepted SUBSCRIBE leaves a record of what was checked. -/
theorem Subscribed.recorded {self next : Server H} {action : UInt8} {payload : Bytes} {kernel : Kernel}
    {sub : Subscription} {request : Request.Subscribe} {effects : List Effect}
    (hsubscribed : self.Subscribed payload kernel sub request next effects) (haction : action.toNat = 6)
    (haccept : (self.accept_subscriber payload kernel.reader_active).1 = some sub)
    (labels : List (Event × List Effect)) :
    Recorded (labels ++ [(.request action payload kernel, effects)]) sub.client_id sub.metadata := by
  have hpair : self.accept_subscriber payload kernel.reader_active =
      (some sub, (self.accept_subscriber payload kernel.reader_active).2) := Prod.ext haccept rfl
  obtain ⟨found, hparse, hadmits, _⟩ := admits_of_accept_subscriber hpair
  obtain rfl : request = found := Except.ok.inj (hsubscribed.parsed.symm.trans hparse)
  have hnames : is_valid_identifier request.client_id = true ∧ is_valid_identifier request.topic = true := by
    simp only [admits, Bool.and_eq_true] at hadmits
    exact hadmits.1.1
  rw [hsubscribed.sub_eq]
  exact ⟨rfl, hnames.1, hnames.2, ⟨request.pid, rfl⟩, action, payload, kernel, effects, request,
    List.mem_append_right _ List.mem_cons_self, haction, hparse, rfl⟩

/-- Only a SUBSCRIBE writes names, prefixes and paths. -/
theorem handle_request_recorded {self : Server H} {labels : List (Event × List Effect)}
    (hindex : ∀ client_id recorded, self.client_index.find client_id = some recorded →
      Recorded labels client_id recorded)
    (action : UInt8) (payload : Bytes) (kernel : Kernel) {client_id : Bytes} {recorded : ClientMetadata}
    (hfind : (self.handle_request action payload kernel).1.client_index.find client_id = some recorded) :
    Recorded (labels ++ [(.request action payload kernel, (self.handle_request action payload kernel).2)])
      client_id recorded := by
  have hkept : self.client_index.find client_id = some recorded → Recorded
      (labels ++ [(.request action payload kernel, (self.handle_request action payload kernel).2)])
      client_id recorded :=
    fun hsame => (hindex client_id recorded hsame).updated _ recorded.offset recorded.is_active
  cases self.handle_request_handled action payload kernel with
  | quiet hquiet =>
    rw [hquiet.client_index] at hfind
    exact hkept hfind
  | subscribed sub request haction haccept hsubscribed =>
    rw [hsubscribed.index] at hfind
    split at hfind
    · rename_i hsame
      cases hfind
      rw [hsame]
      exact hsubscribed.recorded haction haccept labels
    · exact hkept hfind
  | committed other next_offset old haction hcommitted =>
    rw [hcommitted.index] at hfind
    split at hfind
    · rename_i hsame
      cases hfind
      rw [hsame]
      exact (hindex other old hcommitted.known).updated _ next_offset old.is_active
    · exact hkept hfind
  | disconnected other old haction hdisconnected =>
    rw [hdisconnected.index] at hfind
    split at hfind
    · rename_i hsame
      cases hfind
      rw [hsame]
      exact (hindex other old hdisconnected.known).updated _ old.offset false
    · exact hkept hfind

theorem recorded_of_run {labels : List (Event × List Effect)} {reached : Server H}
    (hrun : Run Step new labels reached) {client_id : Bytes} {recorded : ClientMetadata}
    (hfind : reached.client_index.find client_id = some recorded) : Recorded labels client_id recorded := by
  refine hrun.history (P := fun past t => ∀ client_id recorded, t.client_index.find client_id = some recorded →
    Recorded past client_id recorded) ?_ ?_ client_id recorded hfind
  · intro client_id recorded hfind
    simp [new] at hfind
  · intro past before label next hindex hstep client_id recorded hfind
    cases hstep with
    | request action payload kernel => exact handle_request_recorded hindex action payload kernel hfind
    | pass => exact (hindex client_id recorded hfind).updated _ recorded.offset recorded.is_active

theorem plain_of_valid {str : Bytes} (hvalid : is_valid_identifier str = true) : Json.Plain str := by
  unfold is_valid_identifier at hvalid
  split at hvalid
  · cases hvalid
  · refine .of_ascii fun b hb => ?_
    have hchar := List.all_eq_true.mp hvalid b hb
    grind [isalnum]

theorem plain_client_fifo_path (client_pid : UInt32) : Json.Plain (client_fifo_path client_pid) := by
  refine .of_ascii fun b hb => ?_
  rcases List.mem_append.mp hb with hstart | hnumber
  · have hall : ∀ b ∈ ascii "/tmp/treenity.client.", 0x20 ≤ b ∧ b ≤ 0x7F ∧ b ≠ 34 ∧ b ≠ 92 := by
      decide +kernel
    exact hall b hstart
  · have hdigit := to_string_digits client_pid b hnumber
    grind

/-- The answer from the name of the prefix on. -/
def info_tail (recorded : ClientMetadata) : Bytes :=
  34 :: (ascii "prefix" ++ 34 :: 58 :: 34 :: (recorded.pref ++ 34 :: 44 :: 34 ::
    (ascii "ipc" ++ 34 :: 58 :: 34 :: (recorded.ipc_path ++ 34 :: 125 :: []))))

theorem info_json_eq (recorded : ClientMetadata) :
    info_json recorded =
      123 :: 34 :: (ascii "client" ++ 34 :: 58 :: 34 :: (recorded.client_id ++ 34 :: 44 :: 34 ::
        (ascii "topic" ++ 34 :: 58 :: 34 :: (recorded.topic ++ 34 :: 44 :: 34 ::
          (ascii "offset" ++ 34 :: 58 :: (to_string recorded.offset ++ 44 :: info_tail recorded)))))) := by
  have hclient : ascii "\x7b\"client\":\"" = 123 :: 34 :: (ascii "client" ++ [34, 58, 34]) := by decide
  have htopic : ascii "\",\"topic\":\"" = 34 :: 44 :: 34 :: (ascii "topic" ++ [34, 58, 34]) := by decide
  have hoffset : ascii "\",\"offset\":" = 34 :: 44 :: 34 :: (ascii "offset" ++ [34, 58]) := by decide
  have hpref : ascii ",\"prefix\":\"" = 44 :: 34 :: (ascii "prefix" ++ [34, 58, 34]) := by decide
  have hipc : ascii "\",\"ipc\":\"" = 34 :: 44 :: 34 :: (ascii "ipc" ++ [34, 58, 34]) := by decide
  have hend : ascii "\"\x7d" = [34, 125] := by decide
  rw [info_json, info_tail, hclient, htopic, hoffset, hpref, hipc, hend]
  simp only [List.cons_append, List.append_assoc, List.nil_append]

theorem read_to_string (number : UInt32) (fuel : Nat) (left : Bytes) :
    Json.read_value (fuel + 1) (to_string number ++ 44 :: left) =
      some (.number (to_string number), 44 :: left) := by
  refine Json.read_value_digits (fun b hb => ?_) (to_string_ne_nil number) to_string_head_zero fuel left
  obtain ⟨hge, hle⟩ := to_string_digits number b hb
  simp [Json.is_digit, hge, hle]

theorem plain_member_names : ∀ name ∈ ["client", "topic", "offset", "prefix", "ipc"], Json.Plain (ascii name) := by
  intro name hname
  refine .of_ascii ?_
  revert name
  decide +kernel

/-- Up to the prefix the answer reads as the record of a checked client. -/
theorem read_info {labels : List (Event × List Effect)} {client_id : Bytes} {recorded : ClientMetadata}
    (hrecorded : Recorded labels client_id recorded) :
    ∃ fuel, Json.read_value ((info_json recorded).length + 1) (info_json recorded) =
      (Json.read_members (fuel + 3) (info_tail recorded)).map fun read =>
        (.object ((ascii "client", .string recorded.client_id) :: (ascii "topic", .string recorded.topic) ::
          (ascii "offset", .number (to_string recorded.offset)) :: read.1), read.2) := by
  obtain ⟨fuel, hfuel⟩ : ∃ fuel, (info_json recorded).length + 1 = fuel + 7 := by
    refine ⟨(info_json recorded).length - 6, ?_⟩
    rw [info_json_eq]
    simp only [List.length_cons, List.length_append]
    omega
  have hclient : Json.Plain recorded.client_id := by
    rw [hrecorded.client]
    exact plain_of_valid hrecorded.client_valid
  have htopic := plain_of_valid hrecorded.topic_valid
  refine ⟨fuel, ?_⟩
  rw [hfuel, info_json_eq, Json.read_value_object,
    Json.read_members_more (plain_member_names "client" (by decide)) (Json.read_value_plain hclient _ _),
    Json.read_members_more (plain_member_names "topic" (by decide)) (Json.read_value_plain htopic _ _),
    Json.read_members_more (plain_member_names "offset" (by decide)) (read_to_string _ _ _)]
  simp only [Option.map_map, Function.comp_def]

/-- A plain prefix is told as it is. -/
theorem info_described {labels : List (Event × List Effect)} {client_id : Bytes} {recorded : ClientMetadata}
    (hrecorded : Recorded labels client_id recorded)
    (hpref : Json.Plain recorded.pref) :
    Json.read (info_json recorded) = some (.object (info_members recorded)) := by
  obtain ⟨fuel, hread⟩ := read_info hrecorded
  have hpath : Json.Plain recorded.ipc_path := by
    obtain ⟨pid, hpid⟩ := hrecorded.ipc_path
    rw [hpid]
    exact plain_client_fifo_path pid
  rw [info_tail, Json.read_members_more (plain_member_names "prefix" (by decide)) (Json.read_value_plain hpref _ _),
    Json.read_members_last (plain_member_names "ipc" (by decide)) (Json.read_value_plain hpath _ _)] at hread
  rw [Json.read, hread]
  rfl

/-- A prefix that is told as it is is plain. -/
theorem plain_of_described {labels : List (Event × List Effect)} {client_id : Bytes} {recorded : ClientMetadata}
    (hrecorded : Recorded labels client_id recorded)
    (hdescribes : Describes (info_json recorded) (info_members recorded)) : Json.Plain recorded.pref := by
  obtain ⟨found, hjson, hmembers⟩ := hdescribes
  obtain ⟨fuel, hread⟩ := read_info hrecorded
  rw [Json.read, hread] at hjson
  cases htail : Json.read_members (fuel + 3) (info_tail recorded) with
  | none =>
    rw [htail] at hjson
    cases hjson
  | some tail =>
    obtain ⟨value, rest, hvalue, hmem⟩ :=
      Json.read_members_some (plain_member_names "prefix" (by decide)) htail
    rw [Json.read_value_string] at hvalue
    obtain ⟨⟨chars, left⟩, hchars, heq⟩ := Option.map_eq_some_iff.mp hvalue
    obtain ⟨rfl, rfl⟩ := Prod.mk.inj heq
    have hfound : (ascii "prefix", Json.string chars) ∈ info_members recorded := by
      rw [← hmembers]
      rw [htail] at hjson
      simp only [Option.map_some, Option.ite_none_right_eq_some, Option.some.injEq, Json.object.injEq] at hjson
      rw [← hjson.2]
      exact List.mem_cons_of_mem _ (List.mem_cons_of_mem _ (List.mem_cons_of_mem _ hmem))
    have hsame : chars = recorded.pref := by
      have hnames : ascii "prefix" ≠ ascii "client" ∧ ascii "prefix" ≠ ascii "topic" ∧
          ascii "prefix" ≠ ascii "ipc" := by decide
      simpa [info_members, hnames] using hfound
    rcases Json.read_chars_quoted hchars with ⟨hplain, _⟩ | hless | ⟨htext, hlast⟩
    · exact hplain
    · rw [hsame] at hless
      exact absurd hless (Nat.lt_irrefl _)
    · rw [hsame, htext] at hlast
      exact absurd hlast (by decide)

/-- In every reachable state INFO answers about a recorded client with a JSON object of its five
members exactly when its prefix is plain; so it always does when all prefixes are. -/
theorem info_described_iff {labels : List (Event × List Effect)} {reached : Server H}
    (hrun : Run Step new labels reached) :
    (∀ payload client_pid client_id recorded, Request.parse_info payload = .ok (client_pid, client_id) →
      reached.client_index.find client_id = some recorded →
        (reached.handle_info payload).2 = [send_response client_pid .SUCCESS (info_json recorded)] ∧
        (Describes (info_json recorded) (info_members recorded) ↔ Json.Plain recorded.pref)) ∧
      (PlainSubscribes labels → ∀ client_id recorded, reached.client_index.find client_id = some recorded →
        Describes (info_json recorded) (info_members recorded)) := by
  have hdescribed : ∀ {client_id recorded}, reached.client_index.find client_id = some recorded →
      Json.Plain recorded.pref → Describes (info_json recorded) (info_members recorded) := by
    intro client_id recorded hfind hplain
    exact ⟨_, info_described (recorded_of_run hrun hfind) hplain, fun member => Iff.rfl⟩
  constructor
  · intro payload client_pid client_id recorded hparse hfind
    refine ⟨by simp only [handle_info, hparse, hfind], ?_, hdescribed hfind⟩
    exact plain_of_described (recorded_of_run hrun hfind)
  · intro hplain client_id recorded hfind
    obtain ⟨action, payload, kernel, effects, request, hmem, haction, hparse, hpref⟩ :=
      (recorded_of_run hrun hfind).pref
    apply hdescribed hfind
    rw [hpref]
    exact hplain action payload kernel effects request hmem haction hparse

/-- The server after a CREATE and a SUBSCRIBE with a prefix. -/
def subscribed_with (pref : Bytes) : Server ⟨List.length, UInt8.toNat, UInt32.toNat⟩ :=
  let created := (new.handle_request 1 (Request.named_payload 7 (ascii "t")) ⟨fun _ => true, fun _ => none⟩).1
  (created.handle_request 6 (Request.subscribe_payload ⟨7, ascii "s", ascii "t", pref, 0⟩)
    ⟨fun _ => true, fun _ => none⟩).1

theorem subscribed_with_run (pref : Bytes) : ∃ labels, Run Step new labels (subscribed_with pref) :=
  ⟨_, .snoc (.snoc (.nil _) (.request _ 1 _ _)) (.request _ 6 _ _)⟩

/-- A prefix of two letters. -/
theorem info_described_letters :
    Describes (info_json ⟨ascii "s", ascii "t", 0, ascii "ab", client_fifo_path 7, true⟩)
      (info_members ⟨ascii "s", ascii "t", 0, ascii "ab", client_fifo_path 7, true⟩) := by
  obtain ⟨labels, hrun⟩ := subscribed_with_run (ascii "ab")
  have hanswer := (info_described_iff hrun).1 (Request.named_payload 8 (ascii "s")) 8 (ascii "s")
    ⟨ascii "s", ascii "t", 0, ascii "ab", client_fifo_path 7, true⟩ (by decide +kernel) (by decide +kernel)
  exact hanswer.2.mpr (.of_ascii (by decide +kernel))

/-- A prefix that is a quotation mark makes the answer no JSON text at all. -/
theorem info_quote_unread :
    ∃ labels recorded, Run Step new labels (subscribed_with [34]) ∧
      (subscribed_with [34]).client_index.find (ascii "s") = some recorded ∧
      ((subscribed_with [34]).handle_info (Request.named_payload 8 (ascii "s"))).2 =
        [send_response 8 .SUCCESS (info_json recorded)] ∧
      ¬ Describes (info_json recorded) (info_members recorded) := by
  obtain ⟨labels, hrun⟩ := subscribed_with_run [34]
  let recorded : ClientMetadata := ⟨ascii "s", ascii "t", 0, [34], client_fifo_path 7, true⟩
  refine ⟨labels, recorded, hrun, by decide +kernel, by decide +kernel, ?_⟩
  rintro ⟨found, hread, _⟩
  have hnone : (Json.read (info_json recorded)).isNone = true := by decide +kernel
  rw [hread] at hnone
  cases hnone

end treenity.server.Server

import Treenity.Client.Offset

open treenity.protocol treenity.ipc

namespace treenity.client

/-- An option of the subscribe command with its value, if it takes one. -/
inductive OptionGroup where
  | raw
  | pref (value : Bytes)
  | offset (value : Bytes)

namespace OptionGroup

def kind : OptionGroup → SubscribeOption
  | raw => .raw
  | pref _ => .pref
  | offset _ => .offset

/-- The arguments a group consists of. -/
def args : OptionGroup → List Bytes
  | raw => [ascii "--raw"]
  | pref value => [ascii "--prefix", value]
  | offset value => [ascii "--offset", value]

/-- What a group does to the command. -/
def apply (command : Command) : OptionGroup → Command
  | raw => { command with raw := true }
  | pref value => { command with pref := value }
  | offset value => { command with offset := to_uint32 (decimal value), has_offset := true }

/-- An offset has to be a numeral; any value is a prefix. -/
def Sound : OptionGroup → Prop
  | offset value => Numeral value
  | _ => True

end OptionGroup

/-- Groups of different kinds, each of them sound. -/
structure Groups (groups : List OptionGroup) : Prop where
  once : (groups.map OptionGroup.kind).Nodup
  sound : ∀ group ∈ groups, group.Sound

/-- The options that the loop has been through. The mark of `--raw` is the field itself. -/
def seen (command : Command) (prefix_seen offset_seen : Bool) : SubscribeOption → Prop
  | .raw => command.raw = true
  | .pref => prefix_seen = true
  | .offset => offset_seen = true

/-- No group repeats an option that was there before. -/
def Unused (before : SubscribeOption → Prop) (groups : List OptionGroup) : Prop :=
  ∀ group ∈ groups, ¬before group.kind

theorem groups_cons_iff (before : SubscribeOption → Prop) (group : OptionGroup) (groups : List OptionGroup) :
    Groups (group :: groups) ∧ Unused before (group :: groups) ↔
      group.Sound ∧ ¬before group.kind ∧
        Groups groups ∧ Unused (fun kind => kind = group.kind ∨ before kind) groups := by
  constructor
  · rintro ⟨⟨honce, hsound⟩, hunused⟩
    rw [List.map_cons, List.nodup_cons] at honce
    obtain ⟨hgroup, hsounds⟩ := List.forall_mem_cons.mp hsound
    obtain ⟨hnew, hlater⟩ := List.forall_mem_cons.mp hunused
    refine ⟨hgroup, hnew, ⟨honce.2, hsounds⟩, ?_⟩
    rintro other hother (hsame | hbefore)
    · exact honce.1 (hsame ▸ List.mem_map_of_mem hother)
    · exact hlater other hother hbefore
  · rintro ⟨hgroup, hnew, ⟨honce, hsounds⟩, hunused⟩
    refine ⟨⟨?_, List.forall_mem_cons.mpr ⟨hgroup, hsounds⟩⟩, List.forall_mem_cons.mpr ⟨hnew, ?_⟩⟩
    · rw [List.map_cons, List.nodup_cons]
      refine ⟨fun hmem => ?_, honce⟩
      obtain ⟨other, hother, hsame⟩ := List.mem_map.mp hmem
      exact hunused other hother (.inl hsame)
    · exact fun other hother hbefore => hunused other hother (.inr hbefore)

@[simp] theorem subscribe_option_raw : subscribe_option (ascii "--raw") = some .raw := if_pos rfl

@[simp] theorem subscribe_option_pref : subscribe_option (ascii "--prefix") = some .pref := by
  rw [subscribe_option, if_neg (by decide +kernel), if_pos rfl]

@[simp] theorem subscribe_option_offset : subscribe_option (ascii "--offset") = some .offset := by
  rw [subscribe_option, if_neg (by decide +kernel), if_neg (by decide +kernel), if_pos rfl]

theorem subscribe_option_some {option : Bytes} {kind : SubscribeOption} (hoption : subscribe_option option = some kind) :
    option = match kind with
      | .raw => ascii "--raw"
      | .pref => ascii "--prefix"
      | .offset => ascii "--offset" := by
  unfold subscribe_option at hoption
  split at hoption
  · rename_i heq
    obtain rfl := Option.some.inj hoption
    exact heq
  · split at hoption
    · rename_i heq
      obtain rfl := Option.some.inj hoption
      exact heq
    · split at hoption
      · rename_i heq
        obtain rfl := Option.some.inj hoption
        exact heq
      · cases hoption

/-- Options that are accepted can be cut into groups. -/
theorem parse_options_cut {command result : Command} {prefix_seen offset_seen : Bool} {options : List Bytes}
    (hparse : parse_options command prefix_seen offset_seen options = .ok result) :
    ∃ groups : List OptionGroup, options = groups.flatMap OptionGroup.args := by
  fun_induction parse_options command prefix_seen offset_seen options with
  | case1 => exact ⟨[], rfl⟩
  | case3 _ _ _ _ _ hoption _ ih =>
    obtain ⟨groups, rfl⟩ := ih hparse
    exact ⟨.raw :: groups, congrArg (· :: _) (subscribe_option_some hoption)⟩
  | case4 _ _ _ hoption value _ ih =>
    obtain ⟨groups, rfl⟩ := ih hparse
    exact ⟨.pref value :: groups, congrArg (· :: _) (subscribe_option_some hoption)⟩
  | case6 _ _ _ hoption value _ _ _ ih =>
    obtain ⟨groups, rfl⟩ := ih hparse
    exact ⟨.offset value :: groups, congrArg (· :: _) (subscribe_option_some hoption)⟩
  | _ => cases hparse

/-- A turn of the loop on each kind of group. -/
theorem parse_options_raw (command : Command) (prefix_seen offset_seen : Bool) (rest : List Bytes) :
    parse_options command prefix_seen offset_seen (ascii "--raw" :: rest) =
      if command.raw then .error (ascii "duplicate --raw option")
      else parse_options { command with raw := true } prefix_seen offset_seen rest := by
  conv_lhs => unfold parse_options
  rw [subscribe_option_raw]

theorem parse_options_pref_value (command : Command) (prefix_seen offset_seen : Bool) (value : Bytes)
    (rest : List Bytes) :
    parse_options command prefix_seen offset_seen (ascii "--prefix" :: value :: rest) =
      if prefix_seen then .error prefix_error
      else parse_options { command with pref := value } true offset_seen rest := by
  conv_lhs => unfold parse_options
  rw [subscribe_option_pref]
  cases prefix_seen <;> rfl

theorem parse_options_offset_value (command : Command) (prefix_seen offset_seen : Bool) (value : Bytes)
    (rest : List Bytes) :
    parse_options command prefix_seen offset_seen (ascii "--offset" :: value :: rest) =
      if offset_seen then .error offset_error
      else
        match parse_offset value with
        | some offset => parse_options { command with offset, has_offset := true } prefix_seen true rest
        | none => .error offset_error := by
  conv_lhs => unfold parse_options
  rw [subscribe_option_offset]
  cases offset_seen <;> rfl

/-- A turn that is an error on a repeated option and else goes on with the rest accepts a group
that is new and sound. -/
theorem accepts_group_iff {before : SubscribeOption → Prop} {group : OptionGroup} {groups : List OptionGroup}
    {used : Bool} {error : Bytes} {next : Except Bytes Command} {command result : Command}
    (hused : before group.kind ↔ used = true)
    (hnext : next = .ok result ↔ group.Sound ∧
      (Groups groups ∧ Unused (fun kind => kind = group.kind ∨ before kind) groups) ∧ result = command) :
    (if used then .error error else next) = .ok result ↔
      (Groups (group :: groups) ∧ Unused before (group :: groups)) ∧ result = command := by
  rw [groups_cons_iff]
  cases used with
  | true =>
    have hbefore : before group.kind := hused.mpr rfl
    exact iff_of_false nofun fun hall => hall.1.2.1 hbefore
  | false =>
    have hnew : ¬before group.kind := fun hbefore => Bool.false_ne_true (hused.mp hbefore)
    rw [if_neg Bool.false_ne_true, hnext, and_iff_right hnew, ← and_assoc]

/-- The loop accepts groups of different kinds that are sound and new, and applies them in turn. -/
theorem parse_options_groups (groups : List OptionGroup) (command : Command) (prefix_seen offset_seen : Bool)
    (result : Command) :
    parse_options command prefix_seen offset_seen (groups.flatMap OptionGroup.args) = .ok result ↔
      (Groups groups ∧ Unused (seen command prefix_seen offset_seen) groups) ∧
        result = groups.foldl OptionGroup.apply command := by
  induction groups generalizing command prefix_seen offset_seen with
  | nil =>
    have hnone : Groups [] ∧ Unused (seen command prefix_seen offset_seen) [] := ⟨⟨List.nodup_nil, nofun⟩, nofun⟩
    have hend : parse_options command prefix_seen offset_seen [] = .ok command := rfl
    rw [and_iff_right hnone, List.flatMap_nil, hend, Except.ok.injEq, List.foldl_nil, eq_comm]
  | cons group groups ih =>
    rw [List.flatMap_cons, List.foldl_cons]
    cases group with
    | raw =>
      have hmark : seen { command with raw := true } prefix_seen offset_seen =
          fun kind => kind = .raw ∨ seen command prefix_seen offset_seen kind := by
        funext kind
        cases kind <;> simp [seen]
      have hsound : OptionGroup.raw.Sound := trivial
      rw [OptionGroup.args, List.singleton_append, parse_options_raw]
      apply accepts_group_iff Iff.rfl
      rw [and_iff_right hsound, ih, hmark]
      rfl
    | pref value =>
      have hmark : seen { command with pref := value } true offset_seen =
          fun kind => kind = .pref ∨ seen command prefix_seen offset_seen kind := by
        funext kind
        cases kind <;> simp [seen]
      have hsound : (OptionGroup.pref value).Sound := trivial
      rw [OptionGroup.args, List.cons_append, List.singleton_append, parse_options_pref_value]
      apply accepts_group_iff Iff.rfl
      rw [and_iff_right hsound, ih, hmark]
      rfl
    | offset value =>
      have hmark : ∀ offset, seen { command with offset, has_offset := true } prefix_seen true =
          fun kind => kind = .offset ∨ seen command prefix_seen offset_seen kind := by
        intro offset
        funext kind
        cases kind <;> simp [seen]
      rw [OptionGroup.args, List.cons_append, List.singleton_append, parse_options_offset_value]
      apply accepts_group_iff Iff.rfl
      cases hvalue : parse_offset value with
      | none =>
        refine iff_of_false nofun fun hall => ?_
        have hsome := (parse_offset_iff value _).mpr ⟨hall.1, rfl⟩
        rw [hvalue] at hsome
        cases hsome
      | some offset =>
        obtain ⟨hnumeral, rfl⟩ := (parse_offset_iff value offset).mp hvalue
        have hsound : (OptionGroup.offset value).Sound := hnumeral
        dsimp only
        rw [and_iff_right hsound, ih, hmark]
        rfl

/-- A subscribe command line: the arguments before the options and the options in groups. -/
structure SubscribeLine where
  program : Bytes
  ipc_identifier : Bytes
  topic : Bytes
  subscriber : Bytes
  groups : List OptionGroup

namespace SubscribeLine

def argv (self : SubscribeLine) : List Bytes :=
  self.program :: self.ipc_identifier :: ascii "subscribe" :: self.topic :: self.subscriber ::
    self.groups.flatMap OptionGroup.args

/-- The command before the options are applied. -/
def start (self : SubscribeLine) : Command :=
  { make_empty_command with
    ipc_identifier := self.ipc_identifier
    type := .SUBSCRIBE
    topic := self.topic
    subscriber := self.subscriber }

/-- Names that are valid, and options that can be cut into groups as they should. -/
structure Sound (line : SubscribeLine) : Prop where
  topic : is_valid_name line.topic = true
  subscriber : is_valid_name line.subscriber = true
  groups : Groups line.groups

/-- Only the operation decides how a command line with an IPC identifier goes on. -/
theorem parse_command_operation (program : Bytes) {ipc_identifier : Bytes} (hipc : ipc_identifier ≠ [])
    (args : List Bytes) :
    parse_command (program :: ipc_identifier :: ascii "subscribe" :: args) =
      parse_subscribe { make_empty_command with ipc_identifier, type := .SUBSCRIBE } args := by
  unfold parse_command
  dsimp only
  rw [if_neg (by simpa using hipc), if_neg (by decide +kernel), if_neg (by decide +kernel),
    if_neg (by decide +kernel), if_pos rfl]

/-- A line is accepted when it has an IPC identifier and is sound; the groups then make the command. -/
theorem parse_command_argv_iff (self : SubscribeLine) (command : Command) :
    parse_command self.argv = .ok command ↔
      (self.ipc_identifier ≠ [] ∧ self.Sound) ∧ command = self.groups.foldl OptionGroup.apply self.start := by
  by_cases hipc : self.ipc_identifier = []
  · have herror : parse_command self.argv = .error (ascii "invalid IPC identifier") :=
      if_pos (List.isEmpty_iff.mpr hipc)
    rw [herror]
    exact iff_of_false nofun fun hall => hall.1.1 hipc
  · have hsubscribe : parse_command self.argv =
        if !is_valid_name self.topic then .error (ascii "invalid topic name")
        else if !is_valid_name self.subscriber then .error (ascii "invalid subscriber name")
        else parse_options self.start false false (self.groups.flatMap OptionGroup.args) :=
      parse_command_operation self.program hipc _
    rw [hsubscribe]
    cases htopic : is_valid_name self.topic with
    | false => exact iff_of_false nofun fun hall => absurd (htopic.symm.trans hall.1.2.topic) nofun
    | true =>
      cases hsubscriber : is_valid_name self.subscriber with
      | false => exact iff_of_false nofun fun hall => absurd (hsubscriber.symm.trans hall.1.2.subscriber) nofun
      | true =>
        have hfresh : Unused (seen self.start false false) self.groups := by
          intro group _ hseen
          cases hkind : group.kind <;> rw [hkind] at hseen <;> cases hseen
        rw [Bool.not_true, if_neg Bool.false_ne_true, if_neg Bool.false_ne_true, parse_options_groups,
          and_iff_left hfresh]
        exact and_congr_left' ⟨fun hgroups => ⟨hipc, htopic, hsubscriber, hgroups⟩, fun hall => hall.2.groups⟩

/-- What `parse_subscribe` accepts are two names and groups. -/
theorem parse_subscribe_cut {command result : Command} {args : List Bytes}
    (hparse : parse_subscribe command args = .ok result) :
    ∃ (topic subscriber : Bytes) (groups : List OptionGroup),
      args = topic :: subscriber :: groups.flatMap OptionGroup.args := by
  unfold parse_subscribe at hparse
  split at hparse
  · rename_i topic subscriber options
    dsimp only at hparse
    split at hparse
    · cases hparse
    · split at hparse
      · cases hparse
      · obtain ⟨groups, rfl⟩ := parse_options_cut hparse
        exact ⟨topic, subscriber, groups, rfl⟩
  · cases hparse

/-- Only the operation `subscribe` makes a subscribe command. -/
theorem parse_command_subscribes {argv : List Bytes} {command : Command} (hparse : parse_command argv = .ok command)
    (htype : command.type = .SUBSCRIBE) :
    ∃ (program ipc_identifier : Bytes) (args : List Bytes), argv = program :: ipc_identifier :: ascii "subscribe" :: args ∧
      parse_subscribe { make_empty_command with ipc_identifier, type := .SUBSCRIBE } args = .ok command := by
  unfold parse_command at hparse
  split at hparse
  · rename_i program ipc_identifier operation args
    dsimp only at hparse
    split at hparse
    · cases hparse
    split at hparse
    · split at hparse
      · split at hparse
        · cases hparse
          cases htype
        · cases hparse
      · cases hparse
    split at hparse
    · split at hparse
      · cases hparse
        cases htype
      · cases hparse
    split at hparse
    · split at hparse
      · split at hparse
        · cases hparse
          cases htype
        · cases hparse
      · split at hparse
        · cases hparse
        · split at hparse
          · cases hparse
          · cases hparse
            cases htype
      · cases hparse
    split at hparse
    · rename_i hoperation
      exact ⟨program, ipc_identifier, args, by rw [hoperation], hparse⟩
    split at hparse
    · split at hparse
      · split at hparse
        · cases hparse
          cases htype
        · cases hparse
      · cases hparse
    · cases hparse
  · cases hparse

/-- An accepted subscribe command has such a line. -/
theorem exists_of_parse_command {argv : List Bytes} {command : Command} (hparse : parse_command argv = .ok command)
    (htype : command.type = .SUBSCRIBE) : ∃ line : SubscribeLine, argv = line.argv := by
  obtain ⟨program, ipc_identifier, args, rfl, hsubscribe⟩ := parse_command_subscribes hparse htype
  obtain ⟨topic, subscriber, groups, rfl⟩ := parse_subscribe_cut hsubscribe
  exact ⟨⟨program, ipc_identifier, topic, subscriber, groups⟩, rfl⟩

/-- The order in which groups of different kinds are applied does not matter. -/
theorem foldl_apply_perm {groups others : List OptionGroup} (hperm : groups.Perm others) (hgroups : Groups groups)
    (command : Command) : groups.foldl OptionGroup.apply command = others.foldl OptionGroup.apply command := by
  apply hperm.foldl_eq'
  intro first hfirst second hsecond start
  by_cases hsame : first.kind = second.kind
  · rw [List.inj_on_of_nodup_map hgroups.once hfirst hsecond hsame]
  · cases first <;> cases second <;> first | rfl | exact absurd rfl hsame

theorem foldl_apply_type (groups : List OptionGroup) (command : Command) :
    (groups.foldl OptionGroup.apply command).type = command.type := by
  induction groups generalizing command with
  | nil => rfl
  | cons group groups ih =>
    rw [List.foldl_cons, ih]
    cases group <;> rfl

/-- `parse_command` accepts a subscribe command exactly when there is an IPC identifier, the names are
valid and the other arguments can be cut into groups, each kind used once at most; and lines
that differ in the order of their groups only make the same command. -/
theorem parse_command_subscribe_iff (argv : List Bytes) :
    ((∃ command, parse_command argv = .ok command ∧ command.type = .SUBSCRIBE) ↔
      ∃ line : SubscribeLine, argv = line.argv ∧ line.ipc_identifier ≠ [] ∧ line.Sound) ∧
    ∀ (line : SubscribeLine) (groups : List OptionGroup) (command other : Command), argv = line.argv →
      line.groups.Perm groups → parse_command argv = .ok command →
        parse_command { line with groups }.argv = .ok other → command = other := by
  refine ⟨⟨?_, ?_⟩, ?_⟩
  · rintro ⟨command, hparse, htype⟩
    obtain ⟨line, rfl⟩ := exists_of_parse_command hparse htype
    obtain ⟨hsound, _⟩ := (line.parse_command_argv_iff command).mp hparse
    exact ⟨line, rfl, hsound⟩
  · rintro ⟨line, rfl, hsound⟩
    exact ⟨_, (line.parse_command_argv_iff _).mpr ⟨hsound, rfl⟩, foldl_apply_type line.groups line.start⟩
  · rintro line groups command other rfl hperm hparse hother
    obtain ⟨⟨_, hsound⟩, rfl⟩ := (line.parse_command_argv_iff command).mp hparse
    obtain ⟨_, rfl⟩ := (parse_command_argv_iff { line with groups } other).mp hother
    exact foldl_apply_perm hperm hsound.groups line.start

/-- Valid names and no options do not help a line whose IPC identifier is empty. -/
theorem parse_command_no_identifier :
    ¬∀ line : SubscribeLine, (∃ command, parse_command line.argv = .ok command) ↔ line.Sound := by
  intro hall
  have hsound : Sound ⟨ascii "client", [], ascii "topic", ascii "reader", []⟩ :=
    ⟨by decide +kernel, by decide +kernel, List.nodup_nil, nofun⟩
  obtain ⟨command, hparse⟩ := (hall _).mpr hsound
  exact absurd hparse (by rw [parse_command_argv_iff]; exact fun haccepted => haccepted.1.1 rfl)

end SubscribeLine

end treenity.client

import Treenity.Client.Process
import Treenity.Ipc.Ownership

open treenity.foundation treenity.protocol treenity.ipc treenity.server

namespace treenity.client.Process

variable {passes : Bytes → Bytes → Nat} {held : List Nat} {paths : List Bytes} {α β : Type}

/-- A program that owes at its end what it owed at its start. -/
def Keeps (passes : Bytes → Bytes → Nat) (held : List Nat) (paths : List Bytes) (program : Calls α) : Prop :=
  Owes passes held paths program (fun _ => held) (fun _ => paths)

theorem keeps_return (value : α) : Keeps passes held paths (pure value) := owes_return _ (.refl _) fun _ hpath => hpath

theorem Keeps.bind {first : Calls β} {next : β → Calls α} (hfirst : Keeps passes held paths first)
    (hnext : ∀ value, Keeps passes held paths (next value)) : Keeps passes held paths (first >>= next) :=
  Owes.bind hfirst hnext

theorem keeps_loop {body : Unit → Calls (Unit ⊕ α)} (hbody : Keeps passes held paths (body ())) :
    Keeps passes held paths (.loop body ()) := by
  refine owes_loop (fun _ => held) (fun _ => paths) (fun _ => ?_) ()
  refine Program.Meets.weaken hbody (fun _ hw => hw) (fun _ hw => hw) fun outcome _ hw => ?_
  cases outcome <;> exact hw

theorem keeps_silent {call : Call} (hquiet : call.quiet = true) (hnone : call.touches = none) :
    Keeps passes held paths (ask call) := owes_silent hquiet hnone

/-- An error is reported, and the program goes on to return. -/
theorem keeps_report (text : Bytes) (value : α) :
    Keeps passes held paths (do
      Sys.cerr_write text
      return value) :=
  Keeps.bind (keeps_silent rfl rfl) fun _ => keeps_return value

theorem exchange_over_owes {reader writer : Members} (hreader : ∀ fd ∈ reader.fds, fd ∈ held) (request : Bytes) :
    Owes passes (writer.fds ++ held) paths (exchange_over reader writer request) (fun outcome => outcome.2.fds ++ held)
      (fun _ => paths) := by
  have hdone : ∀ result, Owes passes held paths (pure (result, Members.empty))
      (fun outcome : IpcExchangeResult × Members => outcome.2.fds ++ held) (fun _ => paths) :=
    fun _ => owes_return _ (.refl _) fun _ hpath => hpath
  unfold exchange_over
  split
  · exact owes_return _ (.refl _) fun _ hpath => hpath
  refine (writer.write_exact_owes (fun fd hfd => List.mem_append_left _ hfd) request).bind fun written => ?_
  cases written with
  | false => exact owes_return _ (.refl _) fun _ hpath => hpath
  | true =>
    refine (FifoWriter.close_owes writer).bind fun _ => ?_
    refine (reader.read_exact_owes hreader 5 2000).bind fun answer => ?_
    obtain ⟨ok, header_buf⟩ := answer
    cases ok with
    | false => exact hdone _
    | true =>
      dsimp only
      simp only [Bool.not_true, Bool.false_eq_true, if_false]
      split
      · exact hdone _
      · rename_i header _
        split
        · refine (reader.read_exact_owes hreader header.payload_len.toNat 2000).bind fun answer => ?_
          obtain ⟨ok, payload⟩ := answer
          cases ok with
          | false => exact hdone _
          | true => exact hdone _
        · exact hdone _

theorem exchange_with_owes {reader : Members} (hreader : ∀ fd ∈ reader.fds, fd ∈ held) (server_fifo request : Bytes) :
    Keeps passes held paths (exchange_with reader server_fifo request) := by
  unfold exchange_with
  split
  · exact keeps_return _
  · exact (FifoWriter.open_fifo_owes server_fifo).bind fun writer =>
      (exchange_over_owes hreader request).bind fun outcome =>
        (FifoWriter.close_owes outcome.2).bind fun _ => keeps_return _

/-- Whatever the system answers, an exchange leaves no descriptor open and no FIFO behind. -/
theorem exchange_request_owes (server_fifo : Bytes) (client_pid : UInt32) (request : Bytes) :
    Keeps passes held paths (exchange_request server_fifo client_pid request) := by
  refine (FifoReader.create_owes (client_fifo_path client_pid) true).bind fun reader => ?_
  refine Owes.bind (exchange_with_owes (fun _ hfd => List.mem_append_left _ hfd) server_fifo request) fun _ => ?_
  exact (FifoReader.close_owes reader).bind fun _ => keeps_return _

theorem execute_request_owes (client_pid : UInt32) (command : Command) (request : Bytes) (exit_code : StatusCode → Nat)
    {success : Bytes → Calls Unit} (hsuccess : ∀ payload, Keeps passes held paths (success payload)) :
    Keeps passes held paths (execute_request client_pid command request exit_code success) := by
  refine Keeps.bind (exchange_request_owes _ _ _) fun exchange => ?_
  split
  · exact keeps_report _ _
  · split
    · exact keeps_report _ _
    · exact (hsuccess _).bind fun _ => keeps_return _

theorem write_output_owes (payload : Bytes) : Keeps passes held paths (write_output payload) := by
  have hlast : Keeps passes held paths (do let _ ← Sys.cout_write [10]) :=
    Keeps.bind (keeps_silent rfl rfl) fun _ => keeps_return _
  unfold write_output
  split
  · exact Keeps.bind (keeps_silent rfl rfl) fun _ => hlast
  · exact hlast

theorem execute_create_command_owes (client_pid : UInt32) (command : Command) :
    Keeps passes held paths (execute_create_command client_pid command) :=
  execute_request_owes _ _ _ _ fun _ => Keeps.bind (keeps_silent rfl rfl) fun _ =>
    Keeps.bind (keeps_silent rfl rfl) fun _ => keeps_return _

theorem execute_list_command_owes (client_pid : UInt32) (command : Command) :
    Keeps passes held paths (execute_list_command client_pid command) :=
  execute_request_owes _ _ _ _ write_output_owes

theorem execute_info_command_owes (client_pid : UInt32) (command : Command) :
    Keeps passes held paths (execute_info_command client_pid command) :=
  execute_request_owes _ _ _ _ write_output_owes

theorem execute_connect_command_owes (client_pid : UInt32) (command : Command) :
    Keeps passes held paths (execute_connect_command client_pid command) :=
  execute_request_owes _ _ _ _ fun _ => keeps_return _

section Open

variable {reader writer : Members} (hreader : ∀ fd ∈ reader.fds, fd ∈ held) (hwriter : ∀ fd ∈ writer.fds, fd ∈ held)

include hwriter in
/-- A frame is written, or the error is reported. -/
theorem write_frame_owes (frame : Bytes) :
    Keeps passes held paths (do
      if !(← writer.write_exact frame) then
        Sys.cerr_write (ascii "IPC communication error\n")
        return .inr 3
      return (.inl () : Unit ⊕ Nat)) := by
  refine Keeps.bind (writer.write_exact_owes hwriter frame) fun written => ?_
  split
  · exact keeps_report _ _
  · exact keeps_return _

include hwriter in
theorem publish_text_turn_owes (topic : Bytes) : Keeps passes held paths (publish_text_turn topic writer) := by
  refine Keeps.bind (keeps_silent rfl rfl) fun result => ?_
  cases (result : GetlineResult) with
  | eof => exact keeps_return _
  | bad => exact keeps_report _ _
  | line line =>
    dsimp only
    split
    · exact keeps_report _ _
    · split
      · exact keeps_report _ _
      · exact write_frame_owes hwriter _

theorem read_little_endian_int32_owes : Keeps passes held paths read_little_endian_int32 := by
  refine Keeps.bind (keeps_silent rfl rfl) fun answer => ?_
  obtain ⟨bytes, eof⟩ := answer
  dsimp only
  split <;> exact keeps_return _

theorem read_exact_owes (size : Nat) : Keeps passes held paths (read_exact size) := by
  unfold read_exact
  split
  · exact keeps_return _
  · refine Keeps.bind (keeps_silent rfl rfl) fun answer => ?_
    obtain ⟨value, eof⟩ := answer
    dsimp only
    split <;> exact keeps_return _

theorem read_record_owes : Keeps passes held paths read_record := by
  refine read_little_endian_int32_owes.bind fun number => ?_
  split
  · exact keeps_return _
  · exact keeps_report _ _
  · split
    · exact keeps_report _ _
    · refine (read_exact_owes _).bind fun key => ?_
      split
      · exact keeps_report _ _
      · refine read_little_endian_int32_owes.bind fun number => ?_
        split
        · exact keeps_report _ _
        · split
          · exact keeps_report _ _
          · refine (read_exact_owes _).bind fun value => ?_
            split
            · exact keeps_report _ _
            · exact keeps_return _

include hwriter in
theorem publish_raw_turn_owes (topic : Bytes) : Keeps passes held paths (publish_raw_turn topic writer) := by
  refine read_record_owes.bind fun outcome => ?_
  split
  · exact keeps_return _
  · exact write_frame_owes hwriter _

include hwriter in
theorem publish_owes (command : Command) : Keeps passes held paths (publish command writer) := by
  unfold publish
  split
  · exact keeps_report _ _
  · split
    · exact keeps_loop (publish_raw_turn_owes hwriter _)
    · exact keeps_loop (publish_text_turn_owes hwriter _)

include hreader hwriter in
theorem handshake_owes (client_pid : UInt32) (command : Command) :
    Keeps passes held paths (handshake client_pid command reader writer) := by
  refine Keeps.bind (writer.write_exact_owes hwriter _) fun written => ?_
  split
  · exact keeps_report _ _
  · refine Keeps.bind (reader.read_exact_owes hreader 5 2000) fun answer => ?_
    split
    split
    · exact keeps_report _ _
    · split
      · exact keeps_report _ _
      · split
        · refine Keeps.bind (reader.read_exact_owes hreader _ 2000) fun answer => ?_
          split
          split
          · exact keeps_report _ _
          · exact keeps_return _
        · split <;> exact keeps_return _

include hreader in
theorem read_part_owes (length : UInt32) : Keeps passes held paths (read_part reader length) := by
  unfold read_part
  split
  · refine Keeps.bind (reader.read_exact_owes hreader _ 1000) fun answer => ?_
    split
    split <;> exact keeps_return _
  · exact keeps_return _

theorem write_all_owes (chunks : List Bytes) : Keeps passes held paths (write_all chunks) := by
  induction chunks with
  | nil => exact keeps_return _
  | cons bytes rest ih =>
    refine Keeps.bind (keeps_silent rfl rfl) fun good => ?_
    split
    · exact keeps_return _
    · exact ih

theorem print_message_owes (raw : Bool) (message : Message) : Keeps passes held paths (print_message raw message) := by
  unfold print_message
  split
  · unfold write_raw_message
    split
    · exact keeps_return _
    · exact write_all_owes _
  · exact Keeps.bind (keeps_silent rfl rfl) fun _ => keeps_return _

include hwriter in
theorem output_turn_owes (command : Command) (message : Message) :
    Keeps passes held paths (output_turn command writer message) := by
  refine (print_message_owes _ _).bind fun good => ?_
  split
  · exact keeps_report _ _
  · exact Keeps.bind (keeps_silent rfl rfl) fun _ => write_frame_owes hwriter _

include hreader hwriter in
theorem delivery_turn_owes (command : Command) : Keeps passes held paths (delivery_turn command reader writer) := by
  refine Keeps.bind (reader.read_exact_owes hreader 12 1000) fun answer => ?_
  split
  split
  · exact keeps_report _ _
  · dsimp only
    split
    · exact keeps_return _
    · split
      · exact keeps_report _ _
      · refine (read_part_owes hreader _).bind fun key => ?_
        split
        · exact keeps_report _ _
        · refine (read_part_owes hreader _).bind fun value => ?_
          split
          · exact keeps_report _ _
          · exact output_turn_owes hwriter _ _

include hreader hwriter in
theorem subscriber_turn_owes (hopen : reader.is_open = true) (command : Command) :
    Keeps passes held paths (subscriber_turn command reader writer) := by
  refine Keeps.bind (keeps_silent rfl rfl) fun requested => ?_
  split
  · exact Keeps.bind (writer.write_exact_owes hwriter _) fun _ => keeps_return _
  · have hpoll : Keeps passes held paths (Sys.poll (reader.fd.getD 0)) := by
      obtain ⟨fd, hfd⟩ := Option.isSome_iff_exists.mp hopen
      refine owes_quiet rfl fun other hother => hreader other ?_
      rw [Members.fds, hfd, ← Option.some.inj hother, hfd]
      exact List.mem_cons_self
    refine hpoll.bind fun result => ?_
    split
    · exact keeps_return _
    · exact keeps_return _
    · exact keeps_return _
    · split
      · exact keeps_return _
      · split
        · exact keeps_return _
        · exact delivery_turn_owes hreader hwriter _

include hreader hwriter in
theorem subscribe_over_owes (hopen : reader.is_open = true) (client_pid : UInt32) (command : Command) :
    Keeps passes held paths (subscribe_over client_pid command reader writer) := by
  unfold subscribe_over
  split
  · exact keeps_report _ _
  · refine (handshake_owes hreader hwriter client_pid command).bind fun code => ?_
    split
    · exact keeps_return _
    · exact keeps_loop (subscriber_turn_owes hreader hwriter hopen command)

end Open

theorem execute_producer_command_owes (client_pid : UInt32) (command : Command) :
    Keeps passes held paths (execute_producer_command client_pid command) := by
  refine (execute_connect_command_owes client_pid command).bind fun connect_code => ?_
  split
  · exact keeps_return _
  · refine (FifoWriter.open_fifo_owes _).bind fun writer => ?_
    refine Owes.bind (publish_owes (fun _ hfd => List.mem_append_left _ hfd) command) fun _ => ?_
    exact (FifoWriter.close_owes writer).bind fun _ => keeps_return _

theorem subscribe_with_owes {reader : Members} (hreader : ∀ fd ∈ reader.fds, fd ∈ held) (client_pid : UInt32)
    (command : Command) : Keeps passes held paths (subscribe_with client_pid command reader) := by
  unfold subscribe_with
  split
  · exact keeps_report _ _
  · rename_i hopen
    refine (FifoWriter.open_fifo_owes _).bind fun writer => ?_
    refine Owes.bind (subscribe_over_owes (fun _ hfd => List.mem_append_right _ (hreader _ hfd))
      (fun _ hfd => List.mem_append_left _ hfd) (by simpa using hopen) client_pid command) fun _ => ?_
    exact (FifoWriter.close_owes writer).bind fun _ => keeps_return _

theorem execute_subscriber_command_owes (client_pid : UInt32) (command : Command) :
    Keeps passes held paths (execute_subscriber_command client_pid command) := by
  refine (FifoReader.create_owes (client_fifo_path client_pid) true).bind fun reader => ?_
  refine Owes.bind (subscribe_with_owes (fun _ hfd => List.mem_append_left _ hfd) client_pid command) fun _ => ?_
  exact (FifoReader.close_owes reader).bind fun _ => keeps_return _

theorem main_owes (client_pid : UInt32) (argv : List Bytes) : Keeps passes held paths (main client_pid argv) := by
  refine Keeps.bind (keeps_silent rfl rfl) fun installed => ?_
  split
  · exact keeps_report _ _
  · split
    · exact keeps_report _ _
    · unfold execute
      split
      · exact execute_create_command_owes _ _
      · exact execute_list_command_owes _ _
      · exact execute_info_command_owes _ _
      · exact execute_producer_command_owes _ _
      · exact execute_subscriber_command_owes _ _

/-- Whatever the arguments are and whatever the system answers, also where a client waits or has a
loop that does not end: it uses and closes only descriptors that are open, and when it returns
it has none open and has removed its FIFO. -/
theorem main_cleans_up {client_pid : UInt32} {argv : List Bytes} {w v : World} {code : Option Nat}
    (hacts : w.acts = []) (hmade : w.made = []) (hruns : (main client_pid argv).Runs (Answers passes) w code v) :
    v.Orderly ∧ (code.isSome = true → v.fds = [] ∧ v.made = []) := by
  have hstart : Holding [] [] w :=
    ⟨by simp [World.Orderly, hacts, Disciplined], by simp [World.fds, hacts], by simp [hmade]⟩
  obtain ⟨horderly, hreturns⟩ := main_owes client_pid argv w code v hstart hruns
  refine ⟨horderly, fun hcode => ?_⟩
  obtain ⟨value, rfl⟩ := Option.isSome_iff_exists.mp hcode
  obtain ⟨_, hfds, hmade⟩ := hreturns value rfl
  exact ⟨hfds.eq_nil, List.eq_nil_iff_forall_not_mem.mpr fun path hpath =>
    List.not_mem_nil (hmade path hpath)⟩

/-- A subscriber that gets one message and the sentinel. -/
theorem main_cleans_up_subscriber :
    ∃ w : World, (main 7 [ascii "client", [47], ascii "subscribe", [97], [99]]).Runs (Answers fun _ _ => 0)
        (.start (Response.serialize_response .SUCCESS [] ++ Message.frame ⟨0, [107], [118]⟩ ++
          Response.serialize_shutdown) [] 100) (some 0) w ∧
      w.cout.output = [107, 58, 118, 10] ∧ w.sent.length = 2 ∧ w.Orderly ∧ w.fds = [] ∧ w.made = [] := by
  have hexec : ((main 7 [ascii "client", [47], ascii "subscribe", [97], [99]]).exec (oblige fun _ _ => 0) 2
      (.start (Response.serialize_response .SUCCESS [] ++ Message.frame ⟨0, [107], [118]⟩ ++
        Response.serialize_shutdown) [] 100)).any
      (fun outcome => outcome.1 == 0 && outcome.2.cout.output == [107, 58, 118, 10] && outcome.2.sent.length == 2) =
        true := by decide +kernel
  obtain ⟨⟨code, w⟩, hexec, hstate⟩ := (Option.any_eq_true _ _).mp hexec
  simp only [Bool.and_eq_true, beq_iff_eq] at hstate
  obtain ⟨⟨rfl, hprinted⟩, hsent⟩ := hstate
  have hruns := Program.exec_runs (answers_oblige _) hexec
  obtain ⟨horderly, hreleased⟩ := main_cleans_up rfl rfl hruns
  exact ⟨w, hruns, hprinted, hsent, horderly, hreleased rfl⟩

end treenity.client.Process

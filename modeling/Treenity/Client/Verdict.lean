import Treenity.Client.Outcome
import Treenity.Protocol.Codec
import Treenity.Server.Hub

open treenity.foundation treenity.protocol treenity.ipc treenity.server

namespace treenity.client.Process

variable {passes : Bytes → Bytes → Nat} {H : StdHash}

/-- The commands that make one request. -/
def Asks (command : Command) : Prop := command.type ∈ [.CREATE, .LIST, .INFO]

/-- The request of such a command. -/
def request (client_pid : UInt32) (command : Command) : Bytes :=
  match command.type with
  | .CREATE => Request.serialize_create client_pid command.topic
  | .LIST => Request.serialize_list client_pid
  | _ => Request.serialize_info client_pid command.subscriber

/-- What such a command asks for. -/
def demand (client_pid : UInt32) (command : Command) : Demand :=
  match command.type with
  | .CREATE => .create client_pid command.topic
  | .LIST => .list client_pid
  | _ => .info client_pid command.subscriber

/-- What such a command writes for the payload of a response. -/
def success_prints (command : Command) : Bytes → List Bytes :=
  match command.type with
  | .CREATE => fun _ => [ascii "topic created", [10]]
  | _ => output_lines

/-- What a command tells its user: its exit code, what it writes to the standard output, and its
report on the standard error. -/
structure Verdict where
  code : Nat
  prints : List Bytes
  report : Bytes
  deriving DecidableEq

/-- What a command makes of a response. -/
def Verdict.of_response (prints : Bytes → List Bytes) (status : StatusCode) (payload : Bytes) : Verdict :=
  if status.code.toNat ≠ 0 then ⟨status.code.toNat, [], error_text payload⟩ else ⟨0, prints payload, []⟩

/-- What is true of a broker, in the words of a command that makes one request. -/
def verdict (hub : Hub) (listing : List Bytes) (command : Command) : Verdict :=
  match command.type with
  | .CREATE =>
    if (hub.topics command.topic).isSome then ⟨2, [], ascii "server returned an error\n"⟩
    else ⟨0, [ascii "topic created", [10]], []⟩
  | .LIST => ⟨0, output_lines ([44].intercalate listing), []⟩
  | _ =>
    match hub.client_index command.subscriber with
    | none => ⟨2, [], ascii "server returned an error\n"⟩
    | some recorded => ⟨0, output_lines (Server.info_json recorded), []⟩

theorem frame_parts {action action' : UInt8} {payload payload' : Bytes}
    (hsame : frame action payload = frame action' payload') : action = action' ∧ payload = payload' := by
  obtain rfl : action = action' := (List.cons.inj hsame).1
  exact ⟨rfl, frame_inj.mp hsame⟩

/-- The server reads what the command asks for. -/
theorem request_read {client_pid : UInt32} {command : Command} {action : UInt8} {payload : Bytes}
    (hrequest : request client_pid command = frame action payload) :
    Demand.read action payload = demand client_pid command := by
  unfold request at hrequest
  unfold demand
  split at hrequest
  · obtain ⟨rfl, rfl⟩ := frame_parts ((Request.serialize_create_eq _ _).symm.trans hrequest)
    have hparse := (Request.parse_pid_and_rest_iff client_pid command.topic).mpr rfl
    simp [Demand.read, CommandType.code, Request.parse_create, hparse]
  · obtain ⟨rfl, rfl⟩ := frame_parts ((Request.serialize_list_eq _).symm.trans hrequest)
    have hparse := (Request.parse_list_iff client_pid).mpr rfl
    simp [Demand.read, CommandType.code, hparse]
  · obtain ⟨rfl, rfl⟩ := frame_parts ((Request.serialize_info_eq _ _).symm.trans hrequest)
    have hparse := (Request.parse_pid_and_rest_iff client_pid command.subscriber).mpr rfl
    simp [Demand.read, CommandType.code, Request.parse_info, hparse]

theorem parse_subscribe_type {command result : Command} {args : List Bytes}
    (hparse : parse_subscribe command args = .ok result) : result.type = command.type := by
  unfold parse_subscribe at hparse
  split at hparse
  · dsimp only at hparse
    split at hparse
    · cases hparse
    split at hparse
    · cases hparse
    · exact (parse_options_same hparse).1
  · cases hparse

theorem create_valid {argv : List Bytes} {command : Command} (hcommand : parse_command argv = .ok command)
    (htype : command.type = .CREATE) : Server.is_valid_identifier command.topic = true := by
  cases parse_command_parsed hcommand with
  | create ipc_identifier hvalid => exact is_valid_name_eq _ ▸ hvalid
  | subscribe hargv hparse =>
    have hsame := parse_subscribe_type hparse
    rw [htype] at hsame
    cases hsame
  | _ => cases htype

/-- The broker answers with what is true of it. -/
theorem demand_met (client_pid : UInt32) {argv : List Bytes} {command : Command}
    (hcommand : parse_command argv = .ok command) (hasks : Asks command) (hub : Hub) (listing : List Bytes)
    (kernel : Kernel) :
    ∃ status body,
      (hub.meet listing kernel (demand client_pid command)).2 = [Server.send_response client_pid status body] ∧
        Verdict.of_response (success_prints command) status body = verdict hub listing command := by
  simp only [Asks, List.mem_cons, List.not_mem_nil, or_false] at hasks
  rcases hasks with htype | htype | htype
  · simp only [demand, success_prints, verdict, htype, Hub.meet, create_valid hcommand htype, Bool.not_true,
      Bool.false_eq_true, if_false]
    split
    · exact ⟨_, _, rfl, rfl⟩
    · exact ⟨_, _, rfl, rfl⟩
  · simp only [demand, success_prints, verdict, htype]
    exact ⟨_, _, rfl, rfl⟩
  · simp only [demand, success_prints, verdict, htype, Hub.meet]
    cases hub.client_index command.subscriber with
    | none => exact ⟨_, _, rfl, rfl⟩
    | some recorded => exact ⟨_, _, rfl, rfl⟩

variable {d : Data}

/-- What is known when a command has told its verdict. -/
def Told (passes : Bytes → Bytes → Nat) (d : Data) (request : Bytes) (verdict : Verdict) (code : Nat)
    (e : Data) : Prop :=
  code = verdict.code ∧
    e = (printed passes verdict.prints { d.hand_over request with pipe := [] }).report verdict.report

theorem Requested.told {client_pid : UInt32} {command : Command} {status : StatusCode} {body : Bytes} {code : Nat}
    {e : Data} (hrequested : Requested d (request client_pid command) (fun code => code.code.toNat)
      (fun payload => printed passes (success_prints command payload)) code e)
    (hpipe : d.pipe <+: Response.serialize_response status body) (hbody : body.length < 2 ^ 32) :
    Unanswered d (request client_pid command) code e ∨
      Told passes d (request client_pid command) (Verdict.of_response (success_prints command) status body) code e := by
  refine (hrequested.answered hpipe hbody).imp_right fun hafter => ?_
  unfold Told Verdict.of_response
  split at hafter
  · rename_i hcode
    rw [if_pos hcode]
    exact hafter
  · rename_i hcode
    rw [if_neg hcode]
    obtain ⟨rfl, rfl⟩ := hafter
    exact ⟨rfl, by simp [Data.report]⟩

/-- Such a command makes its request and writes the payload of a response that is no error. -/
theorem execute_asks_shows {C : List Bytes → Prop} (client_pid : UInt32) {command : Command} (hasks : Asks command)
    (hstays : ∀ e, Exchanging d (request client_pid command) e → C e.sent) :
    Shows passes d (execute client_pid command) (C ·.sent)
      (Requested d (request client_pid command) (fun code => code.code.toNat)
        (fun payload => printed passes (success_prints command payload))) := by
  simp only [Asks, List.mem_cons, List.not_mem_nil, or_false] at hasks
  rcases hasks with htype | htype | htype
  · simp only [request, htype] at hstays
    simp only [execute, request, success_prints, htype]
    refine execute_request_shows _ _ _ _ _ hstays (fun _ => hstays) fun _ e he => ?_
    refine (shows_cout_write _ (hstays e he) (hstays e he)).bind ?_
    rintro good _ ⟨rfl, _⟩
    exact write_line_shows (fun _ => hstays e he) [ascii "topic created"]
  · simp only [request, htype] at hstays
    simp only [execute, request, success_prints, htype]
    exact execute_request_shows _ _ _ _ _ hstays (fun _ => hstays)
      fun payload e he => write_output_shows payload fun _ => hstays e he
  · simp only [request, htype] at hstays
    simp only [execute, request, success_prints, htype]
    exact execute_request_shows _ _ _ _ _ hstays (fun _ => hstays)
      fun payload e he => write_output_shows payload fun _ => hstays e he

/-- What the program does is what the command does, once the handlers are installed. -/
theorem main_shows {R : Data → Prop} {Q : Nat → Data → Prop} {client_pid : UInt32} {argv : List Bytes} {command : Command}
    (hcommand : parse_command argv = .ok command) (hstart : R d)
    (hreport : R (d.report (ascii "failed to install shutdown signal handlers\n")))
    (hfails : Q 1 (d.report (ascii "failed to install shutdown signal handlers\n")))
    (hexecute : Shows passes d (execute client_pid command) R Q) : Shows passes d (main client_pid argv) R Q := by
  refine (steady_install_shutdown_handlers _ _ hstart).bind ?_
  rintro installed _ rfl
  split
  · refine (shows_cerr_write _ hstart hreport).bind ?_
    rintro _ _ rfl
    exact shows_return hreport hfails
  · rw [hcommand]
    exact hexecute

/-- The server gets the request of a CREATE, LIST or INFO command and what it writes as the response
comes to the FIFO of the command, in whole, in part or not at all. Whatever the system does, a command
that ends either says that it got no answer, with nothing on the standard output, or tells what
was true of the tables of the server. -/
theorem main_answered {server : Server H} {kernel : Kernel} {client_pid : UInt32} {argv : List Bytes}
    {command : Command} (hcommand : parse_command argv = .ok command) (hasks : Asks command) {action : UInt8} {payload answer : Bytes}
    (hrequest : request client_pid command = frame action payload)
    (hanswer : (server.handle_request action payload kernel).2 = [.response (client_fifo_path client_pid) answer])
    {w v : World} (hpipe : w.pipe <+: answer) (hlength : answer.length < 2 ^ 32) {code : Nat}
    (hruns : (main client_pid argv).Runs (Answers passes) w (some code) v) :
    Unanswered w.data (request client_pid command) code v.data ∨
      Told passes w.data (request client_pid command) (verdict server.hub server.topics.keys command) code v.data := by
  obtain ⟨status, body, hmet, hverdict⟩ :=
    demand_met client_pid hcommand hasks server.hub server.topics.keys kernel
  have hmeet := congrArg Prod.snd (server.hub_handle_request action payload kernel)
  rw [request_read hrequest, hmet] at hmeet
  have hresponse : answer = Response.serialize_response status body := by
    have hsame := hmeet.trans hanswer
    simp only [Server.send_response, List.cons.injEq, Effect.response.injEq, true_and, and_true] at hsame
    exact hsame.symm
  subst hresponse
  have hbody : body.length < 2 ^ 32 := by
    simp [Response.serialize_response, write_uint32_le_eq] at hlength
    omega
  have hmain : Shows passes w.data (main client_pid argv) (fun _ => True) fun code e =>
      Unanswered w.data (request client_pid command) code e ∨
        Told passes w.data (request client_pid command) (verdict server.hub server.topics.keys command) code e := by
    refine main_shows hcommand trivial trivial (.inl ⟨_, w.data, ?_, ⟨rfl, rfl, rfl, List.suffix_refl _, .inl rfl⟩, rfl⟩) ?_
    · simp [failures]
    · refine (execute_asks_shows (C := fun _ => True) client_pid hasks fun _ _ => trivial).weaken (fun _ _ => trivial) ?_
      intro code e hrequested
      rw [← hverdict]
      exact hrequested.told hpipe hbody
  exact (hmain w (some code) v rfl hruns).2 code rfl

/-- `client / list` where the broker has a topic `a`. -/
theorem main_answered_list :
    let server : Server ⟨List.length, UInt8.toNat, UInt32.toNat⟩ := (Server.new.create_topic [97]).2
    let command : Command := { make_empty_command with type := .LIST, ipc_identifier := [47] }
    ∃ w v : World, (main 7 [ascii "client", [47], ascii "list"]).Runs (Answers fun _ _ => 0) w (some 0) v ∧
      v.cout.buffer = [97, 10] ∧
      (Unanswered w.data (request 7 command) 0 v.data ∨
        Told (fun _ _ => 0) w.data (request 7 command) (verdict server.hub server.topics.keys command) 0 v.data) := by
  intro server command
  let answer := Response.serialize_response .SUCCESS [97]
  have hexec : ((main 7 [ascii "client", [47], ascii "list"]).exec (oblige fun _ _ => 0) 2 (.start answer [] 100)).any
      (fun outcome => outcome.1 == 0 && outcome.2.cout.buffer == [97, 10]) = true := by decide +kernel
  obtain ⟨⟨code, v⟩, hexec, hstate⟩ := (Option.any_eq_true _ _).mp hexec
  simp only [Bool.and_eq_true, beq_iff_eq] at hstate
  obtain ⟨rfl, hprinted⟩ := hstate
  have hruns := Program.exec_runs (answers_oblige _) hexec
  refine ⟨_, v, hruns, hprinted, ?_⟩
  have hrequest : request 7 command = frame 2 (le32 7) := by decide +kernel
  have hanswer : (server.handle_request 2 (le32 7) ⟨fun _ => false, fun _ => none⟩).2 =
      [.response (client_fifo_path 7) answer] := by decide +kernel
  exact main_answered (by decide +kernel) (by simp [Asks, command]) hrequest hanswer (List.prefix_refl _)
    (by decide +kernel) hruns

end treenity.client.Process

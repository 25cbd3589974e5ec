import Treenity.Client.Subscription
import Treenity.Client.Verdict

open treenity.foundation treenity.protocol treenity.ipc treenity.server

namespace treenity.client.Process

variable {passes : Bytes → Bytes → Nat}

/-- A process that has handed over what the pure loop is to write has a place in its writes. -/
theorem listen_acks {raw : Bool} {subscriber : Bytes} {turns : Nat} {pipe : Bytes} {cout : Ostream UInt8}
    (hall : (output_loop passes raw subscriber turns pipe cout).1.length = turns) :
    listen subscriber turns pipe = (output_loop passes raw subscriber turns pipe cout).1.map Prod.snd ++
      [Request.serialize_disconnect subscriber] := by
  induction turns generalizing pipe cout with
  | zero => rfl
  | succ turns ih =>
    revert hall
    unfold output_loop listen
    rcases read_delivery pipe with _ | ⟨_ | msg, left⟩
    · exact fun hall => absurd hall (by simp)
    · exact fun hall => absurd hall (by simp)
    · dsimp only
      split
      · intro hall
        rw [ih (by simpa using hall)]
        rfl
      · exact fun hall => absurd hall (by simp)

/-- A subscriber process that has started with nothing handed over is in its writes. -/
theorem Subscribing.cut {client_pid : UInt32} {command : Command} {d e : Data}
    (hsubscribing : Subscribing passes client_pid command d e) (hsent : d.sent = []) :
    ∃ turns, Cut (client.execute_subscriber_command client_pid command d.pipe turns) e.sent := by
  rcases hsubscribing with hbeginning | ⟨pipe, hpipe, turns, hall, hcut, _⟩
  · refine ⟨0, ?_⟩
    rcases hbeginning.sent with hsame | ⟨part, hpart, hsame⟩
    · rw [hsame, hsent]
      exact .inl List.nil_prefix
    · rw [hsame, hsent]
      exact @Cut.part [] _ _ part hpart
  · refine ⟨turns, ?_⟩
    rw [client.execute_subscriber_command, hpipe, handshake_serialize_response]
    rw [decide_eq_true rfl]
    dsimp only
    rw [listen_acks hall]
    simpa [hsent, subscribe_frame] using hcut

/-- The response to a SUBSCRIBE has no payload. -/
def Plain (command : Command) (pipe : Bytes) : Prop :=
  command.type = .SUBSCRIBE → ∃ status rest, pipe <+: Response.serialize_response status [] ++ rest

/-- The input of a producer is the text or the raw form of messages that keep to the limit. -/
structure Spells (raw : Bool) (input : Bytes) (messages : List (Bytes × Bytes)) : Prop where
  within : Within messages
  raw_form : raw = true → input = concatenation messages
  text_form : raw = false → lines input = messages.map (fun pair => pair.1 ++ 58 :: pair.2) ∧ ∀ pair ∈ messages, 58 ∉ pair.1

theorem lines_spelled {input : Bytes} (hlines : (lines input).all line_fits = true) :
    lines input = (text_messages input).map (fun pair => pair.1 ++ 58 :: pair.2) ∧
      ∀ pair ∈ text_messages input, 58 ∉ pair.1 := by
  have hwhole : (lines input).takeWhile line_fits = lines input :=
    List.takeWhile_eq_self_iff.mpr fun line hline => List.all_eq_true.mp hlines line hline
  rw [text_messages, hwhole]
  have hall : ∀ list : List Bytes, list.all line_fits = true →
      list = (list.filterMap split_text).map (fun pair => pair.1 ++ 58 :: pair.2) ∧
        ∀ pair ∈ list.filterMap split_text, 58 ∉ pair.1 := by
    intro list hfits
    induction list with
    | nil => exact ⟨rfl, List.forall_mem_nil _⟩
    | cons line list ih =>
      rw [List.all_cons, Bool.and_eq_true] at hfits
      obtain ⟨hsame, hkeys⟩ := ih hfits.2
      obtain ⟨key, value, hsplit, _⟩ := (line_fits_iff line).mp hfits.1
      obtain ⟨rfl, hline⟩ := split_text_some hsplit
      rw [List.filterMap_cons_some hsplit]
      refine ⟨?_, List.forall_mem_cons.mpr ⟨?_, hkeys⟩⟩
      · rw [List.map_cons, ← hsame]
        exact congrArg (· :: list) (hline.trans (by simp))
      · intro hmem
        simpa using List.mem_takeWhile_imp hmem
  exact hall _ hlines

/-- A producer whose frames are all for the input is to write one frame for each message of it. -/
theorem produced_spelled {command : Command} {input : Bytes} (hcode : (produced command input).2 = 0) :
    ∃ messages, Spells command.raw input messages ∧
      (produced command input).1 = messages.map fun pair => Request.serialize_produce command.topic pair.1 pair.2 := by
  unfold produced at hcode ⊢
  cases hraw : command.raw with
  | true =>
    rw [hraw, if_pos rfl] at hcode
    obtain ⟨records, rest, hinput, hwithin, _, hframes⟩ := execute_publish_raw_records command.topic input
    rw [hframes] at hcode
    obtain rfl : rest = [] := by
      by_contra hrest
      rw [if_neg hrest] at hcode
      cases hcode
    refine ⟨records, ⟨hwithin, fun _ => by simpa using hinput, fun hfalse => absurd hfalse (by simp)⟩, ?_⟩
    rw [if_pos rfl, hframes]
  | false =>
    rw [hraw, if_neg (by simp), execute_publish_text_eq] at hcode
    have hlines : (lines input).all line_fits = true := by
      by_contra hnot
      rw [if_neg hnot] at hcode
      cases hcode
    refine ⟨text_messages input, ⟨fun pair hpair => ?_, fun htrue => absurd htrue (by simp),
      fun _ => lines_spelled hlines⟩, ?_⟩
    · have hchecked : (pair.1, pair.2) ∈ checked_messages false input := hpair
      exact checked_messages_limit hchecked
    · rw [if_neg (by simp), execute_publish_text_eq]

/-- A producer that exits with 0 was given nothing but messages that keep to the limit, as text or in
the raw form, and has handed over one PRODUCE frame for each of them in order, after its CONNECT; with any
other exit code it has reported an error. -/
theorem main_published {client_pid : UInt32} {argv : List Bytes} {command : Command}
    (hcommand : parse_command argv = .ok command) (htype : command.type = .CONNECT) {w v : World} {code : Nat}
    (hsent : w.sent = []) (hruns : (main client_pid argv).Runs (Answers passes) w (some code) v) :
    code = 0 ∧ v.cerr = w.cerr ∧ (∃ messages, Spells command.raw w.input messages ∧
        v.sent = Request.serialize_connect client_pid command.topic ::
          messages.map fun pair => Request.serialize_produce command.topic pair.1 pair.2) ∨
      code ∈ [1, 2, 3] ∧ v.cerr ≠ w.cerr := by
  have hmain : Shows passes w.data (main client_pid argv) (fun _ => True) fun code e =>
      if code = 0 then
        client.exchange_request w.pipe = some .SUCCESS ∧ (produced command w.input).2 = 0 ∧
          e.sent = client.execute_producer_command client_pid command w.pipe w.input ∧ e.cerr = w.cerr
      else code ≤ 3 ∧ e.cerr ≠ w.cerr := by
    refine main_shows hcommand trivial trivial ?_ ?_
    · rw [if_neg (by simp)]
      exact ⟨by simp, report_ne (by decide) _⟩
    · rw [execute, htype]
      exact (execute_producer_command_shows hsent client_pid command).weaken (fun _ _ => trivial) fun _ _ he => he
  have hafter := (hmain w (some code) v rfl hruns).2 code rfl
  dsimp only at hafter
  split at hafter
  · rename_i hcode
    obtain ⟨hsuccess, hproduced, hsame, hquiet⟩ := hafter
    obtain ⟨messages, hspells, hframes⟩ := produced_spelled hproduced
    refine .inl ⟨hcode, hquiet, messages, hspells, ?_⟩
    rw [show v.sent = v.data.sent from rfl, hsame, client.execute_producer_command, hsuccess, ← hframes, produced]
    cases command.raw <;> rfl
  · rename_i hcode
    exact .inr ⟨by simp; omega, hafter.2⟩

/-- A producer that is given the line `k:v`. -/
theorem main_published_line :
    ∃ v : World, (main 7 [ascii "client", [47], ascii "produce", [97]]).Runs (Answers fun _ _ => 0)
        (.start (Response.serialize_response .SUCCESS []) [107, 58, 118, 10] 0) (some 0) v ∧ v.sent.length = 2 ∧
      ((0 = 0 ∧ v.cerr = [] ∧ ∃ messages, Spells false [107, 58, 118, 10] messages ∧
          v.sent = Request.serialize_connect 7 [97] ::
            messages.map fun pair => Request.serialize_produce [97] pair.1 pair.2) ∨
        0 ∈ [1, 2, 3] ∧ v.cerr ≠ []) := by
  have hexec : ((main 7 [ascii "client", [47], ascii "produce", [97]]).exec (oblige fun _ _ => 0) 3
      (.start (Response.serialize_response .SUCCESS []) [107, 58, 118, 10] 0)).any
      (fun outcome => outcome.1 == 0 && outcome.2.sent.length == 2) = true := by decide +kernel
  obtain ⟨⟨code, v⟩, hexec, hstate⟩ := (Option.any_eq_true _ _).mp hexec
  simp only [Bool.and_eq_true, beq_iff_eq] at hstate
  obtain ⟨rfl, hsent⟩ := hstate
  have hruns := Program.exec_runs (answers_oblige _) hexec
  have hcommand : parse_command [ascii "client", [47], ascii "produce", [97]] =
      .ok { make_empty_command with type := .CONNECT, ipc_identifier := [47], topic := [97] } := by decide +kernel
  exact ⟨v, hruns, hsent, main_published hcommand rfl rfl hruns⟩

end treenity.client.Process

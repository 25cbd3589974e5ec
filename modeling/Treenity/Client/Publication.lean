import Treenity.Client.Outcome
import Treenity.Client.RawInput
import Treenity.Client.Sends

open treenity.foundation treenity.protocol treenity.ipc treenity.server

namespace treenity.client.Process

variable {passes : Bytes → Bytes → Nat} {d : Data} {C : List Bytes → Prop}

/-- What `write_exact` calls have handed over that were to make these writes, in order: those
before some point, and a part of the one at it. -/
def Cut (writes sent : List Bytes) : Prop :=
  sent <+: writes ∨ ∃ before write later part, writes = before ++ write :: later ∧ part <+: write ∧ sent = before ++ [part]

theorem Cut.part {before later : List Bytes} {write part : Bytes} (hpart : part <+: write) :
    Cut (before ++ write :: later) (before ++ [part]) := .inr ⟨before, write, later, part, rfl, hpart, rfl⟩

/-- What an exchange that comes first may have handed over. -/
theorem Exchanging.cut {request : Bytes} {e : Data} (hexchanging : Exchanging d request e) (hsent : d.sent = [])
    (later : List Bytes) : Cut (request :: later) e.sent := by
  rcases hexchanging.sent with hsame | ⟨part, hpart, hsame⟩
  · rw [hsame, hsent]
    exact .inl List.nil_prefix
  · rw [hsame, hsent]
    exact @Cut.part [] later request part hpart

/-- A line is the one that the input begins with. -/
theorem getline_shows (hstays : C d.sent) :
    Shows passes d Sys.getline (C ·.sent) (fun result e =>
      match result with
      | .line line => ∃ rest, client.getline d.input = some (line, rest) ∧ e = { d with input := rest }
      | .eof => client.getline d.input = none ∧ e = d
      | .bad => e = d) := by
  refine shows_ask hstays fun w result v hw hanswer => ?_
  subst hw
  cases (result : GetlineResult) with
  | eof =>
    obtain ⟨hempty, rfl⟩ := hanswer
    exact ⟨hstays, by simp [client.getline, World.data, hempty], rfl⟩
  | bad =>
    obtain rfl : v = w := hanswer
    exact ⟨hstays, rfl⟩
  | line line =>
    obtain ⟨hsome, hline, rest, rfl, hinput⟩ := hanswer
    refine ⟨hstays, rest, ?_, rfl⟩
    have hnone : ∀ c ∈ line, (c != 10) = true := fun c hc => by
      simp only [bne_iff_ne]
      rintro rfl
      exact hline hc
    rw [client.getline, World.data, if_neg (by simpa using hsome)]
    rcases hinput with hinput | ⟨hinput, rfl⟩
    · rw [hinput, List.takeWhile_append_of_pos hnone, List.dropWhile_append_of_pos hnone]
      simp
    · rw [hinput, List.takeWhile_eq_self_iff.mpr hnone, List.dropWhile_eq_nil_iff.mpr hnone]
      rfl

/-- What is known when the input was read and no error was reported, or after the report of one. -/
def Reported (d : Data) (code : Nat) (e : Data) : Prop :=
  e.sent = d.sent ∧ if code = 0 then e.cerr = d.cerr else code ≤ 3 ∧ e.cerr ≠ d.cerr

theorem report_ne {text : Bytes} (htext : text ≠ []) (e : Data) : (e.report text).cerr ≠ e.cerr := by
  simpa [Data.report] using htext

/-- Reads four bytes as the pure reader does, unless the input fails. -/
theorem read_little_endian_int32_shows (hstays : C d.sent) :
    Shows passes d read_little_endian_int32 (C ·.sent) (fun outcome e => e.sent = d.sent ∧ e.cerr = d.cerr ∧
      match outcome with
      | .inl number => ∃ rest, client.read_little_endian_int32 d.input = .Ok number rest ∧ e = { d with input := rest }
      | .inr true => client.read_little_endian_int32 d.input = .EndOfFile
      | .inr false => True) := by
  refine (shows_cin_read 4 fun _ => hstays).bind ?_
  rintro ⟨bytes, eof⟩ _ ⟨hbegins, hend, rfl⟩
  dsimp only at hbegins hend ⊢
  split
  · rename_i hshort
    refine shows_return hstays ⟨rfl, rfl, ?_⟩
    cases hnothing : (bytes.isEmpty && eof) with
    | false => trivial
    | true =>
      rw [Bool.and_eq_true, List.isEmpty_iff] at hnothing
      obtain ⟨rfl, rfl⟩ := hnothing
      simp [client.read_little_endian_int32, ← hend hshort rfl]
  · rename_i hlong
    have hlength := hbegins.length_le
    rw [List.length_take] at hlength
    obtain rfl : bytes = d.input.take 4 := hbegins.eq_of_length_le (by rw [List.length_take]; omega)
    have hmany : ¬ d.input.length < 4 := by omega
    have hnumber : read_uint32_le (d.input.take 4) = read_uint32_le d.input := by
      conv_rhs => rw [← List.take_append_drop 4 d.input]
      rw [read_uint32_le_append (by omega)]
    have hsome : ¬ d.input.isEmpty = true := by
      rw [List.isEmpty_iff]
      rintro hempty
      simp [hempty] at hmany
    refine shows_return hstays ⟨rfl, rfl, d.input.drop 4, ?_, ?_⟩
    · rw [client.read_little_endian_int32, if_neg hsome, if_neg hmany, hnumber]
    · rw [List.length_take, Nat.min_eq_left (by omega)]

theorem read_exact_shows (size : Nat) (hstays : C d.sent) :
    Shows passes d (read_exact size) (C ·.sent) (fun outcome e => e.sent = d.sent ∧ e.cerr = d.cerr ∧
      ∀ value, outcome = some value →
        ∃ rest, client.read_exact size d.input = some (value, rest) ∧ e = { d with input := rest }) := by
  unfold read_exact client.read_exact
  split
  · rename_i hzero
    subst hzero
    refine shows_return hstays ⟨rfl, rfl, fun value hvalue => ⟨d.input, ?_, rfl⟩⟩
    obtain rfl := Option.some.inj hvalue
    simp
  · refine (shows_cin_read size fun _ => hstays).bind ?_
    rintro ⟨bytes, eof⟩ _ ⟨hbegins, _, rfl⟩
    dsimp only at hbegins ⊢
    split
    · exact shows_return hstays ⟨rfl, rfl, fun _ hnone => nomatch hnone⟩
    · rename_i hlong
      have hlength := hbegins.length_le
      rw [List.length_take] at hlength
      obtain rfl : bytes = d.input.take size := hbegins.eq_of_length_le (by rw [List.length_take]; omega)
      refine shows_return hstays ⟨rfl, rfl, fun value hvalue => ⟨d.input.drop size, ?_, ?_⟩⟩
      · obtain rfl := Option.some.inj hvalue
        rw [if_neg (by omega)]
      · rw [List.length_take, Nat.min_eq_left (by omega)]

/-- A report and a return with an error. -/
theorem report_shows {α : Type} {text : Bytes} (htext : text ≠ []) (code : Nat) (hcode : code ≠ 0 ∧ code ≤ 3) (value : α)
    (hstays : C d.sent) :
    Shows passes d (do Sys.cerr_write text; return value) (C ·.sent) (fun answer e => answer = value ∧ Reported d code e) := by
  refine (shows_cerr_write text hstays hstays).bind ?_
  rintro _ _ rfl
  refine shows_return hstays ⟨rfl, rfl, ?_⟩
  rw [if_neg hcode.1]
  exact ⟨hcode.2, report_ne htext d⟩

theorem Reported.after {e f : Data} {code : Nat} (hreported : Reported e code f) (hsent : e.sent = d.sent)
    (hcerr : e.cerr = d.cerr) : Reported d code f := by
  unfold Reported at hreported ⊢
  rwa [hsent, hcerr] at hreported

/-- What is known after `read_record`. -/
def Recorded (d : Data) (outcome : (Bytes × Bytes) ⊕ Nat) (e : Data) : Prop :=
  match outcome with
  | .inl (key, value) => ∃ rest, client.read_record d.input = .ok (key, value, rest) ∧ e = { d with input := rest }
  | .inr code => (code = 0 → client.read_record d.input = .error 0) ∧ Reported d code e

theorem refuse_record_shows {e : Data} {text : Bytes} (htext : text ≠ []) (hsent : e.sent = d.sent)
    (hcerr : e.cerr = d.cerr) (hstays : C d.sent) :
    Shows passes e (do Sys.cerr_write text; return (.inr 1 : (Bytes × Bytes) ⊕ Nat)) (C ·.sent) (Recorded d) := by
  refine (report_shows htext 1 ⟨by decide, by decide⟩ _ (hsent ▸ hstays)).weaken (fun _ h => h) ?_
  rintro _ f ⟨rfl, hreported⟩
  exact ⟨fun hcode => absurd hcode (by decide), hreported.after hsent hcerr⟩

/-- Reads a record as the pure reader does, and reports one that it does not take. -/
theorem read_record_shows (hstays : C d.sent) : Shows passes d read_record (C ·.sent) (Recorded d) := by
  unfold read_record
  refine (read_little_endian_int32_shows hstays).bind ?_
  rintro (key_size | _ | _) e ⟨hsent, hcerr, hkey_size⟩
  · obtain ⟨rest, hkey_size, rfl⟩ := hkey_size
    dsimp only
    split
    · exact refuse_record_shows (by decide) rfl rfl hstays
    refine (read_exact_shows (d := { d with input := rest }) key_size.toNat hstays).bind ?_
    rintro (_ | key) e ⟨hsent, hcerr, hkey⟩
    · exact refuse_record_shows (by decide) hsent hcerr hstays
    obtain ⟨rest, hkey, rfl⟩ := hkey key rfl
    refine (read_little_endian_int32_shows (d := { d with input := rest }) hstays).bind ?_
    rintro (val_size | _ | _) e ⟨hsent, hcerr, hval_size⟩
    · obtain ⟨rest, hval_size, rfl⟩ := hval_size
      dsimp only
      split
      · exact refuse_record_shows (by decide) rfl rfl hstays
      refine (read_exact_shows (d := { d with input := rest }) val_size.toNat hstays).bind ?_
      rintro (_ | value) e ⟨hsent, hcerr, hvalue⟩
      · exact refuse_record_shows (by decide) hsent hcerr hstays
      obtain ⟨rest, hvalue, rfl⟩ := hvalue value rfl
      exact shows_return hstays ⟨rest, by simp [client.read_record, *], rfl⟩
    · exact refuse_record_shows (by decide) hsent hcerr hstays
    · exact refuse_record_shows (by decide) hsent hcerr hstays
  · exact refuse_record_shows (by decide) hsent hcerr hstays
  · refine shows_return (hsent ▸ hstays) ⟨fun _ => by simp [client.read_record, hkey_size], hsent, ?_⟩
    rw [if_pos rfl]
    exact hcerr

/-- What is known after a turn of a loop that is to write the frames `produce` gives for the input. -/
def Turned (produce : Bytes → List Bytes × Nat) (d : Data) (outcome : Unit ⊕ Nat) (e : Data) : Prop :=
  match outcome with
  | .inl () => e.cerr = d.cerr ∧ (produce e.input).2 = (produce d.input).2 ∧
    e.sent ++ (produce e.input).1 = d.sent ++ (produce d.input).1
  | .inr code =>
    if code = 0 then e.sent = d.sent ∧ e.cerr = d.cerr ∧ produce d.input = ([], 0) else code ≤ 3 ∧ e.cerr ≠ d.cerr

theorem Reported.turned {produce : Bytes → List Bytes × Nat} {code : Nat} {e : Data} (hreported : Reported d code e)
    (hlast : code = 0 → produce d.input = ([], 0)) : Turned produce d (.inr code) e := by
  unfold Reported at hreported
  unfold Turned
  split at hreported
  · rename_i hcode
    dsimp only
    rw [if_pos hcode]
    exact ⟨hreported.1, hreported.2, hlast hcode⟩
  · rename_i hcode
    dsimp only
    rw [if_neg hcode]
    exact hreported.2

/-- The end of a turn: the frame is handed over. -/
theorem send_frame_shows {produce : Bytes → List Bytes × Nat} (writer : Members) {frame rest : Bytes}
    (hproduce : produce d.input = (frame :: (produce rest).1, (produce rest).2)) :
    Shows passes { d with input := rest }
      (do
        if !(← writer.write_exact frame) then
          Sys.cerr_write (ascii "IPC communication error\n")
          return .inr 3
        return .inl ())
      (fun e => Cut (d.sent ++ (produce d.input).1) e.sent) (Turned produce d) := by
  have hstays : Cut (d.sent ++ (produce d.input).1) d.sent := .inl (List.prefix_append _ _)
  have hpart : ∀ part, part <+: frame → Cut (d.sent ++ (produce d.input).1) (d.sent ++ [part]) := by
    intro part hpart
    rw [hproduce]
    exact Cut.part hpart
  refine (writer.write_exact_shows frame hstays hpart).bind ?_
  intro written e he
  cases written with
  | true =>
    obtain rfl : e = Data.hand_over { d with input := rest } frame := he
    exact shows_return (hpart frame (List.prefix_refl _)) ⟨rfl, by rw [hproduce]; rfl, by simp [hproduce, Data.hand_over]⟩
  | false =>
    have hsame : e.cerr = d.cerr ∧ Cut (d.sent ++ (produce d.input).1) e.sent := by
      rcases he with rfl | ⟨part, hbegins, _, rfl⟩
      · exact ⟨rfl, hstays⟩
      · exact ⟨rfl, hpart part hbegins⟩
    refine (report_shows (C := Cut (d.sent ++ (produce d.input).1)) (by decide) 3 ⟨by decide, by decide⟩ _
      hsame.2).weaken (fun _ h => h) ?_
    rintro _ f ⟨rfl, _, hreported⟩
    rw [if_neg (by decide), hsame.1] at hreported
    exact hreported

/-- What is known when such a loop has ended. -/
def Published (produce : Bytes → List Bytes × Nat) (d : Data) (code : Nat) (e : Data) : Prop :=
  if code = 0 then e.sent = d.sent ++ (produce d.input).1 ∧ (produce d.input).2 = 0 ∧ e.cerr = d.cerr
  else code ≤ 3 ∧ e.cerr ≠ d.cerr

theorem publish_loop_shows {produce : Bytes → List Bytes × Nat} {turn : Calls (Unit ⊕ Nat)}
    (hturn : ∀ e, Shows passes e turn (fun f => Cut (e.sent ++ (produce e.input).1) f.sent) (Turned produce e)) :
    Shows passes d (.loop (fun _ => turn) ()) (fun e => Cut (d.sent ++ (produce d.input).1) e.sent)
      (Published produce d) := by
  refine shows_loop (fun _ e => Turned produce d (.inl ()) e) (fun _ e he => ?_) ⟨rfl, rfl, rfl⟩
  obtain ⟨hcerr, hcode, hsent⟩ := he
  refine (hturn e).weaken (fun f hf => hsent ▸ hf) fun outcome f hturned => ?_
  cases outcome with
  | inl _ => exact ⟨hturned.1.trans hcerr, hturned.2.1.trans hcode, hturned.2.2.trans hsent⟩
  | inr code =>
    unfold Turned at hturned
    dsimp only [Sum.elim_inr] at hturned ⊢
    unfold Published
    split at hturned
    · rename_i hzero
      obtain ⟨hsame, hquiet, hproduce⟩ := hturned
      rw [if_pos hzero, ← hsent, ← hcode, hproduce]
      exact ⟨by simpa using hsame, rfl, hquiet.trans hcerr⟩
    · rename_i hnonzero
      rw [if_neg hnonzero]
      exact ⟨hturned.1, hcerr ▸ hturned.2⟩

theorem execute_publish_text_end {topic input : Bytes} (hline : client.getline input = none) :
    client.execute_publish_text topic input = ([], 0) := by
  rw [client.execute_publish_text]
  split
  · rfl
  · rename_i hsome
    rw [hline] at hsome
    cases hsome

theorem execute_publish_text_line {topic input line rest : Bytes} (hline : client.getline input = some (line, rest)) :
    client.execute_publish_text topic input =
      match split_text line with
      | none => ([], 1)
      | some (key, value) =>
        if exceeds_limit key value then ([], 1)
        else (Request.serialize_produce topic key value :: (client.execute_publish_text topic rest).1,
          (client.execute_publish_text topic rest).2) := by
  rw [client.execute_publish_text]
  split
  · rename_i hnone
    rw [hline] at hnone
    cases hnone
  · rename_i hsome
    rw [hline] at hsome
    cases hsome
    rfl

theorem publish_text_turn_shows (topic : Bytes) (writer : Members) :
    Shows passes d (publish_text_turn topic writer)
      (fun e => Cut (d.sent ++ (client.execute_publish_text topic d.input).1) e.sent)
      (Turned (client.execute_publish_text topic) d) := by
  have hstays : Cut (d.sent ++ (client.execute_publish_text topic d.input).1) d.sent := .inl (List.prefix_append _ _)
  have hrefuse : ∀ {text : Bytes} {e : Data}, text ≠ [] → e.sent = d.sent → e.cerr = d.cerr →
      Shows passes e (do Sys.cerr_write text; return (.inr 1 : Unit ⊕ Nat))
        (fun e => Cut (d.sent ++ (client.execute_publish_text topic d.input).1) e.sent)
        (Turned (client.execute_publish_text topic) d) := by
    intro text e htext hsent hcerr
    refine (report_shows htext 1 ⟨by decide, by decide⟩ _ (hsent ▸ hstays)).weaken (fun _ h => h) ?_
    rintro _ f ⟨rfl, hreported⟩
    exact (hreported.after hsent hcerr).turned fun hcode => absurd hcode (by decide)
  refine (getline_shows hstays).bind ?_
  rintro (line | _ | _) e he
  · obtain ⟨rest, hline, rfl⟩ := he
    dsimp only
    split
    · exact hrefuse (by decide) rfl rfl
    · rename_i key value hsplit
      split
      · exact hrefuse (by decide) rfl rfl
      · rename_i hlimit
        refine send_frame_shows writer ?_
        rw [execute_publish_text_line hline, hsplit]
        dsimp only
        rw [if_neg hlimit]
  · obtain ⟨hend, rfl⟩ := he
    exact shows_return hstays ⟨rfl, rfl, execute_publish_text_end hend⟩
  · subst he
    exact hrefuse (by decide) rfl rfl

theorem publish_raw_turn_shows (topic : Bytes) (writer : Members) :
    Shows passes d (publish_raw_turn topic writer)
      (fun e => Cut (d.sent ++ (client.execute_publish_raw topic d.input).1) e.sent)
      (Turned (client.execute_publish_raw topic) d) := by
  have hstays : Cut (d.sent ++ (client.execute_publish_raw topic d.input).1) d.sent := .inl (List.prefix_append _ _)
  refine (read_record_shows hstays).bind ?_
  rintro (⟨key, value⟩ | code) e he
  · obtain ⟨rest, hread, rfl⟩ := he
    exact send_frame_shows writer (execute_publish_raw_ok hread)
  · obtain ⟨hend, hreported⟩ := he
    exact shows_return (hreported.1 ▸ hstays) (hreported.turned fun hcode => execute_publish_raw_error (hend hcode))

/-- The pure exchange finds the code of a response that the FIFO begins with. -/
theorem exchange_request_begins (status : StatusCode) (payload rest : Bytes) :
    client.exchange_request (Response.serialize_response status payload ++ rest) = some status := by
  have hheader : parse_response_header (Response.serialize_response status payload ++ rest) =
      some ⟨status, to_uint32 payload.length⟩ := by
    have hcode : ¬ status.code > 3 := by cases status <;> decide
    simp [parse_response_header, Response.serialize_response, write_uint32_le_eq, hcode, read_le32_append]
  have hlength : (Response.serialize_response status payload ++ rest).length = 5 + payload.length + rest.length := by
    simp [Response.serialize_response, write_uint32_le_eq]
    omega
  have hle : (to_uint32 payload.length).toNat ≤ payload.length := Nat.mod_le _ _
  rw [client.exchange_request, hheader, hlength, if_neg (by omega)]
  dsimp only
  rw [if_neg (by omega)]

/-- After the CONNECT request of a producer. -/
def Connected (d : Data) (request : Bytes) (code : Nat) (e : Data) : Prop :=
  if code = 0 then
    client.exchange_request d.pipe = some .SUCCESS ∧ e.sent = d.sent ++ [request] ∧ e.input = d.input ∧ e.cerr = d.cerr
  else code ≤ 3 ∧ e.cerr ≠ d.cerr

theorem Requested.connected {request : Bytes} {code : Nat} {e : Data}
    (hrequested : Requested d request (fun code => exit_code_from_response_code code.code) (fun _ e => e) code e) :
    Connected d request code e := by
  obtain ⟨⟨outcome, status, payload⟩, f, hf, hafter⟩ := hrequested
  have hquiet : f.cerr = d.cerr := (exchanged_exchanging hf).cerr
  unfold Connected
  cases outcome with
  | Complete =>
    obtain ⟨pipe, rfl, hpipe⟩ := hf
    dsimp only [exchange_error] at hafter
    split at hafter
    · rename_i hcode
      obtain ⟨rfl, rfl⟩ := hafter
      rw [if_neg hcode]
      refine ⟨by cases status <;> decide, ?_⟩
      rw [← hquiet]
      refine report_ne ?_ _
      unfold error_text
      split
      · decide
      · simp
    · rename_i hcode
      obtain ⟨rfl, rfl⟩ := hafter
      obtain rfl : status = .SUCCESS := by cases status <;> first | rfl | exact absurd (by decide) hcode
      rw [if_pos rfl, hpipe, exchange_request_begins]
      exact ⟨rfl, rfl, rfl, rfl⟩
  | ServerUnavailable | CommunicationError | InvalidResponse =>
    obtain ⟨rfl, rfl⟩ := hafter
    rw [if_neg (by decide), ← hquiet]
    exact ⟨by decide, report_ne (by decide) _⟩

/-- What a producer is to write for its input, and its exit code if it can write that. -/
def produced (command : Command) (input : Bytes) : List Bytes × Nat :=
  if command.raw then client.execute_publish_raw command.topic input
  else client.execute_publish_text command.topic input

theorem publish_shows (command : Command) (writer : Members) :
    Shows passes d (publish command writer) (fun e => Cut (d.sent ++ (produced command d.input).1) e.sent)
      (Published (produced command) d) := by
  have hstays : Cut (d.sent ++ (produced command d.input).1) d.sent := .inl (List.prefix_append _ _)
  unfold publish
  split
  · refine (report_shows (C := Cut (d.sent ++ (produced command d.input).1)) (by decide) 1 ⟨by decide, by decide⟩ _
      hstays).weaken (fun _ h => h) ?_
    rintro _ e ⟨rfl, hreported⟩
    exact hreported.2
  · unfold produced
    split
    · exact publish_loop_shows fun e => publish_raw_turn_shows command.topic writer
    · exact publish_loop_shows fun e => publish_text_turn_shows command.topic writer

/-- A producer that starts with nothing sent: at every moment it has handed over whole frames of those
it is to write, and a part of the next at most. -/
theorem execute_producer_command_shows (hsent : d.sent = []) (client_pid : UInt32) (command : Command) :
    Shows passes d (execute_producer_command client_pid command)
      (fun e => Cut (client.execute_producer_command client_pid command d.pipe d.input) e.sent)
      (fun code e =>
        if code = 0 then
          client.exchange_request d.pipe = some .SUCCESS ∧ (produced command d.input).2 = 0 ∧
            e.sent = client.execute_producer_command client_pid command d.pipe d.input ∧ e.cerr = d.cerr
        else code ≤ 3 ∧ e.cerr ≠ d.cerr) := by
  have hfirst : ∀ e, Exchanging d (Request.serialize_connect client_pid command.topic) e →
      Cut (client.execute_producer_command client_pid command d.pipe d.input) e.sent :=
    fun e he => he.cut hsent _
  have hconnect : Shows passes d (execute_connect_command client_pid command)
      (fun e => Cut (client.execute_producer_command client_pid command d.pipe d.input) e.sent) _ :=
    execute_request_shows client_pid command (Request.serialize_connect client_pid command.topic) _ (fun _ e => e) hfirst
      (fun _ => hfirst) fun _ e he => shows_return (hfirst e he) rfl
  refine hconnect.returned.bind ?_
  rintro connect_code e ⟨hstays, hrequested⟩
  have hconnected := hrequested.connected
  unfold Connected at hconnected
  split at hconnected
  · rename_i hzero
    subst hzero
    obtain ⟨hsuccess, hsame, hinput, hquiet⟩ := hconnected
    have hframes : client.execute_producer_command client_pid command d.pipe d.input =
        e.sent ++ (produced command e.input).1 := by
      rw [client.execute_producer_command, hsuccess, hsame, hsent, hinput, produced]
      cases command.raw <;> rfl
    rw [if_neg (by simp)]
    refine (FifoWriter.open_fifo_steady command.ipc_identifier e _ hstays).bind ?_
    rintro writer _ rfl
    rw [hframes]
    refine ((publish_shows command writer).weaken (fun _ hcut => hcut) fun code f hpublished => ?_).finish
      (FifoWriter.close_steady writer)
    unfold Published at hpublished
    split
    · rename_i hcode
      rw [if_pos hcode] at hpublished
      exact ⟨hsuccess, hinput ▸ hpublished.2.1, hpublished.1, hpublished.2.2.trans hquiet⟩
    · rename_i hcode
      rw [if_neg hcode] at hpublished
      exact ⟨hpublished.1, hquiet ▸ hpublished.2⟩
  · rename_i hcode
    rw [if_pos hcode]
    refine shows_return hstays ?_
    rw [if_neg hcode]
    exact hconnected

end treenity.client.Process

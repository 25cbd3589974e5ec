import Treenity.Client.Process
import Treenity.Ipc.Effects
import Treenity.Protocol.Decoders

open treenity.foundation treenity.protocol treenity.ipc treenity.server

namespace treenity.client.Process

variable {passes : Bytes → Bytes → Nat} {α : Type} {d : Data}

/-- A response is its header and its payload. -/
theorem serialize_response_of_header {buf payload : Bytes} {header : ManagementResponseHeader} (hlength : buf.length = 5)
    (hparse : parse_response_header buf = some header) (hpayload : payload.length = header.payload_len.toNat) :
    Response.serialize_response header.status_code payload = buf ++ payload := by
  unfold parse_response_header at hparse
  split at hparse
  · cases hparse
  · rename_i hcode
    cases hparse
    dsimp only at hpayload ⊢
    have hfirst : (buf ++ payload).getD 0 0 = buf.getD 0 0 := by
      rw [List.getD_append _ _ _ _ (by omega)]
    have hnumber : read_uint32_le ((buf ++ payload).drop 1) = read_uint32_le (buf.drop 1) := by
      rw [List.drop_append_of_le_length (by omega), read_uint32_le_append (by rw [List.length_drop]; omega)]
    have hlong : 5 ≤ (buf ++ payload).length := by rw [List.length_append]; omega
    have hparts := Response.serialize_response_parts hlong (by rwa [hfirst])
      (by rw [hnumber, List.length_append]; omega)
    rw [hfirst, List.drop_left' hlength] at hparts
    exact hparts.symm

/-- During an exchange a part of the request may have been handed over, and bytes were taken from
the FIFO. -/
structure Exchanging (d : Data) (request : Bytes) (e : Data) : Prop where
  input : e.input = d.input
  cout : e.cout = d.cout
  cerr : e.cerr = d.cerr
  pipe : e.pipe <:+ d.pipe
  sent : e.sent = d.sent ∨ ∃ part, part <+: request ∧ e.sent = d.sent ++ [part]

/-- What is known after an exchange. -/
def Exchanged (d : Data) (request : Bytes) (result : IpcExchangeResult) (e : Data) : Prop :=
  match result.status with
  | .Complete => ∃ pipe, e = { d.hand_over request with pipe } ∧
    d.pipe = Response.serialize_response result.response.code result.response.payload ++ pipe
  | .ServerUnavailable => e = d
  | .InvalidResponse => ∃ pipe header, e = { d.hand_over request with pipe } ∧ d.pipe = header ++ pipe ∧
    header.length = 5 ∧ parse_response_header header = none
  | .CommunicationError => Exchanging d request e

theorem exchanged_exchanging {request : Bytes} {result : IpcExchangeResult} {e : Data}
    (hexchanged : Exchanged d request result e) : Exchanging d request e := by
  unfold Exchanged at hexchanged
  split at hexchanged
  · obtain ⟨pipe, rfl, hpipe⟩ := hexchanged
    exact ⟨rfl, rfl, rfl, ⟨_, hpipe.symm⟩, .inr ⟨request, List.prefix_refl _, rfl⟩⟩
  · subst hexchanged
    exact ⟨rfl, rfl, rfl, List.suffix_refl _, .inl rfl⟩
  · obtain ⟨pipe, header, rfl, hpipe, _⟩ := hexchanged
    exact ⟨rfl, rfl, rfl, ⟨_, hpipe.symm⟩, .inr ⟨request, List.prefix_refl _, rfl⟩⟩
  · exact hexchanged

theorem exchange_over_shows (reader writer : Members) (request : Bytes) :
    Shows passes d (exchange_over reader writer request) (Exchanging d request)
      (fun outcome e => Exchanged d request outcome.1 e) := by
  have hstart : Exchanging d request d := ⟨rfl, rfl, rfl, List.suffix_refl _, .inl rfl⟩
  have hpart : ∀ part, part <+: request → Exchanging d request (d.hand_over part) :=
    fun part hpart => ⟨rfl, rfl, rfl, List.suffix_refl _, .inr ⟨part, hpart, rfl⟩⟩
  have hread : ∀ pipe, pipe <:+ d.pipe → Exchanging d request { d.hand_over request with pipe } :=
    fun pipe hpipe => ⟨rfl, rfl, rfl, hpipe, .inr ⟨request, List.prefix_refl _, rfl⟩⟩
  unfold exchange_over
  split
  · exact shows_return hstart rfl
  refine (writer.write_exact_shows request hstart hpart).bind fun written e he => ?_
  cases written with
  | false =>
    rcases he with rfl | ⟨part, hbegins, _, rfl⟩
    · exact shows_return hstart hstart
    · exact shows_return (hpart part hbegins) (hpart part hbegins)
  | true =>
    obtain rfl : e = d.hand_over request := he
    refine (FifoWriter.close_steady writer _ _ (hpart request (List.prefix_refl _))).bind ?_
    rintro _ _ rfl
    refine (reader.read_exact_shows 5 2000 hread).bind ?_
    rintro ⟨ok, header_buf⟩ _ ⟨pipe, rfl, hpipe, hheader⟩
    cases ok with
    | false => exact shows_return (hread pipe hpipe) (hread pipe hpipe)
    | true =>
      obtain ⟨hlength, hsplit⟩ := hheader rfl
      simp only [Bool.not_true, Bool.false_eq_true, if_false]
      split
      · rename_i hnone
        exact shows_return (hread pipe hpipe) ⟨pipe, header_buf, rfl, hsplit, hlength, hnone⟩
      · rename_i header hsome
        split
        · have hcut : ∀ rest, rest <:+ pipe → Exchanging d request { d.hand_over request with pipe := rest } :=
            fun rest hrest => hread rest (hrest.trans hpipe)
          refine (reader.read_exact_shows header.payload_len.toNat 2000 hcut).bind ?_
          rintro ⟨ok, payload⟩ _ ⟨rest, rfl, hrest, hpayload⟩
          cases ok with
          | false => exact shows_return (hcut rest hrest) (hcut rest hrest)
          | true =>
            obtain ⟨hcount, hparts⟩ := hpayload rfl
            refine shows_return (hcut rest hrest) ⟨rest, rfl, ?_⟩
            dsimp only at hparts ⊢
            rw [serialize_response_of_header hlength hsome hcount, List.append_assoc, ← hparts]
            exact hsplit
        · rename_i hzero
          refine shows_return (hread pipe hpipe) ⟨pipe, rfl, ?_⟩
          have hnone : ([] : Bytes).length = header.payload_len.toNat := by
            have hle := UInt32.not_lt.mp hzero
            rw [UInt32.le_iff_toNat_le] at hle
            exact (Nat.le_zero.mp hle).symm
          dsimp only
          rw [serialize_response_of_header hlength hsome hnone, List.append_nil]
          exact hsplit

theorem exchange_with_shows (reader : Members) (server_fifo request : Bytes) :
    Shows passes d (exchange_with reader server_fifo request) (Exchanging d request)
      (fun result e => Exchanged d request result e) := by
  have hstart : Exchanging d request d := ⟨rfl, rfl, rfl, List.suffix_refl _, .inl rfl⟩
  unfold exchange_with
  split
  · exact shows_return hstart hstart
  refine (FifoWriter.open_fifo_steady server_fifo d _ hstart).bind ?_
  rintro writer _ rfl
  refine (exchange_over_shows reader writer request).bind ?_
  rintro ⟨result, left⟩ e he
  refine (FifoWriter.close_steady left e _ (exchanged_exchanging he)).bind ?_
  rintro _ _ rfl
  exact shows_return (exchanged_exchanging he) he

/-- An exchange: what it hands over is a part of the request, and a response is at the front of
what the FIFO held. -/
theorem exchange_request_shows (client_pid : UInt32) (server_fifo request : Bytes) :
    Shows passes d (exchange_request server_fifo client_pid request) (Exchanging d request)
      (fun result e => Exchanged d request result e) := by
  have hstart : Exchanging d request d := ⟨rfl, rfl, rfl, List.suffix_refl _, .inl rfl⟩
  refine (FifoReader.create_steady _ true d _ hstart).bind ?_
  rintro reader _ rfl
  exact (exchange_with_shows reader server_fifo request).finish (FifoReader.close_steady reader)

/-- The data after writes to the standard output. -/
def printed (passes : Bytes → Bytes → Nat) (prints : List Bytes) (d : Data) : Data :=
  { d with cout := prints.foldl (·.write passes) d.cout }

/-- The writes of `write_output`. -/
def output_lines (payload : Bytes) : List Bytes := if payload.isEmpty then [[10]] else [payload, [10]]

theorem write_line_shows {R : Data → Prop} (hstays : ∀ cout, R { d with cout }) (prints : List Bytes) :
    Shows passes (printed passes prints d) (do let _ ← Sys.cout_write [10]) R
      (fun _ e => e = printed passes (prints ++ [[10]]) d) := by
  refine Shows.bind (shows_cout_write (d := printed passes prints d) [10] (hstays _) (hstays _)) ?_
  rintro good _ ⟨rfl, _⟩
  refine shows_return (hstays _) ?_
  simp [printed]

theorem write_output_shows {R : Data → Prop} (payload : Bytes) (hstays : ∀ cout, R { d with cout }) :
    Shows passes d (write_output payload) R (fun _ e => e = printed passes (output_lines payload) d) := by
  unfold write_output output_lines
  split
  · rename_i hsome
    rw [if_neg (by simpa using hsome)]
    refine (shows_cout_write payload (hstays _) (hstays _)).bind ?_
    rintro good _ ⟨rfl, _⟩
    exact write_line_shows hstays [payload]
  · rename_i hempty
    rw [if_pos (by simpa using hempty)]
    exact write_line_shows hstays []

/-- After a command that made one request: it reports an exchange that failed, a response that
is an error, or it goes on with the payload. -/
def Requested (d : Data) (request : Bytes) (exit_code : StatusCode → Nat) (success : Bytes → Data → Data) (code : Nat)
    (e : Data) : Prop :=
  ∃ result f, Exchanged d request result f ∧
    match exchange_error result.status with
    | some (text, failure) => code = failure ∧ e = f.report text
    | none =>
      if exit_code result.response.code ≠ 0 then
        code = exit_code result.response.code ∧ e = f.report (error_text result.response.payload)
      else code = 0 ∧ e = success result.response.payload f

theorem execute_request_shows {R : Data → Prop} (client_pid : UInt32) (command : Command) (request : Bytes)
    (exit_code : StatusCode → Nat) {success : Bytes → Calls Unit} (after : Bytes → Data → Data)
    (hstays : ∀ e, Exchanging d request e → R e) (hreport : ∀ text e, Exchanging d request e → R (e.report text))
    (hsuccess : ∀ payload e, Exchanging d request e → Shows passes e (success payload) R (fun _ f => f = after payload e)) :
    Shows passes d (execute_request client_pid command request exit_code success) R
      (Requested d request exit_code after) := by
  refine ((exchange_request_shows client_pid command.ipc_identifier request).weaken hstays fun _ _ h => h).bind ?_
  intro result f hf
  have hduring := exchanged_exchanging hf
  cases hstatus : exchange_error result.status with
  | some failure =>
    obtain ⟨text, code⟩ := failure
    refine (shows_cerr_write text (hstays f hduring) (hreport text f hduring)).bind ?_
    rintro _ _ rfl
    refine shows_return (hreport text f hduring) ⟨result, f, hf, ?_⟩
    rw [hstatus]
    exact ⟨rfl, rfl⟩
  | none =>
    by_cases hcode : exit_code result.response.code ≠ 0
    · dsimp only
      rw [if_pos hcode]
      refine (shows_cerr_write _ (hstays f hduring) (hreport _ f hduring)).bind ?_
      rintro _ _ rfl
      refine shows_return (hreport _ f hduring) ⟨result, f, hf, ?_⟩
      rw [hstatus]
      dsimp only
      rw [if_pos hcode]
      exact ⟨rfl, rfl⟩
    · dsimp only
      rw [if_neg hcode]
      refine (hsuccess result.response.payload f hduring).returned.bind ?_
      rintro _ _ ⟨hafter, rfl⟩
      refine shows_return hafter ⟨result, f, hf, ?_⟩
      rw [hstatus]
      dsimp only
      rw [if_neg hcode]
      exact ⟨rfl, rfl⟩

/-- Nothing but the response itself begins with a whole response. -/
theorem serialize_response_prefix {status status' : StatusCode} {body payload rest : Bytes} (hbody : body.length < 2 ^ 32)
    (hbegins : Response.serialize_response status' payload ++ rest <+: Response.serialize_response status body) :
    status' = status ∧ payload = body ∧ rest = [] := by
  obtain ⟨more, hmore⟩ := hbegins
  simp only [Response.serialize_response, write_uint32_le_eq, List.cons_append, List.nil_append, List.append_assoc,
    List.cons.injEq] at hmore
  obtain ⟨hcode, htail⟩ := hmore
  obtain ⟨hlengths, hparts⟩ := List.append_inj htail (by simp)
  have hlength := congrArg read_uint32_le hlengths
  rw [← List.append_nil (le32 _), read_le32_append, ← List.append_nil (le32 _), read_le32_append] at hlength
  have hle : payload.length ≤ body.length := by
    rw [← hparts, List.length_append]
    omega
  have hsame : payload.length = body.length := by
    rw [← to_uint32_toNat (show payload.length < 2 ^ 32 by omega), hlength, to_uint32_toNat hbody]
  obtain ⟨hpayload, hrest⟩ := List.append_inj (hparts.trans (List.append_nil body).symm) hsame
  refine ⟨?_, hpayload, (List.append_eq_nil_iff.mp hrest).1⟩
  rw [← StatusCode.of_code_code status', hcode, StatusCode.of_code_code]

/-- The first five bytes of a response are a header. -/
theorem parse_response_header_begins {status : StatusCode} {body header rest : Bytes} (hlength : header.length = 5)
    (hbegins : header ++ rest <+: Response.serialize_response status body) :
    parse_response_header header = some ⟨status, to_uint32 body.length⟩ := by
  obtain ⟨more, hmore⟩ := hbegins
  have htake : (Response.serialize_response status body).take 5 = header := by
    rw [← hmore, List.append_assoc, ← hlength, List.take_left]
  rw [← htake, Response.parse_response_header_take (by simp [Response.serialize_response, write_uint32_le_eq])]
  exact Response.parse_response_header_serialize status body

/-- The texts and codes of a command that got no answer. -/
def failures : List (Bytes × Nat) :=
  [(ascii "failed to install shutdown signal handlers\n", 1), (ascii "failed to connect to server FIFO\n", 1),
    (ascii "IPC communication error\n", 3)]

/-- A command that got no answer says so, and has handed over a part of its request at most. -/
def Unanswered (d : Data) (request : Bytes) (code : Nat) (e : Data) : Prop :=
  ∃ text f, (text, code) ∈ failures ∧ Exchanging d request f ∧ e = f.report text

/-- With a whole or broken response in its FIFO, a command goes by that response or it says that it
got none. -/
theorem Requested.answered {request body : Bytes} {status : StatusCode} {exit_code : StatusCode → Nat}
    {success : Bytes → Data → Data} {code : Nat} {e : Data} (hrequested : Requested d request exit_code success code e)
    (hpipe : d.pipe <+: Response.serialize_response status body) (hbody : body.length < 2 ^ 32) :
    Unanswered d request code e ∨
      if exit_code status ≠ 0 then
        code = exit_code status ∧ e = ({ d.hand_over request with pipe := [] } : Data).report (error_text body)
      else code = 0 ∧ e = success body { d.hand_over request with pipe := [] } := by
  obtain ⟨⟨outcome, response⟩, f, hf, hafter⟩ := hrequested
  have hduring := exchanged_exchanging hf
  cases outcome with
  | Complete =>
    obtain ⟨pipe, rfl, hresponse⟩ := hf
    rw [hresponse] at hpipe
    obtain ⟨rfl, rfl, rfl⟩ := serialize_response_prefix hbody hpipe
    exact .inr hafter
  | InvalidResponse =>
    obtain ⟨pipe, header, rfl, hsplit, hlength, hnone⟩ := hf
    rw [hsplit] at hpipe
    rw [parse_response_header_begins hlength hpipe] at hnone
    cases hnone
  | ServerUnavailable =>
    obtain ⟨rfl, rfl⟩ := hafter
    exact .inl ⟨_, f, by simp [failures], hduring, rfl⟩
  | CommunicationError =>
    obtain ⟨rfl, rfl⟩ := hafter
    exact .inl ⟨_, f, by simp [failures], hduring, rfl⟩

end treenity.client.Process

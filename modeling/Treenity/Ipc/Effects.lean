import Treenity.Ipc.Fifo

open treenity.foundation treenity.protocol

namespace treenity.ipc

/-- What a process gets to read and what it has written. -/
structure Data where
  pipe : Bytes
  input : Bytes
  sent : List Bytes
  cout : Ostream UInt8
  cerr : Bytes

def World.data (self : World) : Data := ⟨self.pipe, self.input, self.sent, self.cout, self.cerr⟩

namespace Data

def hand_over (self : Data) (bytes : Bytes) : Data := { self with sent := self.sent ++ [bytes] }

def report (self : Data) (text : Bytes) : Data := { self with cerr := self.cerr ++ text }

end Data

/-- A call that neither reads nor writes. -/
def Call.steady : Call → Bool
  | .write_exact _ _ | .read_exact _ _ _ | .getline | .cin_read _ | .cout_write _ | .cout_flush | .cerr_write _ => false
  | _ => true

variable {passes : Bytes → Bytes → Nat} {α β : Type} {d : Data} {R : Data → Prop} {Q : α → Data → Prop}

theorem answers_steady {call : Call} {answer : call.Answer} {w v : World} (hsteady : call.steady = true)
    (hanswer : Answers passes w call answer v) : v.data = w.data := by
  cases call with
  | mkfifo path =>
    cases answer with
    | true =>
      obtain ⟨_, _, rfl⟩ := hanswer
      rfl
    | false =>
      cases hanswer
      rfl
  | open_fifo path mode =>
    cases answer with
    | opened fd =>
      obtain ⟨_, rfl⟩ := hanswer
      rfl
    | unready | failed =>
      cases hanswer
      rfl
  | write_exact | read_exact | getline | cin_read | cout_write | cout_flush | cerr_write => cases hsteady
  | _ =>
    cases hanswer
    rfl

/-- Started with this data, a program stays with data in `R`, and when it returns what it returns
and the data are in `Q`. -/
def Shows (passes : Bytes → Bytes → Nat) (d : Data) (program : Calls α) (R : Data → Prop) (Q : α → Data → Prop) : Prop :=
  program.Meets (Answers passes) (fun w => w.data = d) (fun w => R w.data) (fun value w => Q value w.data)

theorem shows_return {value : α} (hstays : R d) (hreturns : Q value d) : Shows passes d (pure value) R Q :=
  Program.meets_pure fun _ hw => by rw [hw]; exact ⟨hstays, hreturns⟩

theorem Shows.bind {first : Calls β} {next : β → Calls α} {M : β → Data → Prop} (hfirst : Shows passes d first R M)
    (hnext : ∀ value e, M value e → Shows passes e (next value) R Q) : Shows passes d (first >>= next) R Q := by
  refine Program.meets_bind hfirst fun value w o v hw hruns => ?_
  exact hnext value w.data hw w o v rfl hruns

theorem Shows.weaken {R' : Data → Prop} {Q' : α → Data → Prop} {program : Calls α} (hshows : Shows passes d program R Q)
    (halways : ∀ e, R e → R' e) (hafter : ∀ value e, Q value e → Q' value e) : Shows passes d program R' Q' :=
  Program.Meets.weaken hshows (fun _ hw => hw) (fun _ => halways _) (fun value _ => hafter value _)

theorem Shows.returned {program : Calls α} (hshows : Shows passes d program R Q) :
    Shows passes d program R (fun value e => R e ∧ Q value e) := Program.Meets.returned hshows

theorem shows_loop {σ : Type} {body : σ → Calls (σ ⊕ α)} (I : σ → Data → Prop)
    (hbody : ∀ s e, I s e → Shows passes e (body s) R (fun outcome e => outcome.elim (I · e) (Q · e))) {s : σ}
    (hstart : I s d) : Shows passes d (.loop body s) R Q := by
  have hturn : ∀ s, Program.Meets (Answers passes) (fun w => I s w.data) (body s) (fun w => R w.data)
      (fun outcome => outcome.elim (fun s w => I s w.data) (fun value w => Q value w.data)) := by
    intro s w o v hw hruns
    obtain ⟨hstays, hreturns⟩ := hbody s w.data hw w o v rfl hruns
    refine ⟨hstays, fun outcome houtcome => ?_⟩
    have hafter := hreturns outcome houtcome
    cases outcome <;> exact hafter
  exact fun w o v hw hruns => Program.meets_loop _ hturn s w o v (show I s w.data by rwa [show w.data = d from hw]) hruns

/-- A read takes bytes from the front of the stream, also when it fails. -/
theorem FifoReader.read_exact_left {self : FifoReader} {poll : Nat → PollResult} {read : Nat → ReadResult}
    {timeout_ms : Int} {dest stream held left : Bytes} {fuel : Nat} {ok : Bool}
    (hread : self.read_exact poll read timeout_ms dest stream fuel = some (ok, held, left)) : left <:+ stream := by
  unfold read_exact at hread
  split at hread
  · cases hread
    exact List.suffix_refl _
  · refine turns_invariant (P := Loop.Taken dest.length stream) (Q := fun outcome : Bool × Bytes × Bytes =>
      outcome.2.2 <:+ stream) (fun _ _ _ => read_turn_taken) ?_ ⟨rfl, Nat.zero_le _, rfl⟩ hread
    rintro i loop ⟨ok, memory, rest⟩ ⟨_, _, hstream⟩ hturn
    obtain ⟨hsame, _⟩ := read_turn_returns hturn
    obtain ⟨rfl, rfl⟩ := Prod.mk.inj hsame
    exact ⟨_, hstream.symm⟩

/-- What is known of the data after a `write_exact`. -/
def Handed (d : Data) (src : Bytes) (ok : Bool) (e : Data) : Prop :=
  if ok then e = d.hand_over src else e = d ∨ ∃ part, part <+: src ∧ part ≠ src ∧ e = d.hand_over part

/-- What is known of the data after a `read_exact`. -/
def Taken (d : Data) (count : Nat) (answer : Bool × Bytes) (e : Data) : Prop :=
  ∃ pipe, e = { d with pipe } ∧ pipe <:+ d.pipe ∧ (answer.1 = true → answer.2.length = count ∧ d.pipe = answer.2 ++ pipe)

section Calls

theorem shows_ask {call : Call} {Q : call.Answer → Data → Prop} (hstays : R d)
    (hanswers : ∀ w answer v, w.data = d → Answers passes w call answer v → R v.data ∧ Q answer v.data) :
    Shows passes d (ask call) R Q :=
  Program.meets_request (fun w hw => by rw [show w.data = d from hw]; exact hstays) hanswers

theorem shows_cerr_write (text : Bytes) (hstays : R d) (hreported : R (d.report text)) :
    Shows passes d (Sys.cerr_write text) R (fun _ e => e = d.report text) := by
  refine shows_ask hstays fun w answer v hw hanswer => ?_
  cases hanswer
  subst hw
  exact ⟨hreported, rfl⟩

theorem shows_cout_write (bytes : Bytes) (hstays : R d) (hwritten : R { d with cout := d.cout.write passes bytes }) :
    Shows passes d (Sys.cout_write bytes) R (fun good e =>
      e = { d with cout := d.cout.write passes bytes } ∧ good = (d.cout.write passes bytes).good) := by
  refine shows_ask hstays fun w answer v hw hanswer => ?_
  obtain ⟨rfl, rfl⟩ := hanswer
  subst hw
  exact ⟨hwritten, rfl, rfl⟩

theorem shows_cin_read (count : Nat) (hread : ∀ input, R { d with input }) :
    Shows passes d (Sys.cin_read count) R (fun answer e => answer.1 <+: d.input.take count ∧
      (answer.1.length < count → answer.2 = true → answer.1 = d.input) ∧
        e = { d with input := d.input.drop answer.1.length }) := by
  refine shows_ask (hread d.input) fun w answer v hw hanswer => ?_
  obtain ⟨bytes, eof⟩ := answer
  obtain ⟨hbegins, hend, rfl⟩ := hanswer
  subst hw
  exact ⟨hread _, hbegins, hend, rfl⟩

end Calls

namespace Members

theorem write_exact_shows (self : Members) (src : Bytes) (hstays : R d) (hpart : ∀ part, part <+: src → R (d.hand_over part)) :
    Shows passes d (self.write_exact src) R (Handed d src) := by
  unfold write_exact
  split
  · refine shows_ask hstays fun w ok v hw hanswer => ?_
    obtain ⟨kernel, sent, fuel, hwrite, rfl⟩ := hanswer
    subst hw
    have hspec := FifoWriter.write_exact_spec (Int.natCast_nonneg _) hwrite
    cases ok with
    | true =>
      obtain rfl : sent = src := hspec
      exact ⟨hpart _ (List.prefix_refl _), rfl⟩
    | false =>
      obtain ⟨hbegins, hshort⟩ := hspec
      exact ⟨hpart _ hbegins, .inr ⟨sent, hbegins, hshort, rfl⟩⟩
  · exact shows_return hstays (.inl rfl)

theorem read_exact_shows (self : Members) (count : Nat) (timeout_ms : Int)
    (hpipe : ∀ pipe, pipe <:+ d.pipe → R { d with pipe }) :
    Shows passes d (self.read_exact count timeout_ms) R (Taken d count) := by
  have hstays : R d := hpipe d.pipe (List.suffix_refl _)
  unfold read_exact
  split
  · refine shows_ask hstays fun w answer v hw hanswer => ?_
    obtain ⟨ok, dest⟩ := answer
    obtain ⟨poll, read, left, fuel, hread, rfl⟩ := hanswer
    subst hw
    have hleft := FifoReader.read_exact_left hread
    refine ⟨hpipe left hleft, left, rfl, hleft, ?_⟩
    rintro rfl
    have hspec := FifoReader.read_exact_spec (Int.natCast_nonneg _) hread
    rwa [List.length_replicate] at hspec
  · exact shows_return hstays ⟨d.pipe, rfl, List.suffix_refl _, fun hok => by cases hok⟩

end Members

/-- A program that neither reads nor writes. -/
def Steady (passes : Bytes → Bytes → Nat) (program : Calls α) : Prop :=
  ∀ (d : Data) (R : Data → Prop), R d → Shows passes d program R (fun _ e => e = d)

theorem steady_ask {call : Call} (hsteady : call.steady = true) : Steady passes (ask call) := by
  intro d R hstays
  refine shows_ask hstays fun w answer v hw hanswer => ?_
  have hsame := answers_steady hsteady hanswer
  rw [hsame, show w.data = d from hw]
  exact ⟨hstays, rfl⟩

theorem steady_return (value : α) : Steady passes (pure value : Calls α) := fun _ _ hstays => shows_return hstays rfl

theorem Steady.bind {first : Calls β} {next : β → Calls α} (hfirst : Steady passes first)
    (hnext : ∀ value, Steady passes (next value)) : Steady passes (first >>= next) := by
  intro d R hstays
  refine (hfirst d R hstays).bind ?_
  rintro value e rfl
  exact hnext value e R hstays

/-- A program whose last step, before it returns, neither reads nor writes. -/
theorem Shows.finish {program : Calls α} {last : Calls Unit} (hshows : Shows passes d program R Q)
    (hlast : Steady passes last) : Shows passes d (do let value ← program; last; return value) R Q := by
  refine hshows.returned.bind ?_
  rintro value e ⟨hstays, hreturns⟩
  refine (hlast e R hstays).bind ?_
  rintro _ _ rfl
  exact shows_return hstays hreturns

theorem steady_loop {σ : Type} {body : σ → Calls (σ ⊕ α)} (hbody : ∀ s, Steady passes (body s)) (s : σ) :
    Steady passes (.loop body s) := by
  intro d R hstays
  refine shows_loop (fun _ e => e = d) ?_ rfl
  rintro t e rfl
  exact (hbody t e R hstays).weaken (fun _ hw => hw) fun outcome e he => by cases outcome <;> exact he

theorem steady_unlink (path : Bytes) : Steady passes (Sys.unlink path) := steady_ask rfl

theorem steady_install_shutdown_handlers : Steady passes Sys.install_shutdown_handlers := steady_ask rfl

theorem steady_close (fd : Nat) : Steady passes (Sys.close fd) := steady_ask rfl

theorem Members.close_fd_steady (self : Members) : Steady passes self.close_fd := by
  unfold close_fd
  split
  · exact steady_close _
  · exact steady_return _

theorem FifoReader.create_steady (path : Bytes) (read_write : Bool) : Steady passes (create path read_write) := by
  refine (steady_ask rfl).bind fun _ => (steady_ask rfl).bind fun made => ?_
  split
  · refine (steady_ask rfl).bind fun result => ?_
    cases (result : OpenResult) with
    | opened fd =>
      dsimp only
      split
      · exact (steady_ask rfl).bind fun _ => (steady_ask rfl).bind fun _ => steady_return _
      · exact steady_return _
    | unready | failed => exact (steady_unlink path).bind fun _ => steady_return _
  · exact steady_return _

theorem FifoReader.close_steady (self : Members) : Steady passes (close self) := by
  refine self.close_fd_steady.bind fun _ => ?_
  split
  · exact steady_unlink self.path
  · exact steady_return _

theorem FifoWriter.open_fifo_steady (path : Bytes) : Steady passes (open_fifo path) := by
  refine steady_loop (fun _ => ?_) ()
  refine (steady_ask rfl).bind fun result => ?_
  split
  · exact (steady_ask rfl).bind fun _ => (steady_ask rfl).bind fun _ => steady_return _
  · exact steady_return _
  · refine (steady_ask rfl).bind fun late => ?_
    split
    · exact steady_return _
    · exact (steady_ask rfl).bind fun _ => steady_return _

theorem FifoWriter.close_steady (self : Members) : Steady passes (close self) := self.close_fd_steady

end treenity.ipc

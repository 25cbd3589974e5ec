import Mathlib.Logic.Function.Basic
import Treenity.Foundation.Run
import Treenity.Server.Replies

open treenity.protocol treenity.data_structures treenity.ipc treenity.foundation

namespace treenity.server

/-- Where a client is with its FIFO: it has none, `mkfifo` is done but not `open`, it has
it open, or the descriptor is closed but not `unlink` done. -/
inductive Stage where
  | without
  | made
  | opened
  | closed
  deriving DecidableEq

/-- A client process. -/
structure Peer where
  client_pid : UInt32
  stage : Stage
  alive : Bool
  deriving DecidableEq

/-- The server and all client processes that ever started, by number. `files` tells which
process made the FIFO at a path, if there is one, and `stuck` is the server thread
in `open` without a reader at the other end. -/
structure Exchange (H : StdHash) where
  tables : Server H
  peers : List Peer
  files : Bytes → Option Nat
  queue : List (UInt8 × Bytes)
  stuck : Bool

namespace Exchange

variable {H : StdHash}

def new : Exchange H := ⟨Server.new, [], fun _ => none, [], false⟩

/-- What can happen: a client starts, makes and opens its FIFO, sends a request, closes and
unlinks its FIFO or is killed, the server thread takes the next request, and the
worker of a topic takes a turn. -/
inductive Event where
  | start (client_pid : UInt32)
  | mkfifo (p : Nat)
  | open_fifo (p : Nat)
  | send (p : Nat) (action : UInt8) (payload : Bytes)
  | close (p : Nat)
  | unlink (p : Nat)
  | kill (p : Nat)
  | serve
  | deliver (topic_name client_id : Bytes) (taken : Bool)
  deriving DecidableEq

/-- The process that has the FIFO at the path open for reading. -/
def reader (self : Exchange H) (path : Bytes) : Option Nat :=
  (self.files path).filter (fun p => self.peers[p]?.any (fun peer => peer.alive && peer.stage == .opened))

/-- `is_reader_active`, and the `open` for delivery, which does not block. -/
def kernel (self : Exchange H) : Kernel := ⟨fun path => (self.reader path).isSome, self.reader⟩

/-- The `open` of `send_response` does not return: there is a FIFO, and nobody reads it. -/
def blocks (self : Exchange H) : Effect → Bool
  | .response path _ => (self.files path).isSome && (self.reader path).isNone
  | _ => false

/-- A live client goes from one stage to the next. -/
def advance (self : Exchange H) (p : Nat) (before after : Stage) : Option (Peer × List Peer) :=
  match self.peers[p]? with
  | some peer =>
    if peer.alive && peer.stage == before then some (peer, self.peers.set p { peer with stage := after }) else none
  | none => none

/-- The tables when `send_response` is called. A SUBSCRIBE is registered only after that. -/
def answering (self : Exchange H) (action : UInt8) (payload : Bytes) : Server H :=
  if action.toNat = 6 then (self.tables.accept_subscriber payload self.kernel.reader_active).2.1
  else (self.tables.handle_request action payload self.kernel).1

/-- A process gets a pid that nobody alive has, and a request that is answered names the
pid of its sender, which has its FIFO open by then. -/
def step (self : Exchange H) : Event → Option (Exchange H × List Effect)
  | .start client_pid =>
    if self.peers.all (fun peer => !peer.alive || peer.client_pid != client_pid) then
      some ({ self with peers := self.peers ++ [⟨client_pid, .without, true⟩] }, [])
    else none
  | .mkfifo p => (self.advance p .without .made).map fun (peer, peers) =>
      ({ self with peers, files := Function.update self.files (client_fifo_path peer.client_pid) (some p) }, [])
  | .open_fifo p => (self.advance p .made .opened).map fun (_, peers) => ({ self with peers }, [])
  | .close p => (self.advance p .opened .closed).map fun (_, peers) => ({ self with peers }, [])
  | .unlink p => (self.advance p .closed .without).map fun (peer, peers) =>
      ({ self with peers, files := Function.update self.files (client_fifo_path peer.client_pid) none }, [])
  | .kill p => some ({ self with peers := self.peers.modify p (fun peer => { peer with alive := false }) }, [])
  | .send p action payload =>
    if self.peers[p]?.any (fun peer => peer.alive &&
        (request_pid action payload).all (fun pid => pid == peer.client_pid && peer.stage == .opened)) then
      some ({ self with queue := self.queue ++ [(action, payload)] }, [])
    else none
  | .serve =>
    match self.queue with
    | (action, payload) :: rest =>
      let (tables, effects) := self.tables.handle_request action payload self.kernel
      if self.stuck then none
      else if effects.any self.blocks then
        some ({ self with tables := self.answering action payload, queue := rest, stuck := true }, [])
      else some ({ self with tables, queue := rest }, effects)
    | [] => none
  | .deliver topic_name client_id taken =>
    match self.tables.topics.find topic_name with
    | none => none
    | some topic =>
      (topic.deliver_next client_id taken).map fun (next, calls) =>
        ({ self with tables := self.tables.set_topic topic_name next }, calls.map Effect.syscall)

/-- No client is killed that leaves a FIFO behind while a request with its pid waits, and
the server does not take the request of a client that is in the middle of making or
removing its FIFO. -/
def careful (self : Exchange H) : Event → Bool
  | .kill p => self.peers[p]?.all (fun peer => self.files (client_fifo_path peer.client_pid) != some p ||
      self.queue.all (fun (action, payload) => request_pid action payload != some peer.client_pid))
  | .serve => self.queue.head?.all (fun (action, payload) => self.peers.all (fun peer =>
      !peer.alive || request_pid action payload != some peer.client_pid ||
        (peer.stage != .made && peer.stage != .closed)))
  | _ => true

/-- The process made the FIFO of the pid and will unlink it. -/
def Minds (self : Exchange H) (p : Nat) (client_pid : UInt32) : Prop :=
  ∃ peer, self.peers[p]? = some peer ∧ peer.alive = true ∧ peer.stage ≠ .without ∧ peer.client_pid = client_pid

/-- No two live processes have the same pid, the FIFO of a live process is its own, and as
long as a request waits for its answer the FIFO it is to go to is gone or minded. -/
structure Tended (exchange : Exchange H) : Prop where
  distinct : ∀ (p q : Nat) peer other, exchange.peers[p]? = some peer → exchange.peers[q]? = some other →
    peer.alive = true → other.alive = true → peer.client_pid = other.client_pid → p = q
  own : ∀ p pid, exchange.Minds p pid → exchange.files (client_fifo_path pid) = some p
  waiting : ∀ action payload, (action, payload) ∈ exchange.queue → ∀ pid, request_pid action payload = some pid →
    ∀ p, exchange.files (client_fifo_path pid) = some p → exchange.Minds p pid

theorem new_tended : (new : Exchange H).Tended := by
  refine ⟨?_, ?_, ?_⟩ <;> simp [new, Minds]

theorem advance_some {self : Exchange H} {p : Nat} {before after : Stage} {peer : Peer} {peers : List Peer}
    (hadvance : self.advance p before after = some (peer, peers)) :
    self.peers[p]? = some peer ∧ peer.alive = true ∧ peer.stage = before ∧
      peers = self.peers.set p { peer with stage := after } := by
  unfold advance at hadvance
  split at hadvance
  · simp only [Option.ite_none_right_eq_some, Bool.and_eq_true, beq_iff_eq, Option.some.injEq, Prod.mk.injEq] at hadvance
    obtain ⟨⟨halive, hstage⟩, rfl, rfl⟩ := hadvance
    exact ⟨by assumption, halive, hstage, rfl⟩
  · cases hadvance

/-- What a live client minds is its own FIFO. -/
theorem minds_iff {self : Exchange H} {p : Nat} {peer : Peer} (hpeer : self.peers[p]? = some peer)
    (halive : peer.alive = true) (pid : UInt32) :
    self.Minds p pid ↔ peer.stage ≠ .without ∧ peer.client_pid = pid := by
  constructor
  · rintro ⟨found, hfound, _, hstage, hpid⟩
    obtain rfl := Option.some.inj (hpeer.symm.trans hfound)
    exact ⟨hstage, hpid⟩
  · rintro ⟨hstage, hpid⟩
    exact ⟨peer, hpeer, halive, hstage, hpid⟩

/-- Who minds a FIFO when a client has gone to another stage. -/
theorem advance_minds {self next : Exchange H} {p : Nat} {peer : Peer} {after : Stage}
    (hpeer : self.peers[p]? = some peer) (halive : peer.alive = true)
    (hpeers : next.peers = self.peers.set p { peer with stage := after }) (q : Nat) (pid : UInt32) :
    next.Minds q pid ↔ if q = p then after ≠ .without ∧ peer.client_pid = pid else self.Minds q pid := by
  obtain ⟨hlt, _⟩ := List.getElem?_eq_some_iff.mp hpeer
  split
  · rename_i hsame
    have hmoved : next.peers[q]? = some { peer with stage := after } := by
      rw [hpeers, hsame, List.getElem?_set_self hlt]
    exact minds_iff hmoved halive pid
  · rename_i hother
    rw [Minds, hpeers, List.getElem?_set_ne (Ne.symm hother)]
    rfl

theorem advance_distinct {self : Exchange H} {p : Nat} {peer : Peer} (hpeer : self.peers[p]? = some peer)
    (halive : peer.alive = true) (after : Stage) (htended : self.Tended) {q r : Nat} {one other : Peer}
    (hone : (self.peers.set p { peer with stage := after })[q]? = some one)
    (hother : (self.peers.set p { peer with stage := after })[r]? = some other) (haliveone : one.alive = true)
    (haliveother : other.alive = true) (hpid : one.client_pid = other.client_pid) : q = r := by
  have hbefore : ∀ (q : Nat) one, (self.peers.set p { peer with stage := after })[q]? = some one → one.alive = true →
      ∃ old, self.peers[q]? = some old ∧ old.alive = true ∧ old.client_pid = one.client_pid := by
    intro q one hone haliveone
    by_cases hsame : p = q
    · obtain ⟨hlt, _⟩ := List.getElem?_eq_some_iff.mp hpeer
      rw [← hsame, List.getElem?_set_self hlt] at hone
      obtain rfl := Option.some.inj hone
      exact ⟨peer, hsame ▸ hpeer, halive, rfl⟩
    · rw [List.getElem?_set_ne hsame] at hone
      exact ⟨one, hone, haliveone, rfl⟩
  obtain ⟨first, hfirst, hfirstalive, hfirstpid⟩ := hbefore q one hone haliveone
  obtain ⟨second, hsecond, hsecondalive, hsecondpid⟩ := hbefore r other hother haliveother
  exact htended.distinct q r first second hfirst hsecond hfirstalive hsecondalive
    (hfirstpid.trans (hpid.trans hsecondpid.symm))

/-- A client that has its FIFO goes on to another stage in which it has it. -/
theorem Tended.advance {self : Exchange H} (htended : self.Tended) {p : Nat} {before after : Stage} {peer : Peer}
    {peers : List Peer} (hadvance : self.advance p before after = some (peer, peers)) (hbefore : before ≠ .without)
    (hafter : after ≠ .without) : Tended { self with peers } := by
  obtain ⟨hpeer, halive, hstage, rfl⟩ := advance_some hadvance
  have hminds := @advance_minds H self { self with peers := self.peers.set p { peer with stage := after } } p peer after
    hpeer halive rfl
  have hsame : ∀ q pid, Minds { self with peers := self.peers.set p { peer with stage := after } } q pid ↔
      self.Minds q pid := by
    intro q pid
    rw [hminds]
    split
    · rename_i hq
      rw [hq, minds_iff hpeer halive, hstage, and_iff_right hafter, and_iff_right hbefore]
    · rfl
  refine ⟨fun _ _ _ _ => advance_distinct hpeer halive after htended, ?_, ?_⟩
  · intro q pid hminded
    exact htended.own q pid ((hsame q pid).mp hminded)
  · intro action payload hsent pid hpid q hfile
    exact (hsame q pid).mpr (htended.waiting action payload hsent pid hpid q hfile)

/-- A FIFO that one client minds is not at the path of another. -/
theorem Tended.other_path {self : Exchange H} (htended : self.Tended) {p q : Nat} {peer : Peer}
    (hpeer : self.peers[p]? = some peer) (halive : peer.alive = true) {pid : UInt32} (hminded : self.Minds q pid)
    (hother : q ≠ p) : client_fifo_path pid ≠ client_fifo_path peer.client_pid := by
  intro hpath
  obtain ⟨found, hfound, hfoundalive, _, hpid⟩ := hminded
  exact hother (htended.distinct q p found peer hfound hpeer hfoundalive halive
    (hpid.trans (client_fifo_path_injective hpath)))

theorem Tended.mkfifo {self : Exchange H} (htended : self.Tended) {p : Nat} {peer : Peer} {peers : List Peer}
    (hadvance : self.advance p .without .made = some (peer, peers)) :
    Tended { self with
      peers, files := Function.update self.files (client_fifo_path peer.client_pid) (some p) } := by
  obtain ⟨hpeer, halive, hstage, rfl⟩ := advance_some hadvance
  have hminds := @advance_minds H self { self with
    peers := self.peers.set p { peer with stage := .made }
    files := Function.update self.files (client_fifo_path peer.client_pid) (some p) } p peer .made hpeer halive rfl
  refine ⟨fun _ _ _ _ => advance_distinct hpeer halive .made htended, ?_, ?_⟩
  · intro q pid hminded
    dsimp only
    rw [hminds] at hminded
    split at hminded
    · rename_i hq
      rw [hminded.2, hq, Function.update_self]
    · rename_i hq
      rw [Function.update_of_ne (htended.other_path hpeer halive hminded hq)]
      exact htended.own q pid hminded
  · intro action payload hsent pid hpid q hfile
    dsimp only at hfile
    rw [hminds]
    by_cases hpath : client_fifo_path pid = client_fifo_path peer.client_pid
    · rw [hpath, Function.update_self] at hfile
      rw [if_pos (Option.some.inj hfile).symm]
      exact ⟨by simp, (client_fifo_path_injective hpath).symm⟩
    · rw [Function.update_of_ne hpath] at hfile
      have hminded := htended.waiting action payload hsent pid hpid q hfile
      rw [if_neg]
      · exact hminded
      · rintro rfl
        exact ((minds_iff hpeer halive pid).mp hminded).1 hstage

theorem Tended.unlink {self : Exchange H} (htended : self.Tended) {p : Nat} {peer : Peer} {peers : List Peer}
    (hadvance : self.advance p .closed .without = some (peer, peers)) :
    Tended { self with peers, files := Function.update self.files (client_fifo_path peer.client_pid) none } := by
  obtain ⟨hpeer, halive, hstage, rfl⟩ := advance_some hadvance
  have hminds := @advance_minds H self { self with
    peers := self.peers.set p { peer with stage := .without }
    files := Function.update self.files (client_fifo_path peer.client_pid) none } p peer .without hpeer halive rfl
  refine ⟨fun _ _ _ _ => advance_distinct hpeer halive .without htended, ?_, ?_⟩
  · intro q pid hminded
    dsimp only
    rw [hminds] at hminded
    split at hminded
    · exact absurd rfl hminded.1
    · rename_i hq
      rw [Function.update_of_ne (htended.other_path hpeer halive hminded hq)]
      exact htended.own q pid hminded
  · intro action payload hsent pid hpid q hfile
    dsimp only at hfile
    by_cases hpath : client_fifo_path pid = client_fifo_path peer.client_pid
    · rw [hpath, Function.update_self] at hfile
      cases hfile
    · rw [Function.update_of_ne hpath] at hfile
      have hminded := htended.waiting action payload hsent pid hpid q hfile
      rw [hminds, if_neg]
      · exact hminded
      · rintro rfl
        exact hpath (congrArg client_fifo_path ((minds_iff hpeer halive pid).mp hminded).2.symm)

theorem Tended.start {self : Exchange H} (htended : self.Tended) {client_pid : UInt32}
    (hfree : ∀ (p : Nat) peer, self.peers[p]? = some peer → peer.alive = true → peer.client_pid ≠ client_pid) :
    Tended { self with peers := self.peers ++ [⟨client_pid, .without, true⟩] } := by
  have hcases : ∀ (p : Nat) peer, (self.peers ++ [⟨client_pid, .without, true⟩])[p]? = some peer →
      self.peers[p]? = some peer ∨ p = self.peers.length ∧ peer = ⟨client_pid, .without, true⟩ := by
    intro p peer hpeer
    rcases Nat.lt_trichotomy p self.peers.length with hlt | heq | hgt
    · rw [List.getElem?_append_left hlt] at hpeer
      exact .inl hpeer
    · rw [heq, List.getElem?_concat_length] at hpeer
      exact .inr ⟨heq, (Option.some.inj hpeer).symm⟩
    · rw [List.getElem?_eq_none (by simp; omega)] at hpeer
      cases hpeer
  have hminds : ∀ p pid, Minds { self with peers := self.peers ++ [⟨client_pid, .without, true⟩] } p pid ↔
      self.Minds p pid := by
    intro p pid
    constructor
    · rintro ⟨peer, hpeer, halive, hstage, hpid⟩
      rcases hcases p peer hpeer with hold | ⟨_, rfl⟩
      · exact ⟨peer, hold, halive, hstage, hpid⟩
      · exact absurd rfl hstage
    · rintro ⟨peer, hpeer, hminded⟩
      obtain ⟨hlt, _⟩ := List.getElem?_eq_some_iff.mp hpeer
      exact ⟨peer, (List.getElem?_append_left hlt).trans hpeer, hminded⟩
  refine ⟨?_, fun p pid hminded => htended.own p pid ((hminds p pid).mp hminded), ?_⟩
  · intro p q peer other hpeer hother halive hotheralive hpid
    rcases hcases p peer hpeer with hp | ⟨rfl, rfl⟩
    · rcases hcases q other hother with hq | ⟨rfl, rfl⟩
      · exact htended.distinct p q peer other hp hq halive hotheralive hpid
      · exact absurd hpid (hfree p peer hp halive)
    · rcases hcases q other hother with hq | ⟨rfl, rfl⟩
      · exact absurd hpid.symm (hfree q other hq hotheralive)
      · rfl
  · intro action payload hsent pid hpid p hfile
    exact (hminds p pid).mpr (htended.waiting action payload hsent pid hpid p hfile)

/-- A client that is killed leaves its FIFO to nobody, so no answer may be on its way to it. -/
theorem Tended.kill {self : Exchange H} (htended : self.Tended) {p : Nat} (hcareful : self.careful (.kill p) = true) :
    Tended { self with peers := self.peers.modify p (fun peer => { peer with alive := false }) } := by
  have hbefore : ∀ (q : Nat) peer, (self.peers.modify p (fun peer => { peer with alive := false }))[q]? = some peer →
      peer.alive = true → self.peers[q]? = some peer ∧ q ≠ p := by
    intro q peer hpeer halive
    rw [List.getElem?_modify] at hpeer
    split at hpeer
    · obtain ⟨old, _, rfl⟩ := Option.map_eq_some_iff.mp hpeer
      cases halive
    · rename_i hother
      exact ⟨by simpa using hpeer, Ne.symm hother⟩
  have hminds : ∀ q pid, Minds { self with peers := self.peers.modify p (fun peer => { peer with alive := false }) } q pid ↔
      q ≠ p ∧ self.Minds q pid := by
    intro q pid
    constructor
    · rintro ⟨peer, hpeer, halive, hminded⟩
      obtain ⟨hold, hother⟩ := hbefore q peer hpeer halive
      exact ⟨hother, peer, hold, halive, hminded⟩
    · rintro ⟨hother, peer, hpeer, hminded⟩
      refine ⟨peer, ?_, hminded⟩
      simpa [List.getElem?_modify, Ne.symm hother] using hpeer
  refine ⟨?_, ?_, ?_⟩
  · intro q r peer other hpeer hother halive hotheralive hpid
    exact htended.distinct q r peer other (hbefore q peer hpeer halive).1 (hbefore r other hother hotheralive).1 halive
      hotheralive hpid
  · intro q pid hminded
    exact htended.own q pid ((hminds q pid).mp hminded).2
  · intro action payload hsent pid hpid q hfile
    have hminded := htended.waiting action payload hsent pid hpid q hfile
    refine (hminds q pid).mpr ⟨?_, hminded⟩
    rintro rfl
    obtain ⟨peer, hpeer, _, _, rfl⟩ := hminded
    simp only [careful, hpeer, Option.all_some, Bool.or_eq_true, bne_iff_ne, List.all_eq_true] at hcareful
    rcases hcareful with hnot | hnone
    · exact hnot hfile
    · exact hnone (action, payload) hsent hpid

theorem Tended.send {self : Exchange H} (htended : self.Tended) {p : Nat} {peer : Peer} {action : UInt8} {payload : Bytes}
    (hpeer : self.peers[p]? = some peer) (halive : peer.alive = true)
    (hpid : ∀ pid, request_pid action payload = some pid → pid = peer.client_pid ∧ peer.stage = .opened) :
    Tended { self with queue := self.queue ++ [(action, payload)] } := by
  refine ⟨htended.distinct, htended.own, ?_⟩
  intro other_action other_payload hsent pid hnamed q hfile
  rcases List.mem_append.mp hsent with hold | hnew
  · exact htended.waiting other_action other_payload hold pid hnamed q hfile
  · obtain ⟨rfl, rfl⟩ := Prod.mk.inj (List.mem_singleton.mp hnew)
    obtain ⟨rfl, hstage⟩ := hpid pid hnamed
    have hminded : self.Minds p peer.client_pid := ⟨peer, hpeer, halive, by simp [hstage], rfl⟩
    obtain rfl := Option.some.inj (hfile.symm.trans (htended.own p _ hminded))
    exact hminded

/-- The FIFO that a careful server opens has a reader, if it is there at all. -/
theorem Tended.no_block {self : Exchange H} (htended : self.Tended) {action : UInt8} {payload : Bytes}
    {rest : List (UInt8 × Bytes)} (hqueue : self.queue = (action, payload) :: rest)
    (hcareful : self.careful .serve = true) :
    (self.tables.handle_request action payload self.kernel).2.any self.blocks = false := by
  refine List.any_eq_false.mpr fun effect heffect => ?_
  cases effect with
  | response path bytes =>
    obtain ⟨pid, hpid, rfl⟩ := Server.handle_request_response self.tables heffect
    cases hfile : self.files (client_fifo_path pid) with
    | none => simp [blocks, hfile]
    | some p =>
      obtain ⟨peer, hpeer, halive, hstage, rfl⟩ :=
        htended.waiting action payload (hqueue ▸ List.mem_cons_self) pid hpid p hfile
      simp only [careful, hqueue, List.head?_cons, Option.all_some, List.all_eq_true] at hcareful
      have hopened : peer.stage = .opened := by
        have hnot := hcareful peer (List.mem_of_getElem? hpeer)
        cases hcase : peer.stage <;> simp_all
      simp [blocks, reader, hfile, hpeer, halive, hopened]
  | _ => simp [blocks]

theorem Tended.step {self next : Exchange H} {event : Event} {effects : List Effect} (htended : self.Tended)
    (hrunning : self.stuck = false) (hstep : self.step event = some (next, effects))
    (hcareful : self.careful event = true) : next.Tended ∧ next.stuck = false := by
  cases event with
  | start client_pid =>
    simp only [Exchange.step, Option.ite_none_right_eq_some] at hstep
    obtain ⟨hfree, heq⟩ := hstep
    cases heq
    refine ⟨htended.start fun p peer hpeer halive => ?_, hrunning⟩
    simpa [halive] using List.all_eq_true.mp hfree peer (List.mem_of_getElem? hpeer)
  | mkfifo p =>
    obtain ⟨⟨peer, peers⟩, hadvance, heq⟩ := Option.map_eq_some_iff.mp hstep
    cases heq
    exact ⟨htended.mkfifo hadvance, hrunning⟩
  | open_fifo p =>
    obtain ⟨⟨peer, peers⟩, hadvance, heq⟩ := Option.map_eq_some_iff.mp hstep
    cases heq
    exact ⟨htended.advance hadvance (by simp) (by simp), hrunning⟩
  | close p =>
    obtain ⟨⟨peer, peers⟩, hadvance, heq⟩ := Option.map_eq_some_iff.mp hstep
    cases heq
    exact ⟨htended.advance hadvance (by simp) (by simp), hrunning⟩
  | unlink p =>
    obtain ⟨⟨peer, peers⟩, hadvance, heq⟩ := Option.map_eq_some_iff.mp hstep
    cases heq
    exact ⟨htended.unlink hadvance, hrunning⟩
  | kill p =>
    cases hstep
    exact ⟨htended.kill hcareful, hrunning⟩
  | send p action payload =>
    simp only [Exchange.step, Option.ite_none_right_eq_some] at hstep
    obtain ⟨hallowed, heq⟩ := hstep
    cases heq
    obtain ⟨peer, hpeer, hallowed⟩ := (Option.any_eq_true _ _).mp hallowed
    obtain ⟨halive, hnames⟩ := Bool.and_eq_true_iff.mp hallowed
    refine ⟨htended.send hpeer halive fun pid hpid => ?_, hrunning⟩
    simpa [hpid] using hnames
  | serve =>
    simp only [Exchange.step] at hstep
    split at hstep
    · rename_i action payload rest hqueue
      rw [htended.no_block hqueue hcareful] at hstep
      simp only [hrunning, Bool.false_eq_true, if_false] at hstep
      cases hstep
      refine ⟨⟨htended.distinct, htended.own, fun other_action other_payload hsent => ?_⟩, rfl⟩
      exact htended.waiting other_action other_payload (hqueue ▸ List.mem_cons_of_mem _ hsent)
    · cases hstep
  | deliver topic_name client_id taken =>
    simp only [Exchange.step] at hstep
    split at hstep
    · cases hstep
    · obtain ⟨_, _, heq⟩ := Option.map_eq_some_iff.mp hstep
      cases heq
      exact ⟨⟨htended.distinct, htended.own, htended.waiting⟩, hrunning⟩

/-- In every order of careful steps the server thread never waits in `open` for a reader,
and the FIFO that it opens next is gone or has one. -/
theorem never_stuck {labels : List (Event × List Effect)} {exchange : Exchange H}
    (hrun : Run (Fires (guarded (fun s e => s.careful e = true) step)) new labels exchange) :
    exchange.stuck = false ∧ ∀ action payload rest, exchange.queue = (action, payload) :: rest →
      exchange.careful .serve = true →
      ∀ path bytes, .response path bytes ∈ (exchange.tables.handle_request action payload exchange.kernel).2 →
        exchange.files path = none ∨ ∃ p, exchange.reader path = some p := by
  have hall : exchange.Tended ∧ exchange.stuck = false := by
    refine hrun.invariant (P := fun e => e.Tended ∧ e.stuck = false) ⟨new_tended, rfl⟩ ?_
    rintro self label next ⟨htended, hrunning⟩ hfires
    obtain ⟨hstep, hcareful⟩ := fires_guarded_iff.mp hfires
    exact htended.step hrunning hstep hcareful
  obtain ⟨htended, hrunning⟩ := hall
  refine ⟨hrunning, fun action payload rest hqueue hcareful path bytes hresponse => ?_⟩
  have hnot := List.any_eq_false.mp (htended.no_block hqueue hcareful) _ hresponse
  cases hfile : exchange.files path with
  | none => exact .inl rfl
  | some p =>
    refine .inr (Option.isSome_iff_exists.mp ?_)
    simpa [blocks, hfile, Option.isSome_iff_ne_none] using hnot

/-- A client asks for the list of topics and stays until it has the answer. -/
theorem never_stuck_list :
    ∃ (exchange : Exchange ⟨List.length, UInt8.toNat, UInt32.toNat⟩) (labels : List (Event × List Effect)),
      Run (Fires (guarded (fun s e => s.careful e = true) step)) new labels exchange ∧
      labels.map Prod.snd = [[], [], [], [], [Server.send_response 7 .SUCCESS []], [], []] ∧ exchange.stuck = false := by
  let careful_step := guarded
    (fun (s : Exchange ⟨List.length, UInt8.toNat, UInt32.toNat⟩) e => s.careful e = true) step
  let events : List Event :=
    [.start 7, .mkfifo 0, .open_fifo 0, .send 0 2 (le32 7), .serve, .close 0, .unlink 0]
  let exchange := (after careful_step new events).1
  have hrun : Run (Fires careful_step) new _ exchange := .of_after (by decide +kernel)
  exact ⟨exchange, _, hrun, by decide +kernel, (never_stuck hrun).1⟩

/-- A client is killed while its request waits, and its FIFO stays without a reader. A
client gives up, and the server comes between its `close` and its `unlink`. -/
theorem stuck_in_open :
    (∃ (exchange : Exchange ⟨List.length, UInt8.toNat, UInt32.toNat⟩) (labels : List (Event × List Effect)),
      Run (Fires step) new labels exchange ∧ labels.map Prod.fst = [.start 7, .mkfifo 0, .open_fifo 0,
        .send 0 2 (le32 7), .kill 0, .serve] ∧ exchange.stuck = true) ∧
    ∃ (exchange : Exchange ⟨List.length, UInt8.toNat, UInt32.toNat⟩) (labels : List (Event × List Effect)),
      Run (Fires step) new labels exchange ∧ labels.map Prod.fst = [.start 7, .mkfifo 0, .open_fifo 0,
        .send 0 2 (le32 7), .close 0, .serve, .unlink 0] ∧ exchange.stuck = true :=
  ⟨Run.of_exec_any step (new : Exchange ⟨List.length, UInt8.toNat, UInt32.toNat⟩) _ stuck (by decide +kernel),
    Run.of_exec_any step (new : Exchange ⟨List.length, UInt8.toNat, UInt32.toNat⟩) _ stuck (by decide +kernel)⟩

end Exchange

end treenity.server

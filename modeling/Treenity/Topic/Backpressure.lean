import Treenity.Topic.Delivery

open treenity.protocol treenity.data_structures treenity.foundation

namespace treenity.server

/-- A client's FIFO: the bytes in the pipe, and whether the client holds it open. -/
structure Fifo where
  path : Bytes
  content : Bytes
  reader : Bool

/-- Whether a write to the FIFO with `O_NONBLOCK` is taken. Without a reader it is
`EPIPE` and without room for all of it `EAGAIN`. -/
def Fifo.takes (self : Fifo) (capacity : Nat) (bytes : Bytes) : Bool :=
  self.reader && decide (self.content.length + bytes.length ≤ capacity)

/-- A topic among the FIFOs of its clients. `files` says which FIFO a descriptor is
open on, and `pass` holds the entries that the current delivery pass has still to
visit, if the worker is in one. -/
structure Site (H : StdHash) where
  topic : Topic H
  fifos : List Fifo
  files : Fd → Nat
  pass : Option (List Bytes)

inductive Site.Event where
  | create (path : Bytes)
  | read (fifo count : Nat)
  | exit (fifo : Nat)
  | append_message (key value : Bytes)
  | add_subscriber (client_id pref : Bytes) (fifo : Nat) (start_offset : UInt32) (fd : Fd)
  | remove_subscriber (client_id : Bytes)
  | begin_pass
  | turn
  | end_pass

namespace Topic

variable {H : StdHash}

/-- The descriptors in the table. -/
def open_fds (self : Topic H) : List Fd := self.subscribers.entries.filterMap (fun entry => entry.2.fifo_fd)

theorem mem_open_fds_iff (self : Topic H) (fd : Fd) : fd ∈ self.open_fds ↔ self.Holds fd := by
  rw [open_fds, List.mem_filterMap]
  constructor
  · rintro ⟨⟨id, sub⟩, hmem, hfd⟩
    exact ⟨id, sub, HashMap.find_of_mem_entries hmem, hfd⟩
  · rintro ⟨id, sub, hfind, hfd⟩
    exact ⟨(id, sub), HashMap.mem_entries_of_find hfind, hfd⟩

end Topic

namespace Site

variable {H : StdHash}

def new (topic_name : Bytes) : Site H := ⟨Topic.new topic_name, [], fun _ => 0, none⟩

/-- Whether a client has the FIFO open. -/
def held (self : Site H) (fifo : Nat) : Bool := (self.fifos[fifo]?).any Fifo.reader

/-- The bytes the next turn of the delivery loop would write for an entry, with the
FIFO they go to. -/
def offered (self : Site H) (client_id : Bytes) : Option (Fifo × Bytes) := do
  let sub ← self.topic.subscribers.find client_id
  let msg ← self.topic.messages[sub.next_offset.toNat]?
  let fd ← sub.fifo_fd
  let fifo ← self.fifos[self.files fd]?
  if sub.pref.isPrefixOf msg.key then some (fifo, msg.frame) else none

/-- The kernel's answer to that write. -/
def answer (capacity : Nat) (self : Site H) (client_id : Bytes) : Bool :=
  (self.offered client_id).any (fun (fifo, bytes) => fifo.takes capacity bytes)

/-- The FIFOs after a call: a write that is taken adds its bytes to one of them. -/
def pour (files : Fd → Nat) (fifos : List Fifo) : Syscall → List Fifo
  | .write fd bytes true => fifos.modify (files fd) (fun fifo => { fifo with content := fifo.content ++ bytes })
  | _ => fifos

/-- One step, with its system calls. The mutex of the topic keeps the other
operations out of a delivery pass; the clients are free. -/
def step (capacity : Nat) (self : Site H) : Event → Option (Site H × List Syscall)
  | .create path => some ({ self with fifos := self.fifos ++ [⟨path, [], true⟩] }, [])
  | .read fifo count =>
    some ({ self with
      fifos := self.fifos.modify fifo (fun f => { f with content := f.content.drop count }) }, [])
  | .exit fifo =>
    some ({ self with fifos := self.fifos.modify fifo (fun f => { f with reader := false }) }, [])
  | .append_message key value =>
    if self.pass.isNone then some ({ self with topic := self.topic.append_message key value }, []) else none
  | .add_subscriber client_id pref fifo start_offset fd =>
    match self.pass, self.fifos[fifo]? with
    | none, some f =>
      let opened := if f.reader then some fd else none
      if fd ∈ (self.topic.drop_subscriber client_id).1.open_fds then none
      else
        let (_, topic, calls) := self.topic.add_subscriber client_id pref f.path start_offset opened
        some ({ self with topic, files := fun other => if other = fd then fifo else self.files other }, calls)
    | _, _ => none
  | .remove_subscriber client_id =>
    if self.pass.isNone then
      some ({ self with topic := (self.topic.remove_subscriber client_id).2.1 },
        (self.topic.remove_subscriber client_id).2.2)
    else none
  | .begin_pass =>
    if self.pass.isNone && self.topic.has_work then
      some ({ self with pass := some self.topic.subscribers.keys }, [])
    else none
  | .turn =>
    match self.pass with
    | some (client_id :: rest) =>
      match self.topic.deliver_next client_id (self.answer capacity client_id) with
      | some (topic, calls) =>
        some ({ self with topic, fifos := calls.foldl (pour self.files) self.fifos }, calls)
      | none => some ({ self with pass := some rest }, [])
    | _ => none
  | .end_pass =>
    match self.pass with
    | some [] => some ({ self with pass := none }, [])
    | _ => none

/-- The condition on a step: a frame that is about to be written to a client that
still has its FIFO open fits into the room that is left. -/
def frame_fits (capacity : Nat) (self : Site H) : Event → Bool
  | .turn =>
    match self.pass with
    | some (client_id :: _) =>
      (self.offered client_id).all fun (fifo, bytes) =>
        !fifo.reader || decide (fifo.content.length + bytes.length ≤ capacity)
    | _ => true
  | _ => true

/-- The event removes the registration or replaces it. -/
def EndedBy (reg : Registration) : Event → Prop
  | .add_subscriber client_id _ _ _ _ => client_id = reg.client_id
  | .remove_subscriber client_id => client_id = reg.client_id
  | _ => False

/-- From one state to the next a client's FIFO, once created, is never reopened. -/
def Closing (self next : Site H) : Prop :=
  self.fifos.length ≤ next.fifos.length ∧
    ∀ fifo, fifo < self.fifos.length → next.held fifo = true → self.held fifo = true

private theorem held_modify (fifos : List Fifo) (index fifo : Nat) (f : Fifo → Fifo)
    (hf : ∀ file, (f file).reader = true → file.reader = true)
    (hheld : ((fifos.modify index f)[fifo]?).any Fifo.reader = true) : (fifos[fifo]?).any Fifo.reader = true := by
  rw [List.getElem?_modify] at hheld
  cases hfile : fifos[fifo]? with
  | none => simp [hfile] at hheld
  | some file =>
    by_cases hsame : index = fifo
    · rw [hfile, hsame] at hheld
      simpa using hf file (by simpa using hheld)
    · simpa [hfile, hsame] using hheld

private theorem held_pour (files : Fd → Nat) (calls : List Syscall) (fifos : List Fifo) :
    (calls.foldl (pour files) fifos).length = fifos.length ∧
      ∀ fifo : Nat, ((calls.foldl (pour files) fifos)[fifo]?).any Fifo.reader = true →
        (fifos[fifo]?).any Fifo.reader = true := by
  induction calls generalizing fifos with
  | nil => exact ⟨rfl, fun _ h => h⟩
  | cons call rest ih =>
    obtain ⟨hlength, hheld⟩ := ih (pour files fifos call)
    have hcall : (pour files fifos call).length = fifos.length ∧
        ∀ fifo : Nat, ((pour files fifos call)[fifo]?).any Fifo.reader = true →
          (fifos[fifo]?).any Fifo.reader = true := by
      unfold pour
      split
      · exact ⟨by simp, fun fifo => held_modify fifos _ fifo _ (fun _ h => h)⟩
      · exact ⟨rfl, fun _ h => h⟩
    exact ⟨hlength.trans hcall.1, fun fifo h => hcall.2 fifo (hheld fifo h)⟩

/-- What an operation of the topic does to a registration that it does not end. -/
structure Keeps (reg : Registration) (op : Topic.Op) (self next : Site H) : Prop where
  lasts : ¬ reg.EndedBy op
  find : next.topic.subscribers.find reg.client_id = self.topic.subscribers.find reg.client_id
  files : ∀ sub, self.topic.subscribers.find reg.client_id = some sub → sub.fifo_fd = some reg.fd →
    next.files reg.fd = self.files reg.fd

/-- What a step can be: an operation of the topic, a turn of the delivery loop, or
something that does not concern the topic. -/
theorem step_cases {capacity : Nat} {self next : Site H} {event : Event} {calls : List Syscall}
    (hstep : self.step capacity event = some (next, calls)) :
    self.Closing next ∧
      ((∃ op, Topic.Step self.topic (op, calls) next.topic ∧
          ∀ reg, ¬ EndedBy reg event → Keeps reg op self next) ∨
        (∃ client_id rest, self.pass = some (client_id :: rest) ∧ event = .turn ∧
          self.topic.deliver_next client_id (self.answer capacity client_id) = some (next.topic, calls) ∧
          next.files = self.files) ∨
        (next.topic = self.topic ∧ calls = [] ∧ next.files = self.files)) := by
  have hsame : self.Closing self := ⟨Nat.le_refl _, fun _ _ h => h⟩
  cases event with
  | create path =>
    cases hstep
    refine ⟨⟨by simp, ?_⟩, .inr (.inr ⟨rfl, rfl, rfl⟩)⟩
    intro fifo hfifo hheld
    rwa [held, List.getElem?_append_left hfifo] at hheld
  | read fifo count =>
    cases hstep
    exact ⟨⟨by simp, fun other _ => held_modify self.fifos fifo other _ (fun _ h => h)⟩,
      .inr (.inr ⟨rfl, rfl, rfl⟩)⟩
  | exit fifo =>
    cases hstep
    exact ⟨⟨by simp, fun other _ => held_modify self.fifos fifo other _ (fun _ h => by cases h)⟩,
      .inr (.inr ⟨rfl, rfl, rfl⟩)⟩
  | append_message key value =>
    rw [step] at hstep
    split at hstep
    · cases hstep
      exact ⟨hsame, .inl ⟨_, .append_message _ key value, fun _ _ => ⟨id, rfl, fun _ _ _ => rfl⟩⟩⟩
    · cases hstep
  | add_subscriber client_id pref fifo start_offset fd =>
    rw [step] at hstep
    split at hstep
    · rename_i f hpass hfile
      dsimp only at hstep
      split at hstep
      · cases hstep
      · rename_i hfresh
        rw [Topic.mem_open_fds_iff] at hfresh
        cases hstep
        refine ⟨hsame, .inl ⟨_, .add_subscriber _ client_id pref f.path start_offset _ ?_, ?_⟩⟩
        · intro opened hopened
          split at hopened
          · cases hopened
            exact hfresh
          · cases hopened
        · intro reg hkept
          refine ⟨hkept, ?_, ?_⟩
          · rw [Topic.add_subscriber_find, if_neg (fun h => hkept h.symm)]
          · intro sub hfind hfd
            apply if_neg
            rintro rfl
            refine hfresh ⟨reg.client_id, sub, ?_, hfd⟩
            rw [Topic.drop_subscriber_find, if_neg (fun h => hkept h.symm), hfind]
    · cases hstep
  | remove_subscriber client_id =>
    rw [step] at hstep
    split at hstep
    · cases hstep
      refine ⟨hsame, .inl ⟨_, .remove_subscriber _ client_id, fun reg hkept => ⟨hkept, ?_, fun _ _ _ => rfl⟩⟩⟩
      rw [Topic.remove_subscriber_find, if_neg (fun h => hkept h.symm)]
    · cases hstep
  | begin_pass =>
    rw [step] at hstep
    split at hstep
    · cases hstep
      exact ⟨hsame, .inr (.inr ⟨rfl, rfl, rfl⟩)⟩
    · cases hstep
  | turn =>
    rw [step] at hstep
    split at hstep
    · rename_i client_id rest hpass
      split at hstep
      · rename_i topic made hdeliver
        cases hstep
        obtain ⟨hlength, hheld⟩ := held_pour self.files calls self.fifos
        exact ⟨⟨hlength.ge, fun fifo _ => hheld fifo⟩,
          .inr (.inl ⟨client_id, rest, hpass, rfl, hdeliver, rfl⟩)⟩
      · cases hstep
        exact ⟨hsame, .inr (.inr ⟨rfl, rfl, rfl⟩)⟩
    · cases hstep
  | end_pass =>
    rw [step] at hstep
    split at hstep
    · cases hstep
      exact ⟨hsame, .inr (.inr ⟨rfl, rfl, rfl⟩)⟩
    · cases hstep

theorem messages_grow {capacity : Nat} {self next : Site H} {event : Event} {calls : List Syscall}
    (hstep : self.step capacity event = some (next, calls)) :
    self.topic.messages <+: next.topic.messages := by
  rcases (step_cases hstep).2 with ⟨_, hop, _⟩ | ⟨_, _, _, _, hdeliver, _⟩ | ⟨htopic, _⟩
  · exact hop.messages_grow
  · rw [Topic.deliver_next_messages hdeliver]
  · rw [htopic]

theorem sound_run {capacity : Nat} {topic_name : Bytes} {self : Site H} {labels : List (Event × List Syscall)}
    (hrun : Run (Fires (step capacity)) (new topic_name) labels self) : self.topic.Sound := by
  apply hrun.invariant (P := fun site => site.topic.Sound) (Topic.new_sound topic_name)
  intro site label next hsound hstep
  rcases (step_cases hstep).2 with ⟨_, hop, _⟩ | ⟨_, _, _, _, hdeliver, _⟩ | ⟨htopic, _⟩
  · exact hsound.step hop
  · exact hsound.deliver_next hdeliver
  · exact htopic ▸ hsound

/-- The standing of a registration in a site whose writes fit: as long as the client
has its FIFO open, the descriptor of the entry is open on it. -/
structure Fed (capacity : Nat) (reg : Registration) (fifo : Nat) (past : List Syscall) (site : Site H) : Prop where
  sound : site.topic.Sound
  standing : reg.Standing past site.topic
  created : fifo < site.fifos.length
  feeding : site.held fifo = true → site.files reg.fd = fifo ∧
    ∃ next, site.topic.subscribers.find reg.client_id = some (reg.entry (some reg.fd) next)

/-- Subscribing a client that has its FIFO open starts feeding it. -/
theorem fed_start {capacity : Nat} {reg : Registration} {fifo : Nat} {self registered : Site H}
    {calls : List Syscall} (hsound : self.topic.Sound) (hheld : self.held fifo = true)
    (hpath : (self.fifos[fifo]?).map Fifo.path = some reg.fifo_path)
    (hregister : self.step capacity
      (.add_subscriber reg.client_id reg.pref fifo reg.start_offset reg.fd) = some (registered, calls)) :
    Fed capacity reg fifo [] registered := by
  obtain ⟨file, hfile, hreader⟩ : ∃ file, self.fifos[fifo]? = some file ∧ file.reader = true := by
    simpa [held, Option.any_eq_true] using hheld
  have hsame : file.path = reg.fifo_path := by simpa [hfile] using hpath
  rw [Site.step, hfile] at hregister
  split at hregister
  · rename_i f hpass hget
    obtain rfl : file = f := Option.some.inj hget
    dsimp only at hregister
    split at hregister
    · cases hregister
    · rename_i hfresh
      rw [Topic.mem_open_fds_iff] at hfresh
      rw [hsame] at hregister
      cases hregister
      have hopened : ∀ fd, some reg.fd = some fd → ¬ (self.topic.drop_subscriber reg.client_id).1.Holds fd := by
        rintro fd hfd
        cases hfd
        exact hfresh
      refine ⟨hsound.add_subscriber reg.client_id reg.pref reg.fifo_path reg.start_offset hopened,
        Registration.standing_start, (List.getElem?_eq_some_iff.mp hfile).1,
        fun _ => ⟨if_pos rfl, reg.start_offset, ?_⟩⟩
      rw [Topic.add_subscriber_find, if_pos rfl]
      rfl
  · cases hregister

/-- A frame that fits is taken, so a turn leaves an open descriptor open. -/
theorem Fed.turn {capacity : Nat} {reg : Registration} {fifo : Nat} {past calls : List Syscall}
    {self : Site H} {topic : Topic H} {client_id : Bytes} {rest : List Bytes}
    (hfed : Fed capacity reg fifo past self) (hpass : self.pass = some (client_id :: rest))
    (hfits : self.frame_fits capacity .turn = true) (hheld : self.held fifo = true)
    (hdeliver : self.topic.deliver_next client_id (self.answer capacity client_id) = some (topic, calls)) :
    ∃ next, topic.subscribers.find reg.client_id = some (reg.entry (some reg.fd) next) := by
  obtain ⟨sub, msg, hfind, hmsg, _, rfl⟩ := hfed.sound.synced.deliver_next_cases hdeliver
  obtain ⟨hfile, next, hentry⟩ := hfed.feeding hheld
  by_cases hid : client_id = reg.client_id
  · subst hid
    obtain rfl : reg.entry (some reg.fd) next = sub := Option.some.inj (hentry.symm.trans hfind)
    refine ⟨next + 1, ?_⟩
    rw [HashMap.find_replace_of_find hfind, if_pos rfl]
    cases haccepts : reg.accepts msg with
    | false => rw [(reg.entry (some reg.fd) next).served_silent _ (.inr haccepts)]; rfl
    | true =>
      obtain ⟨file, hget, hreader⟩ : ∃ file, self.fifos[fifo]? = some file ∧ file.reader = true := by
        simpa [held, Option.any_eq_true] using hheld
      have hoffered : self.offered reg.client_id = some (file, msg.frame) := by
        have haccepted : reg.pref <+: msg.key := List.isPrefixOf_iff_prefix.mp haccepts
        have hnext : self.topic.messages[next.toNat]? = some msg := hmsg
        simp [offered, hentry, Registration.entry, hnext, hfile, hget, haccepted]
      have hroom : file.content.length + msg.frame.length ≤ capacity := by
        simpa [frame_fits, hpass, hoffered, hreader] using hfits
      have hanswer : self.answer capacity reg.client_id = true := by
        simp [answer, hoffered, Fifo.takes, hreader, hroom]
      rw [hanswer, (reg.entry (some reg.fd) next).served_taken rfl haccepts]
      rfl
  · exact ⟨next, by rw [HashMap.find_replace_of_find hfind, if_neg (fun h => hid h.symm), hentry]⟩

theorem Fed.step {capacity : Nat} {reg : Registration} {fifo : Nat} {past calls : List Syscall}
    {self next : Site H} {event : Event} (hfed : Fed capacity reg fifo past self)
    (hstep : self.step capacity event = some (next, calls)) (hfits : self.frame_fits capacity event = true)
    (hkept : ¬ EndedBy reg event) (hlog : next.topic.messages.length < 2 ^ 32) :
    Fed capacity reg fifo (past ++ calls) next := by
  obtain ⟨⟨hlength, hclosing⟩, hcases⟩ := step_cases hstep
  have hcreated := Nat.lt_of_lt_of_le hfed.created hlength
  rcases hcases with ⟨op, hop, hkeeps⟩ | ⟨client_id, rest, hpass, rfl, hdeliver, hfiles⟩ |
      ⟨htopic, rfl, hfiles⟩
  · obtain ⟨hlasts, hfind, hfiles⟩ := hkeeps reg hkept
    refine ⟨hfed.sound.step hop, hfed.standing.step hfed.sound hlog hop hlasts, hcreated, ?_⟩
    intro hheld
    obtain ⟨hfile, cursor, hentry⟩ := hfed.feeding (hclosing fifo hfed.created hheld)
    refine ⟨(hfiles _ hentry rfl).trans hfile, ?_⟩
    exact ⟨cursor, hfind.trans hentry⟩
  · have hmessages : next.topic.messages = self.topic.messages := by
      obtain ⟨_, _, _, _, _, heq⟩ := hfed.sound.synced.deliver_next_cases hdeliver
      rw [heq]
    refine ⟨hfed.sound.deliver_next hdeliver,
      hfed.standing.deliver_next hfed.sound (hmessages ▸ hlog) hdeliver, hcreated, ?_⟩
    intro hheld
    have hbefore := hclosing fifo hfed.created hheld
    exact ⟨(congrFun hfiles _).trans (hfed.feeding hbefore).1, hfed.turn hpass hfits hbefore hdeliver⟩
  · rw [List.append_nil]
    refine ⟨htopic ▸ hfed.sound, htopic ▸ hfed.standing, hcreated, ?_⟩
    intro hheld
    rw [htopic, hfiles]
    exact hfed.feeding (hclosing fifo hfed.created hheld)

theorem Fed.run {capacity : Nat} {reg : Registration} {fifo : Nat} {self last : Site H}
    {labels : List (Event × List Syscall)} (hfed : Fed capacity reg fifo [] self)
    (hrun : Run (fun s l t => Fires (Site.step capacity) s l t ∧ s.frame_fits capacity l.1 = true) self labels last)
    (hkept : ∀ label ∈ labels, ¬ EndedBy reg label.1) (hlog : last.topic.messages.length < 2 ^ 32) :
    Fed capacity reg fifo (labels.flatMap Prod.snd) last := by
  induction hrun with
  | nil => exact hfed
  | snoc hbefore hstep ih =>
    rename_i middle next earlier label
    obtain ⟨hfires, hfits⟩ := hstep
    have hlast := hkept label (by simp)
    have hgrown := (messages_grow hfires).length_le
    have hbefore := ih (fun l hl => hkept l (List.mem_append_left _ hl)) (Nat.lt_of_le_of_lt hgrown hlog)
    simpa using hbefore.step hfires hfits hlast hlog

/-- In every run in which each delivery frame fits into the room its client's FIFO
has left, an idle worker has written every matching message to every subscriber
whose client still has its FIFO open. -/
theorem delivers_all_when_frames_fit {capacity : Nat} (topic_name : Bytes) (reg : Registration) (fifo : Nat)
    {self registered last : Site H} {before after : List (Event × List Syscall)} {calls : List Syscall}
    (hbefore : Run (Fires (Site.step capacity)) (new topic_name) before self)
    (hheld : self.held fifo = true)
    (hregister : self.step capacity
      (.add_subscriber reg.client_id reg.pref fifo reg.start_offset reg.fd) = some (registered, calls))
    (hpath : (self.fifos[fifo]?).map Fifo.path = some reg.fifo_path)
    (hafter : Run (fun s l t => Fires (Site.step capacity) s l t ∧ s.frame_fits capacity l.1 = true)
      registered after last)
    (hkept : ∀ label ∈ after, ¬ EndedBy reg label.1) (hlog : last.topic.messages.length < 2 ^ 32)
    (hidle : last.topic.has_work = false) (hlive : last.held fifo = true) :
    written reg.fd (after.flatMap Prod.snd) = (reg.matching last.topic.messages).map Message.frame := by
  have hregistered := fed_start (sound_run hbefore) hheld hpath hregister
  have hfed := hregistered.run hafter hkept hlog
  obtain ⟨_, next, hentry⟩ := hfed.feeding hlive
  have hunbroken := hfed.standing.unbroken_of_open hentry
  obtain ⟨cursor, hfind, _, hall⟩ := hfed.standing.written_eq hfed.sound hlog hunbroken
  exact hall (Topic.next_offset_of_idle hidle hfind)

/-- A client that goes on reading: with room for every frame it gets both messages. -/
theorem delivers_all_to_reading_client :
    let hashes : StdHash := ⟨List.length, UInt8.toNat, UInt32.toNat⟩
    let reg : Registration := ⟨[115], [107], [112], 0, 3⟩
    ∃ (last : Site hashes) (after : List (Event × List Syscall)), last.topic.messages.length = 2 ∧
      written reg.fd (after.flatMap Prod.snd) = (reg.matching last.topic.messages).map Message.frame := by
  intro hashes reg
  have hcomputed : (do
      let (self, _) ← exec (Site.step 4096) (new [116] : Site hashes) [.create [112]]
      let (registered, _) ← self.step 4096 (.add_subscriber reg.client_id reg.pref 0 reg.start_offset reg.fd)
      let (last, _) ← exec (guarded (fun s e => frame_fits 4096 s e = true) (Site.step 4096)) registered
        [.append_message [107] [1], .begin_pass, .turn, .turn, .end_pass, .read 0 14,
          .append_message [107] [2], .begin_pass, .turn, .turn, .end_pass]
      some (self.held 0 && decide ((self.fifos[0]?).map Fifo.path = some reg.fifo_path) &&
        decide (last.topic.messages.length = 2) && !last.topic.has_work && last.held 0)) = some true := by
    decide +kernel
  simp only [Option.bind_eq_bind, Option.bind_eq_some_iff, Option.some.injEq, Bool.and_eq_true,
    decide_eq_true_eq, Bool.not_eq_true'] at hcomputed
  obtain ⟨⟨self, before⟩, hself, ⟨registered, calls⟩, hregister, ⟨last, after⟩, hlast,
    ⟨⟨⟨hheld, hpath⟩, htwo⟩, hidle⟩, hlive⟩ := hcomputed
  have hkept : ∀ label ∈ after, ¬ EndedBy reg label.1 := exec_forall (¬ EndedBy reg ·) hlast (by simp [EndedBy])
  have hafter := (Run.of_exec hlast).mono (fun _ _ _ => fires_guarded_iff.mp)
  exact ⟨last, after, htwo, delivers_all_when_frames_fit [116] reg 0 (Run.of_exec hself) hheld hregister hpath
    hafter hkept (htwo.trans_lt (by decide)) hidle hlive⟩

/-- Four messages of the greatest size a producer may send, and a client that does
not read in time: three frames fill its FIFO, the fourth is lost and the
subscription with it, although the client still has the FIFO open. -/
theorem full_pipe_loses_message :
    let hashes : StdHash := ⟨List.length, UInt8.toNat, UInt32.toNat⟩
    let reg : Registration := ⟨[115], [107], [112], 0, 3⟩
    ∃ (self registered last : Site hashes) (before after : List (Event × List Syscall)) (calls : List Syscall),
      Run (Fires (Site.step 4096)) (new [116]) before self ∧ self.held 0 = true ∧
      self.step 4096 (.add_subscriber reg.client_id reg.pref 0 reg.start_offset reg.fd) =
        some (registered, calls) ∧
      Run (Fires (Site.step 4096)) registered after last ∧ (∀ label ∈ after, ¬ EndedBy reg label.1) ∧
      last.topic.messages.length = 4 ∧ last.topic.has_work = false ∧ last.held 0 = true ∧
      written reg.fd (after.flatMap Prod.snd) ≠ (reg.matching last.topic.messages).map Message.frame := by
  intro hashes reg
  have hcomputed : (do
      let (self, _) ← exec (Site.step 4096) (new [116] : Site hashes) [.create [112]]
      let (registered, _) ← self.step 4096 (.add_subscriber reg.client_id reg.pref 0 reg.start_offset reg.fd)
      let (last, after) ← exec (Site.step 4096) registered
        (List.replicate 4 (.append_message [107] (List.replicate 1023 0)) ++
          [.begin_pass, .turn, .turn, .turn, .turn, .turn, .end_pass])
      some (self.held 0 && decide (last.topic.messages.length = 4) && !last.topic.has_work && last.held 0 &&
        decide (written reg.fd (after.flatMap Prod.snd) ≠
          (reg.matching last.topic.messages).map Message.frame))) = some true := by
    decide +kernel
  simp only [Option.bind_eq_bind, Option.bind_eq_some_iff, Option.some.injEq, Bool.and_eq_true,
    decide_eq_true_eq, Bool.not_eq_true'] at hcomputed
  obtain ⟨⟨self, before⟩, hself, ⟨registered, calls⟩, hregister, ⟨last, after⟩, hlast,
    ⟨⟨⟨hheld, hfour⟩, hidle⟩, hlive⟩, hlost⟩ := hcomputed
  have hkept : ∀ label ∈ after, ¬ EndedBy reg label.1 := by
    refine exec_forall (¬ EndedBy reg ·) hlast (List.forall_mem_append.mpr ⟨?_, by simp [EndedBy]⟩)
    intro event hevent
    rw [List.eq_of_mem_replicate hevent]
    exact id
  exact ⟨self, registered, last, before, after, calls, Run.of_exec hself, hheld, hregister, Run.of_exec hlast,
    hkept, hfour, hidle, hlive, hlost⟩

end Site

end treenity.server

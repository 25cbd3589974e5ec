import Treenity.Ipc.Fifo

open treenity.foundation treenity.protocol

namespace treenity.ipc

/-- What a process has to give back: the descriptors that are open are these, and the FIFOs it
made and has not removed are among these. -/
structure Holding (held : List Nat) (paths : List Bytes) (w : World) : Prop where
  orderly : w.Orderly
  fds : w.fds.Perm held
  made : ∀ path ∈ w.made, path ∈ paths

namespace Holding

variable {held : List Nat} {paths : List Bytes} {w v : World}

theorem same (hholding : Holding held paths w) (hacts : v.acts = w.acts) (hmade : v.made = w.made) :
    Holding held paths v := by
  obtain ⟨horderly, hfds, hpaths⟩ := hholding
  refine ⟨?_, ?_, hmade ▸ hpaths⟩
  · rw [World.Orderly, hacts]
    exact horderly
  · rw [World.fds, hacts]
    exact hfds

theorem perm {held' : List Nat} {paths' : List Bytes} (hholding : Holding held paths w) (hheld : held.Perm held')
    (hpaths : ∀ path ∈ paths, path ∈ paths') : Holding held' paths' w :=
  ⟨hholding.orderly, hholding.fds.trans hheld, fun path hpath => hpaths path (hholding.made path hpath)⟩

theorem acquire {fd : Nat} (hholding : Holding held paths w) (hfree : fd ∉ w.fds) :
    Holding (fd :: held) paths (w.act (.acquire fd)) := by
  obtain ⟨horderly, hfds, hpaths⟩ := hholding
  refine ⟨(disciplined_append _ _ _).mpr ⟨horderly, hfree, trivial⟩, ?_, hpaths⟩
  rw [World.fds, World.act, handles_append]
  exact hfds.cons fd

theorem use {fd : Nat} (hholding : Holding held paths w) (hheld : fd ∈ held) : Holding held paths (w.act (.use fd)) := by
  obtain ⟨horderly, hfds, hpaths⟩ := hholding
  refine ⟨(disciplined_append _ _ _).mpr ⟨horderly, hfds.mem_iff.mpr hheld, trivial⟩, ?_, hpaths⟩
  rw [World.fds, World.act, handles_append]
  exact hfds

theorem release {fd : Nat} (hholding : Holding (fd :: held) paths w) : Holding held paths (w.act (.release fd)) := by
  obtain ⟨horderly, hfds, hpaths⟩ := hholding
  refine ⟨(disciplined_append _ _ _).mpr ⟨horderly, hfds.mem_iff.mpr List.mem_cons_self, trivial⟩, ?_, hpaths⟩
  have hnodup : (fd :: held).Nodup := hfds.nodup_iff.mp (Disciplined.nodup horderly List.nodup_nil)
  have hothers : (fd :: held).filter (fun other => other ≠ fd) = held := by
    rw [List.filter_cons_of_neg (by simp)]
    refine List.filter_eq_self.mpr fun other hother => ?_
    exact decide_eq_true fun hsame => (List.nodup_cons.mp hnodup).1 (hsame ▸ hother)
  rw [World.fds, World.act, handles_append]
  exact hothers ▸ hfds.filter _

theorem unlink {path : Bytes} (hholding : Holding held (path :: paths) w) :
    Holding held paths { w with made := w.made.filter (· ≠ path) } := by
  refine ⟨hholding.orderly, hholding.fds, fun other hother => ?_⟩
  obtain ⟨hmade, hother⟩ := List.mem_filter.mp hother
  exact (List.mem_cons.mp (hholding.made other hmade)).resolve_left (of_decide_eq_true hother)

theorem mkfifo {path : Bytes} (hholding : Holding held paths w) :
    Holding held (path :: paths) { w with made := path :: w.made } :=
  ⟨hholding.orderly, hholding.fds, fun other hother => List.mem_cons.mpr
    ((List.mem_cons.mp hother).imp_right (hholding.made other))⟩

end Holding

/-- What a path asks for: none is noted down as the empty string. -/
def noted (path : Bytes) : List Bytes := if path = [] then [] else [path]

/-- The descriptor a call works on, if it is none of those that open, close, make or remove. -/
def Call.touches : Call → Option Nat
  | .fcntl fd | .write_exact fd _ | .read_exact fd _ _ | .poll fd => some fd
  | _ => none

/-- A call that neither opens nor closes, and neither makes nor removes a FIFO. -/
def Call.quiet : Call → Bool
  | .unlink _ | .mkfifo _ | .open_fifo _ _ | .close _ => false
  | _ => true

variable {passes : Bytes → Bytes → Nat} {held : List Nat} {paths : List Bytes} {α : Type}

theorem answers_quiet {call : Call} {answer : call.Answer} {w v : World} (hquiet : call.quiet = true)
    (hanswer : Answers passes w call answer v) :
    v.made = w.made ∧ v.acts = w.acts ++ (call.touches.map Act.use).toList := by
  cases call with
  | unlink | mkfifo | open_fifo | close => cases hquiet
  | fcntl | poll =>
    cases hanswer
    exact ⟨rfl, rfl⟩
  | write_exact fd src =>
    obtain ⟨_, _, _, _, rfl⟩ := hanswer
    exact ⟨rfl, rfl⟩
  | read_exact fd count timeout_ms =>
    obtain ⟨_, _, _, _, _, rfl⟩ := hanswer
    exact ⟨rfl, rfl⟩
  | getline =>
    cases answer with
    | line line =>
      obtain ⟨_, _, _, rfl, _⟩ := hanswer
      exact ⟨rfl, (List.append_nil _).symm⟩
    | eof =>
      obtain ⟨_, rfl⟩ := hanswer
      exact ⟨rfl, (List.append_nil _).symm⟩
    | bad =>
      cases hanswer
      exact ⟨rfl, (List.append_nil _).symm⟩
  | cin_read =>
    obtain ⟨_, _⟩ := answer
    obtain ⟨_, _, rfl⟩ := hanswer
    exact ⟨rfl, (List.append_nil _).symm⟩
  | cout_write =>
    obtain ⟨_, rfl⟩ := hanswer
    exact ⟨rfl, (List.append_nil _).symm⟩
  | _ =>
    cases hanswer
    exact ⟨rfl, (List.append_nil _).symm⟩

/-- A program that owes these descriptors and FIFOs at its start, and those that depend on what
it returns at its end. -/
def Owes (passes : Bytes → Bytes → Nat) (held : List Nat) (paths : List Bytes) (program : Calls α)
    (held' : α → List Nat) (paths' : α → List Bytes) : Prop :=
  program.Meets (Answers passes) (Holding held paths) World.Orderly (fun value => Holding (held' value) (paths' value))

theorem owes_quiet {call : Call} (hquiet : call.quiet = true) (htouches : ∀ fd, call.touches = some fd → fd ∈ held) :
    Owes passes held paths (ask call) (fun _ => held) (fun _ => paths) := by
  refine Program.meets_request (fun _ hw => hw.orderly) fun w answer v hw hanswer => ?_
  obtain ⟨hmade, hacts⟩ := answers_quiet hquiet hanswer
  have hafter : Holding held paths v := by
    cases hcall : call.touches with
    | none => exact hw.same (by simp [hacts, hcall]) hmade
    | some fd => exact (hw.use (htouches fd hcall)).same (by simp [hacts, hcall, World.act]) hmade
  exact ⟨hafter.orderly, hafter⟩

theorem owes_silent {call : Call} (hquiet : call.quiet = true) (hnone : call.touches = none) :
    Owes passes held paths (ask call) (fun _ => held) (fun _ => paths) :=
  owes_quiet hquiet fun _ hfd => by simp [hnone] at hfd

theorem owes_unlink (path : Bytes) :
    Owes passes held (path :: paths) (Sys.unlink path) (fun _ => held) (fun _ => paths) := by
  refine Program.meets_request (fun _ hw => hw.orderly) fun w answer v hw hanswer => ?_
  cases hanswer
  exact ⟨hw.unlink.orderly, hw.unlink⟩

theorem owes_mkfifo (path : Bytes) :
    Owes passes held paths (Sys.mkfifo path) (fun _ => held)
      (fun made => if made then noted path ++ paths else paths) := by
  refine Program.meets_request (fun _ hw => hw.orderly) fun w answer v hw hanswer => ?_
  cases answer with
  | true =>
    obtain ⟨hpath, _, rfl⟩ := hanswer
    refine ⟨hw.mkfifo.orderly, ?_⟩
    dsimp only
    rw [if_pos rfl, noted, if_neg hpath]
    exact hw.mkfifo
  | false =>
    cases hanswer
    exact ⟨hw.orderly, hw⟩

theorem owes_open (path : Bytes) (mode : OpenMode) :
    Owes passes held paths (Sys.open_fifo path mode)
      (fun result => match result with | .opened fd => fd :: held | _ => held) (fun _ => paths) := by
  refine Program.meets_request (fun _ hw => hw.orderly) fun w answer v hw hanswer => ?_
  cases answer with
  | opened fd =>
    obtain ⟨hfree, rfl⟩ := hanswer
    exact ⟨(hw.acquire hfree).orderly, hw.acquire hfree⟩
  | unready | failed =>
    cases hanswer
    exact ⟨hw.orderly, hw⟩

theorem owes_close (fd : Nat) : Owes passes (fd :: held) paths (Sys.close fd) (fun _ => held) (fun _ => paths) := by
  refine Program.meets_request (fun _ hw => hw.orderly) fun w answer v hw hanswer => ?_
  cases hanswer
  exact ⟨hw.release.orderly, hw.release⟩

theorem owes_return {held' : α → List Nat} {paths' : α → List Bytes} (value : α) (hheld : held.Perm (held' value))
    (hpaths : ∀ path ∈ paths, path ∈ paths' value) : Owes passes held paths (pure value) held' paths' :=
  Program.meets_pure fun _ hw => ⟨hw.orderly, hw.perm hheld hpaths⟩

theorem Owes.bind {β : Type} {first : Calls β} {next : β → Calls α} {held₁ : β → List Nat} {paths₁ : β → List Bytes}
    {held₂ : α → List Nat} {paths₂ : α → List Bytes} (hfirst : Owes passes held paths first held₁ paths₁)
    (hnext : ∀ value, Owes passes (held₁ value) (paths₁ value) (next value) held₂ paths₂) :
    Owes passes held paths (first >>= next) held₂ paths₂ :=
  Program.meets_bind hfirst hnext

theorem owes_loop {σ : Type} {body : σ → Calls (σ ⊕ α)} {held₂ : α → List Nat} {paths₂ : α → List Bytes}
    (held₁ : σ → List Nat) (paths₁ : σ → List Bytes)
    (hbody : ∀ s, Owes passes (held₁ s) (paths₁ s) (body s) (fun outcome => outcome.elim held₁ held₂)
      (fun outcome => outcome.elim paths₁ paths₂)) (s : σ) :
    Owes passes (held₁ s) (paths₁ s) (.loop body s) held₂ paths₂ := by
  refine Program.meets_loop (fun s => Holding (held₁ s) (paths₁ s)) (fun s => ?_) s
  refine Program.Meets.weaken (hbody s) (fun _ hw => hw) (fun _ horderly => horderly) fun outcome w hw => ?_
  cases outcome with
  | inl next => exact hw
  | inr value => exact hw

theorem Owes.before {held' : List Nat} {paths' : List Bytes} {program : Calls α} {held₁ : α → List Nat}
    {paths₁ : α → List Bytes} (howes : Owes passes held paths program held₁ paths₁) (hheld : held'.Perm held)
    (hpaths : ∀ path ∈ paths', path ∈ paths) : Owes passes held' paths' program held₁ paths₁ :=
  Program.Meets.weaken howes (fun _ hw => hw.perm hheld hpaths) (fun _ horderly => horderly) (fun _ _ hw => hw)

namespace Members

/-- The descriptor of an object. -/
def fds (self : Members) : List Nat := self.fd.toList

/-- The path that an object has noted down. -/
def names (self : Members) : List Bytes := noted self.path

theorem close_fd_owes (self : Members) :
    Owes passes (self.fds ++ held) paths self.close_fd (fun _ => held) (fun _ => paths) := by
  unfold close_fd fds
  cases self.fd with
  | none => exact owes_return _ (.refl _) fun _ hpath => hpath
  | some fd => exact owes_close fd

theorem write_exact_owes {self : Members} (hheld : ∀ fd ∈ self.fds, fd ∈ held) (src : Bytes) :
    Owes passes held paths (self.write_exact src) (fun _ => held) (fun _ => paths) := by
  unfold write_exact
  split
  · rename_i fd hfd
    refine owes_quiet rfl fun other hother => hheld other ?_
    rw [fds, hfd, ← Option.some.inj hother]
    exact List.mem_cons_self
  · exact owes_return _ (.refl _) fun _ hpath => hpath

theorem read_exact_owes {self : Members} (hheld : ∀ fd ∈ self.fds, fd ∈ held) (count : Nat) (timeout_ms : Int) :
    Owes passes held paths (self.read_exact count timeout_ms) (fun _ => held) (fun _ => paths) := by
  unfold read_exact
  split
  · rename_i fd hfd
    refine owes_quiet rfl fun other hother => hheld other ?_
    rw [fds, hfd, ← Option.some.inj hother]
    exact List.mem_cons_self
  · exact owes_return _ (.refl _) fun _ hpath => hpath

end Members

theorem fcntl_owes (fd : Nat) :
    Owes passes (fd :: held) paths (Sys.fcntl fd) (fun _ => fd :: held) (fun _ => paths) :=
  owes_quiet rfl fun _ hfd => Option.some.inj hfd ▸ List.mem_cons_self

namespace FifoReader

theorem create_owes (path : Bytes) (read_write : Bool) :
    Owes passes held paths (create path read_write) (fun reader => reader.fds ++ held)
      (fun reader => reader.names ++ paths) := by
  have hnoted : ∀ other ∈ noted path ++ paths, other ∈ path :: paths := by
    unfold noted
    split <;> simp +contextual
  refine ((owes_unlink path).before (.refl _) fun _ hother => List.mem_cons_of_mem _ hother).bind fun _ => ?_
  refine (owes_mkfifo path).bind fun made => ?_
  cases made with
  | false => exact owes_return _ (.refl _) fun _ hother => hother
  | true =>
    refine (owes_open path _).bind fun result => ?_
    cases result with
    | opened fd =>
      have hdone : Owes passes (fd :: held) (noted path ++ paths) (pure (Members.mk (some fd) path))
          (fun reader => reader.fds ++ held) (fun reader => reader.names ++ paths) :=
        owes_return _ (.refl _) fun _ hother => hother
      cases read_write with
      | true => exact hdone
      | false => exact (fcntl_owes fd).bind fun _ => (fcntl_owes fd).bind fun _ => hdone
    | unready | failed =>
      exact ((owes_unlink path).before (.refl _) hnoted).bind fun _ => owes_return _ (.refl _) fun _ hother => hother

theorem close_owes (self : Members) :
    Owes passes (self.fds ++ held) (self.names ++ paths) (close self) (fun _ => held) (fun _ => paths) := by
  refine self.close_fd_owes.bind fun _ => ?_
  unfold Members.names noted
  by_cases hpath : self.path = []
  · rw [if_pos hpath, if_neg (not_not.mpr hpath)]
    exact owes_return _ (.refl _) fun _ hother => hother
  · rw [if_neg hpath, if_pos hpath]
    exact owes_unlink _

end FifoReader

namespace FifoWriter

theorem open_fifo_owes (path : Bytes) :
    Owes passes held paths (open_fifo path) (fun writer => writer.fds ++ held) (fun _ => paths) := by
  refine owes_loop (fun _ => held) (fun _ => paths) (fun _ => ?_) ()
  refine (owes_open path .write_only).bind fun result => ?_
  cases result with
  | opened fd =>
    exact (fcntl_owes fd).bind fun _ => (fcntl_owes fd).bind fun _ => owes_return _ (.refl _) fun _ hother => hother
  | failed => exact owes_return _ (.refl _) fun _ hother => hother
  | unready =>
    refine (owes_silent rfl rfl).bind fun late => ?_
    cases (late : Bool) with
    | true => exact owes_return _ (.refl _) fun _ hother => hother
    | false =>
      exact (owes_silent rfl rfl).bind fun _ => owes_return _ (.refl _) fun _ hother => hother

theorem close_owes (self : Members) :
    Owes passes (self.fds ++ held) paths (close self) (fun _ => held) (fun _ => paths) :=
  self.close_fd_owes

end FifoWriter

namespace Object

def fds (self : Object) : List Nat := self.members.fds

/-- The FIFOs a variable answers for: a writer removes none. -/
def names : Object → List Bytes
  | reader members => members.names
  | writer _ => []

theorem close_owes (self : Object) :
    Owes passes (self.fds ++ held) (self.names ++ paths) self.close (fun _ => held) (fun _ => paths) := by
  cases self with
  | reader members => exact FifoReader.close_owes members
  | writer members => exact FifoWriter.close_owes members

/-- The descriptor of a variable, by number. -/
def descriptor (objects : List Object) (x : Nat) : Option Nat := objects[x]?.bind (fun object => object.members.fd)

end Object

end treenity.ipc

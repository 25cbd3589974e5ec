import Treenity.Foundation.Run

namespace treenity.foundation

/-- One of the writers of a pipe: what is left of the write it is making, and the
writes it has still to make. -/
structure Writer (α : Type) where
  rest : List α
  writes : List (List α)

/-- A pipe with everything that was put into it so far. -/
structure Pipe (α : Type) where
  stream : List α
  writers : List (Writer α)

/-- What the kernel lets a writer put into the pipe at once: a write up to the bound
goes in whole, a longer one in pieces of any size. -/
inductive Puts {α : Type} (bound : Nat) : Writer α → List α → Writer α → Prop
  | whole {write : List α} {later : List (List α)} (hfits : write.length ≤ bound) :
      Puts bound ⟨[], write :: later⟩ write ⟨[], later⟩
  | opens {piece rest : List α} {later : List (List α)} (hlong : bound < (piece ++ rest).length)
      (hpiece : piece ≠ []) : Puts bound ⟨[], (piece ++ rest) :: later⟩ piece ⟨rest, later⟩
  | goes_on {piece rest : List α} {later : List (List α)} (hpiece : piece ≠ []) :
      Puts bound ⟨piece ++ rest, later⟩ piece ⟨rest, later⟩

namespace Pipe

variable {α : Type}

/-- An empty pipe and the writes of each writer. -/
def start (sends : List (List (List α))) : Pipe α := ⟨[], sends.map (fun writes => ⟨[], writes⟩)⟩

/-- Any writer may be the next to put something in; the label names it. -/
inductive Step (bound : Nat) : Pipe α → Nat × List α → Pipe α → Prop
  | put {self : Pipe α} {i : Nat} {writer next : Writer α} {piece : List α}
      (hwriter : self.writers[i]? = some writer) (hputs : Puts bound writer piece next) :
      Step bound self (i, piece) ⟨self.stream ++ piece, self.writers.set i next⟩

/-- No writer is in the middle of a write. -/
def Idle (self : Pipe α) : Prop := ∀ writer ∈ self.writers, writer.rest = []

/-- The writes of one writer among those of all. -/
def of_writer (i : Nat) (sent : List (Nat × List α)) : List (List α) :=
  (sent.filter (fun write => write.1 == i)).map Prod.snd

/-- The stream is a concatenation of whole writes, in which each writer's finished
writes stand in its own order. -/
def Whole (self : Pipe α) (sends : List (List (List α))) : Prop :=
  ∃ sent : List (Nat × List α), self.stream = (sent.map Prod.snd).flatten ∧
    ∀ i, sends.getD i [] = of_writer i sent ++ (self.writers.map Writer.writes).getD i []

theorem of_writer_snoc (i j : Nat) (sent : List (Nat × List α)) (write : List α) :
    of_writer i (sent ++ [(j, write)]) = of_writer i sent ++ (if j = i then [write] else []) := by
  unfold of_writer
  rw [List.filter_append, List.map_append]
  by_cases hij : j = i <;> simp [hij]

/-- One more whole write keeps the stream whole. -/
theorem Whole.snoc {self : Pipe α} {sends : List (List (List α))} (hwhole : self.Whole sends) {i : Nat}
    {writer : Writer α} {write : List α} {later : List (List α)} (hwriter : self.writers[i]? = some writer)
    (hwrites : writer.writes = write :: later) :
    Whole ⟨self.stream ++ write, self.writers.set i ⟨[], later⟩⟩ sends := by
  obtain ⟨sent, hstream, horder⟩ := hwhole
  refine ⟨sent ++ [(i, write)], by simp [hstream], fun j => ?_⟩
  rw [horder j, of_writer_snoc, List.append_assoc]
  congr 1
  by_cases hij : i = j
  · subst hij
    obtain ⟨hlt, hget⟩ := List.getElem?_eq_some_iff.mp hwriter
    simp [List.getD_eq_getElem?_getD, hget, hwrites, hlt]
  · simp [List.getD_eq_getElem?_getD, hij]

theorem start_idle (sends : List (List (List α))) : (start sends).Idle := by
  simp [Idle, start]

theorem start_whole (sends : List (List (List α))) : (start sends).Whole sends := by
  refine ⟨[], rfl, fun i => ?_⟩
  simp [start, of_writer, Function.comp_def]

/-- When every write is within the bound, what the readers of the pipe see is always
whole. -/
theorem whole_of_bounded {bound : Nat} {sends : List (List (List α))}
    (hfits : ∀ writes ∈ sends, ∀ write ∈ writes, write.length ≤ bound) {labels : List (Nat × List α)}
    {pipe : Pipe α} (hrun : Run (Step bound) (start sends) labels pipe) : pipe.Whole sends := by
  have hall : pipe.Idle ∧ pipe.Whole sends ∧
      ∀ writer ∈ pipe.writers, ∀ write ∈ writer.writes, write.length ≤ bound := by
    refine hrun.invariant (P := fun p => p.Idle ∧ p.Whole sends ∧
      ∀ writer ∈ p.writers, ∀ write ∈ writer.writes, write.length ≤ bound) ?_ ?_
    · refine ⟨start_idle sends, start_whole sends, ?_⟩
      simpa [start] using hfits
    · rintro self _ _ ⟨hidle, hwhole, hleft⟩ hstep
      obtain @⟨i, writer, next, piece, hwriter, hputs⟩ := hstep
      have hmem : writer ∈ self.writers := List.mem_of_getElem? hwriter
      have hrest := hidle writer hmem
      cases hputs with
      | whole _ =>
        refine ⟨?_, hwhole.snoc hwriter rfl, ?_⟩
        · intro other hother
          rcases List.mem_or_eq_of_mem_set hother with hold | rfl
          · exact hidle other hold
          · rfl
        · intro other hother write hwrite
          rcases List.mem_or_eq_of_mem_set hother with hold | rfl
          · exact hleft other hold write hwrite
          · exact hleft _ hmem write (List.mem_cons_of_mem _ hwrite)
      | opens hlong => exact absurd (hleft _ hmem _ List.mem_cons_self) (Nat.not_le.mpr hlong)
      | goes_on hpiece => exact absurd (List.append_eq_nil_iff.mp hrest).1 hpiece
  exact hall.2.1

/-- A lone writer has nobody to be interleaved with, however long its writes are. -/
theorem whole_of_lone {bound : Nat} {sends : List (List (List α))} (hlone : sends.length ≤ 1)
    {labels : List (Nat × List α)} {pipe : Pipe α} (hrun : Run (Step bound) (start sends) labels pipe)
    (hidle : pipe.Idle) : pipe.Whole sends := by
  -- With the write in progress completed the stream is whole.
  have hall : pipe.writers.length ≤ 1 ∧
      Whole ⟨pipe.stream ++ (pipe.writers.flatMap Writer.rest), pipe.writers⟩ sends := by
    refine hrun.invariant (P := fun p => p.writers.length ≤ 1 ∧
      Whole ⟨p.stream ++ (p.writers.flatMap Writer.rest), p.writers⟩ sends) ?_ ?_
    · refine ⟨by simpa [start] using hlone, ?_⟩
      have hnil : (start sends).writers.flatMap Writer.rest = [] := by simp [start]
      rw [hnil, List.append_nil]
      exact start_whole sends
    · rintro self _ _ ⟨hone, hwhole⟩ hstep
      obtain @⟨i, writer, next, piece, hwriter, hputs⟩ := hstep
      obtain ⟨stream, writers⟩ := self
      obtain ⟨hlt, hget⟩ := List.getElem?_eq_some_iff.mp hwriter
      dsimp only at hone hlt hget hwriter hwhole
      obtain ⟨only, rfl⟩ := List.length_eq_one_iff.mp (show writers.length = 1 by omega)
      obtain rfl : i = 0 := by simpa using hlt
      obtain rfl : only = writer := hget
      refine ⟨by simp, ?_⟩
      cases hputs with
      | whole _ => simpa using hwhole.snoc hwriter rfl
      | opens hlong hpiece => simpa [Whole] using hwhole.snoc hwriter rfl
      | goes_on hpiece => simpa [Whole] using hwhole
  have hnil : pipe.writers.flatMap Writer.rest = [] := by
    rw [List.flatMap_eq_nil_iff]
    exact hidle
  rw [hnil, List.append_nil] at hall
  exact hall.2

/-- A whole stream starts with a write that somebody makes. -/
theorem Whole.starts {self : Pipe α} {sends : List (List (List α))} (hwhole : self.Whole sends)
    (hstream : self.stream ≠ []) : ∃ writes ∈ sends, ∃ write ∈ writes, write <+: self.stream := by
  obtain ⟨sent, hsent, horder⟩ := hwhole
  cases sent with
  | nil => exact absurd hsent hstream
  | cons first others =>
    obtain ⟨i, write⟩ := first
    have hmem : write ∈ sends.getD i [] := by
      rw [horder i]
      simp [of_writer]
    have hwrites : sends.getD i [] ∈ sends := by
      rw [List.getD_eq_getElem?_getD] at hmem ⊢
      cases hget : sends[i]? with
      | none => simp [hget] at hmem
      | some writes => exact List.mem_of_getElem? hget
    refine ⟨_, hwrites, write, hmem, ?_⟩
    rw [hsent]
    exact List.prefix_append _ _

/-- The second writer can put its write anywhere into a write of the first that is
longer than the bound. -/
theorem run_split {bound : Nat} {long short : List α} {k : Nat} (hlong : bound < long.length)
    (hfirst : long.take k ≠ []) (hsecond : long.drop k ≠ []) (hshort : short.length ≤ bound) :
    Run (Step bound) (start [[long], [short]]) [(0, long.take k), (1, short), (0, long.drop k)]
      ⟨long.take k ++ short ++ long.drop k, [⟨[], []⟩, ⟨[], []⟩]⟩ := by
  have hopens : Puts bound ⟨[], [long]⟩ (long.take k) ⟨long.drop k, []⟩ := by
    have hputs : Puts bound ⟨[], [long.take k ++ long.drop k]⟩ (long.take k) ⟨long.drop k, []⟩ :=
      .opens (by rwa [List.take_append_drop]) hfirst
    rwa [List.take_append_drop] at hputs
  have hcloses : Puts bound ⟨long.drop k, []⟩ (long.drop k) ⟨[], []⟩ := by
    have hputs : Puts bound ⟨long.drop k ++ [], []⟩ (long.drop k) ⟨[], []⟩ := .goes_on hsecond
    rwa [List.append_nil] at hputs
  exact .snoc (.snoc (.snoc (.nil _) (Step.put (i := 0) rfl hopens)) (Step.put (i := 1) rfl (.whole hshort)))
    (Step.put (i := 0) rfl hcloses)

end Pipe

end treenity.foundation

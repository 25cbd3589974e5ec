import Mathlib.Data.List.Basic

namespace treenity.foundation

/-- A buffered stream over an output that takes `room` more elements and fails from then on. -/
structure Ostream (α : Type) where
  room : Nat
  good : Bool
  buffer : List α
  output : List α

namespace Ostream

variable {α : Type}

/-- A stream nothing was written to. -/
def start (room : Nat) : Ostream α := ⟨room, true, [], []⟩

/-- Hands the first `count` elements of what is pending on to the output. -/
def push (self : Ostream α) (pending : List α) (count : Nat) : Ostream α :=
  if (pending.take count).length ≤ self.room then
    ⟨self.room - (pending.take count).length, self.good, pending.drop count, self.output ++ pending.take count⟩
  else ⟨0, false, pending.drop self.room, self.output ++ (pending.take count).take self.room⟩

def flush (self : Ostream α) : Ostream α :=
  if self.good then self.push self.buffer self.buffer.length else self

-- How many of the pending elements a write hands on at once: it may depend on those in
-- the buffer and those it adds.
variable (passes : List α → List α → Nat)

def write (self : Ostream α) (chunk : List α) : Ostream α :=
  if self.good then self.push (self.buffer ++ chunk) (passes self.buffer chunk) else self

/-- Writes that stop at the first after which the stream is no longer good. -/
def write_checked (self : Ostream α) : List (List α) → Bool × Ostream α
  | [] => (true, self)
  | chunk :: chunks =>
    if (self.write passes chunk).good then (self.write passes chunk).write_checked chunks
    else (false, self.write passes chunk)

/-- How much the writes hand on before the next flush, if nothing fails. -/
def handed (buffer : List α) : List (List α) → Nat
  | [] => 0
  | chunk :: chunks =>
    let pending := buffer ++ chunk
    (pending.take (passes buffer chunk)).length + handed (pending.drop (passes buffer chunk)) chunks

theorem handed_le (buffer : List α) (chunks : List (List α)) :
    handed passes buffer chunks ≤ buffer.length + chunks.flatten.length := by
  induction chunks generalizing buffer with
  | nil => exact Nat.zero_le _
  | cons chunk chunks ih =>
    have htail := ih ((buffer ++ chunk).drop (passes buffer chunk))
    simp only [handed, List.flatten_cons, List.length_append, List.length_take, List.length_drop] at htail ⊢
    omega

theorem push_extends (self : Ostream α) (pending : List α) (count : Nat) :
    self.output <+: (self.push pending count).output := by
  unfold push
  split <;> exact List.prefix_append _ _

theorem flush_extends (self : Ostream α) : self.output <+: self.flush.output := by
  unfold flush
  split
  · exact self.push_extends _ _
  · exact List.prefix_refl _

theorem write_extends (self : Ostream α) (chunk : List α) : self.output <+: (self.write passes chunk).output := by
  unfold write
  split
  · exact self.push_extends _ _
  · exact List.prefix_refl _

/-- What was output stays output. -/
theorem write_checked_extends (self : Ostream α) (chunks : List (List α)) :
    self.output <+: (self.write_checked passes chunks).2.output := by
  induction chunks generalizing self with
  | nil => exact List.prefix_refl _
  | cons chunk chunks ih =>
    rw [write_checked]
    split
    · exact (self.write_extends passes chunk).trans (ih _)
    · exact self.write_extends passes chunk

theorem write_good {self : Ostream α} (hgood : self.good = true) (chunk : List α) :
    self.write passes chunk = self.push (self.buffer ++ chunk) (passes self.buffer chunk) := by
  rw [write, if_pos hgood]

variable {passes}

theorem flush_bad {self : Ostream α} (hbad : self.good = false) : self.flush = self := by
  simp [flush, hbad]

theorem write_bad {self : Ostream α} (hbad : self.good = false) (chunk : List α) :
    self.write passes chunk = self := by
  simp [write, hbad]

theorem write_checked_bad {self : Ostream α} (hbad : self.good = false) (chunks : List (List α)) :
    (self.write_checked passes chunks).2 = self := by
  cases chunks with
  | nil => rfl
  | cons chunk chunks => rw [write_checked, write_bad hbad, if_neg (by simp [hbad])]

theorem push_taken {self : Ostream α} {pending : List α} {count : Nat}
    (hroom : (pending.take count).length ≤ self.room) :
    self.push pending count =
      ⟨self.room - (pending.take count).length, self.good, pending.drop count,
        self.output ++ pending.take count⟩ := by
  rw [push, if_pos hroom]

/-- A push that fails leaves the output full. -/
theorem push_lost {self : Ostream α} {pending : List α} {count : Nat}
    (hroom : self.room < (pending.take count).length) :
    (self.push pending count).good = false ∧
      (self.push pending count).output.length = self.output.length + self.room := by
  rw [push, if_neg (by omega)]
  refine ⟨rfl, ?_⟩
  rw [List.length_append, List.length_take, Nat.min_eq_left (by omega)]

/-- A stream that keeps up to `size` elements for the flush hands none of fewer on. -/
theorem handed_kept {size : Nat}
    (hkeeps : ∀ buffer chunk : List α, (buffer ++ chunk).length ≤ size → passes buffer chunk = 0)
    {buffer : List α} {chunks : List (List α)} (hsize : buffer.length + chunks.flatten.length ≤ size) :
    handed passes buffer chunks = 0 := by
  induction chunks generalizing buffer with
  | nil => rfl
  | cons chunk chunks ih =>
    rw [List.flatten_cons, List.length_append] at hsize
    have hchunk : (buffer ++ chunk).length ≤ size := by
      rw [List.length_append]
      omega
    rw [handed, hkeeps buffer chunk hchunk, List.take_zero, List.drop_zero, List.length_nil, Nat.zero_add]
    exact ih (by rw [List.length_append]; omega)

/-- Checked writes succeed when the output has room for what they hand on. -/
theorem write_checked_taken {self : Ostream α} (hgood : self.good = true) {chunks : List (List α)}
    (hroom : handed passes self.buffer chunks ≤ self.room) :
    ∃ given rest, given ++ rest = self.buffer ++ chunks.flatten ∧
      given.length = handed passes self.buffer chunks ∧
      self.write_checked passes chunks = (true, ⟨self.room - given.length, true, rest, self.output ++ given⟩) := by
  induction chunks generalizing self with
  | nil =>
    obtain ⟨room, good, buffer, output⟩ := self
    obtain rfl : good = true := hgood
    exact ⟨[], buffer, by simp, rfl, by simp [write_checked]⟩
  | cons chunk chunks ih =>
    rw [handed] at hroom
    have hwrite := write_good passes hgood chunk
    rw [push_taken (by omega)] at hwrite
    have hnext : (self.write passes chunk).good = true := by rw [hwrite, hgood]
    obtain ⟨given, rest, hsplit, hlength, hchecked⟩ := ih hnext (by rw [hwrite]; dsimp only; omega)
    rw [hwrite] at hsplit hlength hchecked
    dsimp only at hsplit hlength hchecked
    refine ⟨(self.buffer ++ chunk).take (passes self.buffer chunk) ++ given, rest, ?_, ?_, ?_⟩
    · rw [List.append_assoc, hsplit, ← List.append_assoc, List.take_append_drop, List.flatten_cons,
        List.append_assoc]
    · rw [List.length_append, hlength, handed]
    · rw [write_checked, if_pos hnext, hwrite, hchecked, List.length_append, List.append_assoc, Nat.sub_sub]

/-- Otherwise they stop, at a full output. -/
theorem write_checked_stops {self : Ostream α} (hgood : self.good = true) {chunks : List (List α)}
    (hroom : self.room < handed passes self.buffer chunks) :
    (self.write_checked passes chunks).1 = false ∧ (self.write_checked passes chunks).2.good = false ∧
      (self.write_checked passes chunks).2.output.length = self.output.length + self.room := by
  induction chunks generalizing self with
  | nil => exact absurd hroom (Nat.not_lt_zero _)
  | cons chunk chunks ih =>
    rw [handed] at hroom
    have hwrite := write_good passes hgood chunk
    by_cases hfits : ((self.buffer ++ chunk).take (passes self.buffer chunk)).length ≤ self.room
    · rw [push_taken hfits] at hwrite
      have hnext : (self.write passes chunk).good = true := by rw [hwrite, hgood]
      have hrest := ih hnext (by rw [hwrite]; dsimp only; omega)
      rw [write_checked, if_pos hnext]
      refine ⟨hrest.1, hrest.2.1, hrest.2.2.trans ?_⟩
      rw [hwrite]
      dsimp only
      rw [List.length_append]
      omega
    · obtain ⟨hbad, hlength⟩ := push_lost (Nat.lt_of_not_le hfits)
      rw [← hwrite] at hbad hlength
      rw [write_checked, if_neg (by simp [hbad])]
      exact ⟨rfl, hbad, hlength⟩

/-- Checked writes and a flush, on an output with room for everything. -/
theorem flushed_taken {self : Ostream α} (hgood : self.good = true) (hbuffer : self.buffer = [])
    {chunks : List (List α)} (hroom : chunks.flatten.length ≤ self.room) :
    (self.write_checked passes chunks).1 = true ∧ (self.write_checked passes chunks).2.flush =
      ⟨self.room - chunks.flatten.length, true, [], self.output ++ chunks.flatten⟩ := by
  have hhanded : handed passes self.buffer chunks ≤ self.room := by
    have hle := handed_le passes self.buffer chunks
    rw [hbuffer, List.length_nil, Nat.zero_add] at hle
    rw [hbuffer]
    exact Nat.le_trans hle hroom
  obtain ⟨given, rest, hsplit, _, hchecked⟩ := write_checked_taken hgood hhanded
  rw [hbuffer, List.nil_append] at hsplit
  have hlength := congrArg List.length hsplit
  rw [List.length_append] at hlength
  rw [hchecked]
  refine ⟨rfl, ?_⟩
  rw [flush, if_pos rfl, push_taken (by rw [List.take_length]; dsimp only; omega)]
  simp only [List.take_length, List.drop_length, List.append_assoc, hsplit, Nat.sub_sub, hlength]

variable (passes) in
/-- Without that room the stream is bad after the flush, but the writes have noticed it only
when they handed on too much. -/
theorem flushed_lost {self : Ostream α} (hgood : self.good = true) (hbuffer : self.buffer = [])
    {chunks : List (List α)} (hroom : self.room < chunks.flatten.length) :
    ((self.write_checked passes chunks).1 = true ↔ handed passes [] chunks ≤ self.room) ∧
      (self.write_checked passes chunks).2.flush.good = false ∧
      (self.write_checked passes chunks).2.flush.output.length = self.output.length + self.room := by
  rw [← hbuffer]
  by_cases hhanded : handed passes self.buffer chunks ≤ self.room
  · obtain ⟨given, rest, hsplit, hgiven, hchecked⟩ := write_checked_taken hgood hhanded
    rw [hbuffer, List.nil_append] at hsplit
    have hlength := congrArg List.length hsplit
    rw [List.length_append] at hlength
    rw [hchecked]
    dsimp only
    have hlost := @push_lost α ⟨self.room - given.length, true, rest, self.output ++ given⟩ rest rest.length
      (by rw [List.take_length]; dsimp only; omega)
    rw [flush, if_pos rfl]
    refine ⟨⟨fun _ => hhanded, fun _ => rfl⟩, hlost.1, hlost.2.trans ?_⟩
    dsimp only
    rw [List.length_append]
    omega
  · obtain ⟨hstops, hbad, hlength⟩ := write_checked_stops hgood (Nat.lt_of_not_le hhanded)
    rw [flush_bad hbad]
    refine ⟨⟨fun htrue => ?_, fun hle => absurd hle hhanded⟩, hbad, hlength⟩
    rw [hstops] at htrue
    cases htrue

/-- A write that nobody checks is the only one of a list. -/
theorem write_eq (self : Ostream α) (chunk : List α) :
    self.write passes chunk = (self.write_checked passes [chunk]).2 := by
  unfold write_checked
  split <;> rfl

end Ostream

end treenity.foundation

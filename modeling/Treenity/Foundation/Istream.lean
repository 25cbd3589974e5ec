import Mathlib.Data.List.Basic

namespace treenity.foundation

/-- A stream that hands out, in each call of `read`, some of the items it still has: any
number of them up to what was asked for, but not none before the end. A call that finds
nothing more sets `eof`. What is left is not known to the reader. -/
structure Istream (σ α : Type) where
  read : σ → Nat → List α × σ
  eof : σ → Bool
  left : σ → List α
  left_eq : ∀ s n, left s = (read s n).1 ++ left (read s n).2
  length_le : ∀ s n, (read s n).1.length ≤ n
  some_read : ∀ s n, 0 < n → left s ≠ [] → (read s n).1 ≠ []
  eof_of_none : ∀ s n, 0 < n → (read s n).1 = [] → eof (read s n).2 = true

namespace Istream

variable {σ α : Type} (stream : Istream σ α)

/-- Reading until `n` items are there or a call has handed out none. -/
def fill (n : Nat) (s : σ) : List α × σ :=
  if n = 0 then ([], s)
  else
    match _hread : stream.read s n with
    | ([], s) => ([], s)
    | (item :: items, s) =>
      let (more, s) := fill (n - (item :: items).length) s
      (item :: items ++ more, s)
termination_by n
decreasing_by
  rw [List.length_cons]
  omega

/-- In whatever pieces it comes, the loop gets the next `n` items, or all there are. -/
theorem fill_eq (n : Nat) (s : σ) :
    (stream.fill n s).1 = (stream.left s).take n ∧ stream.left (stream.fill n s).2 = (stream.left s).drop n := by
  fun_induction Istream.fill stream n s with
  | case1 s => simp
  | case2 n s hn next hread =>
    have hempty : stream.left s = [] := by
      by_contra hleft
      exact stream.some_read s n (Nat.pos_of_ne_zero hn) hleft (congrArg Prod.fst hread)
    have hsplit := stream.left_eq s n
    rw [hread, hempty, List.nil_append] at hsplit
    rw [hempty]
    exact ⟨List.take_nil.symm, hsplit.symm.trans List.drop_nil.symm⟩
  | case3 n s hn item items next hread more last hfill ih =>
    rw [hfill] at ih
    have hsplit := stream.left_eq s n
    have hlength := stream.length_le s n
    rw [hread] at hsplit hlength
    dsimp only at hsplit hlength ih ⊢
    rw [hsplit, List.take_append, List.drop_append, List.take_of_length_le hlength, List.drop_of_length_le hlength]
    exact ⟨congrArg _ ih.1, ih.2⟩

/-- A loop that got nothing has seen the end. -/
theorem fill_eof {n : Nat} {s : σ} (hn : 0 < n) (hnone : (stream.fill n s).1 = []) :
    stream.eof (stream.fill n s).2 = true := by
  rw [fill, if_neg (Nat.pos_iff_ne_zero.mp hn)] at hnone ⊢
  split
  · rename_i next hread
    have heof := stream.eof_of_none s n hn (congrArg Prod.fst hread)
    rwa [hread] at heof
  · rename_i item items next hread
    rw [hread] at hnone
    cases hnone

end Istream

/-- A buffered input: the pieces that the next refills of the buffer bring, the first of
them partly used, and whether a call has met the end, which sets `eofbit` and `failbit`. -/
structure Cin (α : Type) where
  pieces : List (List α)
  ended : Bool

namespace Cin

variable {α : Type}

/-- `std::streambuf::sgetn`, which takes from one piece after another. -/
def sgetn : Nat → List (List α) → List α × List (List α)
  | _, [] => ([], [])
  | n, piece :: later =>
    if n ≤ piece.length then (piece.take n, piece.drop n :: later)
    else
      let (more, left) := sgetn (n - piece.length) later
      (piece ++ more, left)

theorem sgetn_eq (n : Nat) (pieces : List (List α)) :
    (sgetn n pieces).1 = pieces.flatten.take n ∧ (sgetn n pieces).2.flatten = pieces.flatten.drop n := by
  fun_induction sgetn n pieces with
  | case1 n => simp
  | case2 n piece later hfits =>
    rw [List.flatten_cons, List.take_append_of_le_length hfits, List.drop_append_of_le_length hfits]
    exact ⟨rfl, List.flatten_cons⟩
  | case3 n piece later hlong more left hmore ih =>
    rw [hmore] at ih
    have hle : piece.length ≤ n := by omega
    rw [List.flatten_cons, List.take_append, List.drop_append, List.take_of_length_le hle, List.drop_of_length_le hle]
    exact ⟨congrArg _ ih.1, ih.2⟩

/-- `std::istream::read`; the number of items is what `gcount` reports. -/
def read (cin : Cin α) (n : Nat) : List α × Cin α :=
  if cin.ended then ([], cin)
  else
    let (items, pieces) := sgetn n cin.pieces
    (items, { pieces, ended := items.length < n })

def left (cin : Cin α) : List α := if cin.ended then [] else cin.pieces.flatten

theorem read_spec {cin : Cin α} (hopen : cin.ended = false) (n : Nat) :
    (cin.read n).1 = cin.pieces.flatten.take n ∧ (cin.read n).2.left = cin.pieces.flatten.drop n ∧
      (cin.read n).2.ended = decide (cin.pieces.flatten.length < n) := by
  obtain ⟨htaken, hleft⟩ := sgetn_eq n cin.pieces
  have hread : cin.read n =
      ((sgetn n cin.pieces).1, ⟨(sgetn n cin.pieces).2, decide (cin.pieces.flatten.length < n)⟩) := by
    rw [read, hopen, if_neg Bool.false_ne_true]
    dsimp only
    rw [htaken, List.length_take]
    congr 2
    exact decide_eq_decide.mpr (by omega)
  rw [hread]
  refine ⟨htaken, ?_, rfl⟩
  by_cases hshort : cin.pieces.flatten.length < n
  · rw [left, if_pos (decide_eq_true hshort), List.drop_of_length_le (Nat.le_of_lt hshort)]
  · rw [left, if_neg (by simpa using hshort)]
    exact hleft

/-- `std::cin` is such a stream, whatever its pieces are. -/
def stream : Istream (Cin α) α where
  read := read
  eof := ended
  left := left
  left_eq := by
    intro cin n
    cases hended : cin.ended with
    | true => simp [read, left, hended]
    | false =>
      obtain ⟨htaken, hleft, _⟩ := read_spec hended n
      rw [htaken, hleft, left, hended, if_neg Bool.false_ne_true, List.take_append_drop]
  length_le := by
    intro cin n
    cases hended : cin.ended with
    | true => simp [read, hended]
    | false =>
      rw [(read_spec hended n).1, List.length_take]
      exact Nat.min_le_left _ _
  some_read := by
    intro cin n hn hleft
    cases hended : cin.ended with
    | true => simp [left, hended] at hleft
    | false =>
      rw [left, hended, if_neg Bool.false_ne_true] at hleft
      rw [(read_spec hended n).1, Ne, List.take_eq_nil_iff]
      rintro (hzero | hnil)
      · omega
      · exact hleft hnil
  eof_of_none := by
    intro cin n hn hnone
    cases hended : cin.ended with
    | true => simp [read, hended]
    | false =>
      obtain ⟨htaken, _, heof⟩ := read_spec hended n
      rw [htaken, List.take_eq_nil_iff] at hnone
      rw [heof, decide_eq_true_eq]
      rcases hnone with hzero | hnil
      · omega
      · rw [hnil]
        exact hn

end Cin

end treenity.foundation

import Treenity.Client.Text
import Treenity.Foundation.Istream

open treenity.protocol treenity.foundation

namespace treenity.client

theorem execute_publish_raw_error {topic input : Bytes} {code : Nat} (hread : read_record input = .error code) :
    execute_publish_raw topic input = ([], code) := by
  rw [execute_publish_raw]
  split
  · rename_i other herror
    rw [hread] at herror
    rw [Except.error.inj herror]
  · rename_i hok
    rw [hread] at hok
    cases hok

theorem execute_publish_raw_ok {topic input key value rest : Bytes}
    (hread : read_record input = .ok (key, value, rest)) :
    execute_publish_raw topic input =
      (Request.serialize_produce topic key value :: (execute_publish_raw topic rest).1,
        (execute_publish_raw topic rest).2) := by
  rw [execute_publish_raw]
  split
  · rename_i herror
    rw [hread] at herror
    cases herror
  · rename_i hok
    rw [hread] at hok
    cases hok
    rfl

/-- A number was read off the front of the input. -/
theorem read_little_endian_int32_ok {input rest : Bytes} {number : UInt32}
    (hread : read_little_endian_int32 input = .Ok number rest) : input = le32 number ++ rest := by
  unfold read_little_endian_int32 at hread
  split at hread
  · cases hread
  · split at hread
    · cases hread
    · rename_i hlong
      cases hread
      exact (le32_read_append_drop (not_lt.mp hlong)).symm

theorem read_exact_some {size : Nat} {input value rest : Bytes} (hread : read_exact size input = some (value, rest)) :
    input = value ++ rest ∧ value.length = size := by
  unfold read_exact at hread
  split at hread
  · cases hread
  · obtain ⟨rfl, rfl⟩ := Prod.mk.inj (Option.some.inj hread)
    refine ⟨(List.take_append_drop _ _).symm, ?_⟩
    rw [List.length_take]
    omega

/-- What was read is a record at the front of the input. -/
theorem read_record_split {input key value rest : Bytes} (hread : read_record input = .ok (key, value, rest)) :
    input = record key value ++ rest := by
  unfold read_record at hread
  split at hread
  · cases hread
  · cases hread
  · rename_i key_size left hkey_size
    split at hread
    · cases hread
    · split at hread
      · cases hread
      · rename_i found left' hkey
        split at hread
        · rename_i val_size left'' hval_size
          split at hread
          · cases hread
          · split at hread
            · cases hread
            · rename_i hvalue
              cases hread
              obtain ⟨hsplit, hkey_length⟩ := read_exact_some hkey
              obtain ⟨hsplit', hvalue_length⟩ := read_exact_some hvalue
              rw [read_little_endian_int32_ok hkey_size, hsplit, read_little_endian_int32_ok hval_size, hsplit',
                record, ← eq_to_uint32 hkey_length, ← eq_to_uint32 hvalue_length]
              simp only [List.append_assoc]
        · cases hread

/-- Only the end of the input makes the exit code 0. -/
theorem read_record_error {input : Bytes} {code : Nat} (hread : read_record input = .error code) :
    code = if input = [] then 0 else 1 := by
  by_cases hempty : input = []
  · rw [hempty] at hread
    rw [if_pos hempty]
    exact (Except.error.inj hread).symm
  · rw [if_neg hempty]
    unfold read_record at hread
    split at hread
    · rename_i hend
      unfold read_little_endian_int32 at hend
      rw [if_neg (by simpa using hempty)] at hend
      split at hend <;> cases hend
    · exact (Except.error.inj hread).symm
    · split at hread
      · exact (Except.error.inj hread).symm
      · split at hread
        · exact (Except.error.inj hread).symm
        · split at hread
          · split at hread
            · exact (Except.error.inj hread).symm
            · split at hread
              · exact (Except.error.inj hread).symm
              · cases hread
          · exact (Except.error.inj hread).symm

namespace Stdin

inductive IntegerReadStatus where
  | Ok
  | EndOfFile
  | Partial
  deriving DecidableEq

section Reading

variable {σ : Type} (cin : Istream σ UInt8)

/-- The loops of this function and of `read_exact` are `Istream.fill`. -/
def read_little_endian_int32 (s : σ) : IntegerReadStatus × UInt32 × σ :=
  let (bytes, s) := cin.fill 4 s
  if bytes.length < 4 then (if bytes.length = 0 && cin.eof s then .EndOfFile else .Partial, 0, s)
  else (.Ok, read_uint32_le bytes, s)

/-- `none` is the result `false`. -/
def read_exact (size : Nat) (s : σ) : Option Bytes × σ :=
  if size = 0 then (some [], s)
  else
    let (value, s) := cin.fill size s
    (if value.length < size then none else some value, s)

/-- A turn of the loop of `execute_publish_raw` up to `serialize_produce`: the message and the
stream after it, or the exit code. -/
def read_record (s : σ) : Except Nat (Bytes × Bytes × σ) :=
  match read_little_endian_int32 cin s with
  | (.EndOfFile, _, _) => .error 0
  | (.Partial, _, _) => .error 1
  | (.Ok, key_size, s) =>
    if key_size.toNat > MAX_PAYLOAD_SIZE then .error 1
    else
      match read_exact cin key_size.toNat s with
      | (none, _) => .error 1
      | (some key, s) =>
        match read_little_endian_int32 cin s with
        | (.Ok, val_size, s) =>
          if val_size.toNat > MAX_PAYLOAD_SIZE - key_size.toNat then .error 1
          else
            match read_exact cin val_size.toNat s with
            | (none, _) => .error 1
            | (some value, s) => .ok (key, value, s)
        | _ => .error 1

/-- What `read_little_endian_int32` says of a stream is what it says of the bytes left in it. -/
theorem read_little_endian_int32_eq (s : σ) :
    client.read_little_endian_int32 (cin.left s) =
      match read_little_endian_int32 cin s with
      | (.Ok, number, s) => .Ok number (cin.left s)
      | (.EndOfFile, _, _) => .EndOfFile
      | (.Partial, _, _) => .Partial := by
  obtain ⟨hbytes, hleft⟩ := cin.fill_eq 4 s
  have heof := cin.fill_eof (n := 4) (s := s) (by decide)
  rw [client.read_little_endian_int32, read_little_endian_int32]
  generalize cin.fill 4 s = filled at hbytes hleft heof
  obtain ⟨bytes, rest⟩ := filled
  dsimp only at hbytes hleft heof ⊢
  have hlength : bytes.length = min 4 (cin.left s).length := hbytes ▸ List.length_take
  by_cases hempty : cin.left s = []
  · have hnone : bytes = [] := by rw [hbytes, hempty, List.take_nil]
    simp [hempty, hnone, heof hnone]
  · have hpos : 0 < (cin.left s).length := List.length_pos_iff.mpr hempty
    rw [if_neg (by simpa using hempty)]
    by_cases hshort : (cin.left s).length < 4
    · have hsome : ¬bytes.length = 0 := by omega
      simp only [hshort, if_true, show bytes.length < 4 by omega, hsome, decide_false, Bool.false_and,
        Bool.false_eq_true, if_false]
    · have hfull : ¬bytes.length < 4 := by omega
      have hsplit : cin.left s = bytes ++ cin.left rest := by
        rw [hbytes, hleft, List.take_append_drop]
      simp only [hshort, if_false, hfull]
      rw [← hleft, hsplit, read_uint32_le_append (not_lt.mp hfull)]

theorem read_exact_eq (size : Nat) (s : σ) :
    client.read_exact size (cin.left s) =
      match read_exact cin size s with
      | (some value, s) => some (value, cin.left s)
      | (none, _) => none := by
  rw [client.read_exact, read_exact]
  by_cases hsize : size = 0
  · simp [hsize]
  · obtain ⟨hbytes, hleft⟩ := cin.fill_eq size s
    generalize cin.fill size s = filled at hbytes hleft
    obtain ⟨bytes, rest⟩ := filled
    dsimp only at hbytes hleft ⊢
    have hlength : bytes.length = min size (cin.left s).length := hbytes ▸ List.length_take
    rw [if_neg hsize]
    by_cases hshort : (cin.left s).length < size
    · simp only [hshort, if_true, show bytes.length < size by omega]
    · simp only [hshort, if_false, show ¬bytes.length < size by omega]
      rw [hbytes, hleft]

theorem read_record_eq (s : σ) :
    client.read_record (cin.left s) =
      match read_record cin s with
      | .ok (key, value, s) => .ok (key, value, cin.left s)
      | .error code => .error code := by
  rw [client.read_record, read_record, read_little_endian_int32_eq]
  rcases read_little_endian_int32 cin s with ⟨_ | _ | _, key_size, s⟩
  · dsimp only
    split
    · rfl
    · rw [read_exact_eq]
      rcases read_exact cin key_size.toNat s with ⟨_ | key, s⟩
      · rfl
      · dsimp only
        rw [read_little_endian_int32_eq]
        rcases read_little_endian_int32 cin s with ⟨_ | _ | _, val_size, s⟩
        · dsimp only
          split
          · rfl
          · rw [read_exact_eq]
            rcases read_exact cin val_size.toNat s with ⟨_ | value, s⟩ <;> rfl
        · rfl
        · rfl
  · rfl
  · rfl

theorem read_record_shorter {s rest : σ} {key value : Bytes} (hread : read_record cin s = .ok (key, value, rest)) :
    (cin.left rest).length < (cin.left s).length := by
  have hbytes := read_record_eq cin s
  rw [hread] at hbytes
  exact (read_record_ok hbytes).1

/-- The frames that are written when every write succeeds, and the exit code. -/
def execute_publish_raw (topic : Bytes) (s : σ) : List Bytes × Nat :=
  match _hread : read_record cin s with
  | .error code => ([], code)
  | .ok (key, value, s) =>
    let (frames, code) := execute_publish_raw topic s
    (Request.serialize_produce topic key value :: frames, code)
termination_by (cin.left s).length
decreasing_by exact read_record_shorter cin _hread

/-- The pieces in which the input arrives do not matter. -/
theorem execute_publish_raw_eq (topic : Bytes) (s : σ) :
    execute_publish_raw cin topic s = client.execute_publish_raw topic (cin.left s) := by
  fun_induction execute_publish_raw cin topic s with
  | case1 s code hread =>
    have hbytes := read_record_eq cin s
    rw [hread] at hbytes
    rw [execute_publish_raw_error hbytes]
  | case2 s key value rest hread frames code hrest ih =>
    have hbytes := read_record_eq cin s
    rw [hread] at hbytes
    rw [execute_publish_raw_ok hbytes, ← ih, hrest]

/-- On `std::cin` that is the concatenation of what its refills bring. -/
theorem execute_publish_raw_pieces (topic : Bytes) (pieces : List Bytes) :
    execute_publish_raw Cin.stream topic { pieces, ended := false } =
      client.execute_publish_raw topic pieces.flatten :=
  execute_publish_raw_eq Cin.stream topic _

end Reading

end Stdin

/-- Records whose messages keep to the limit. -/
def Within (records : List (Bytes × Bytes)) : Prop :=
  ∀ pair ∈ records, pair.1.length + pair.2.length ≤ MAX_PAYLOAD_SIZE

/-- Records one after another, as the raw mode reads them. -/
def concatenation (records : List (Bytes × Bytes)) : Bytes := records.flatMap fun pair => record pair.1 pair.2

@[simp] theorem concatenation_cons (first : Bytes × Bytes) (records : List (Bytes × Bytes)) :
    concatenation (first :: records) = record first.1 first.2 ++ concatenation records := List.flatMap_cons

@[simp] theorem concatenation_append (records later : List (Bytes × Bytes)) :
    concatenation (records ++ later) = concatenation records ++ concatenation later := List.flatMap_append

/-- The producer sends the records at the front of its input and stops where no record is:
with 0 at the end of the input, with 1 before it. -/
theorem execute_publish_raw_records (topic input : Bytes) :
    ∃ records rest, input = concatenation records ++ rest ∧ Within records ∧
      read_record rest = .error (if rest = [] then 0 else 1) ∧
      execute_publish_raw topic input =
        (records.map fun pair => Request.serialize_produce topic pair.1 pair.2, if rest = [] then 0 else 1) := by
  fun_induction execute_publish_raw topic input with
  | case1 input code hread =>
    refine ⟨[], input, (List.nil_append _).symm, List.forall_mem_nil _, ?_⟩
    obtain rfl := read_record_error hread
    exact ⟨hread, rfl⟩
  | case2 input key value after hread frames code hrest ih =>
    obtain ⟨records, rest, hsplit, hwithin, hstops, hframes⟩ := ih
    rw [hrest] at hframes
    obtain ⟨rfl, rfl⟩ := Prod.mk.inj hframes
    refine ⟨(key, value) :: records, rest, ?_, ?_, hstops, rfl⟩
    · rw [read_record_split hread, hsplit, concatenation_cons, List.append_assoc]
    · exact List.forall_mem_cons.mpr ⟨(read_record_ok hread).2, hwithin⟩

/-- Records can be read off the front of the input in one way only. -/
theorem records_longest {records others : List (Bytes × Bytes)} {rest tail : Bytes} (hrecords : Within records)
    (hothers : Within others) {code : Nat} (hstops : read_record rest = .error code)
    (hsame : concatenation records ++ rest = concatenation others ++ tail) : others <+: records := by
  induction others generalizing records with
  | nil => exact List.nil_prefix
  | cons other others ih =>
    obtain ⟨hother, hlater⟩ := List.forall_mem_cons.mp hothers
    have hread : read_record (concatenation (other :: others) ++ tail) =
        .ok (other.1, other.2, concatenation others ++ tail) := by
      rw [concatenation_cons, List.append_assoc]
      exact read_record_record hother _
    cases records with
    | nil =>
      rw [← hsame] at hread
      exact absurd (hstops.symm.trans hread) nofun
    | cons first records =>
      obtain ⟨hfirst, hwithin⟩ := List.forall_mem_cons.mp hrecords
      have hsent : read_record (concatenation (first :: records) ++ rest) =
          .ok (first.1, first.2, concatenation records ++ rest) := by
        rw [concatenation_cons, List.append_assoc]
        exact read_record_record hfirst _
      rw [hsame, hread] at hsent
      simp only [Except.ok.injEq, Prod.mk.injEq] at hsent
      obtain ⟨hkey, hvalue, hleft⟩ := hsent
      obtain rfl : other = first := Prod.ext hkey hvalue
      exact List.cons_prefix_cons.mpr ⟨rfl, ih hwithin hlater hleft.symm⟩

/-- Whatever the standard input is and however it is handed out, the frames written are
those of the longest run of complete records of at most the limit at its front; the exit
code is 0 when these are the whole input and 1 otherwise. -/
theorem execute_publish_raw_exact {σ : Type} (cin : Istream σ UInt8) (topic : Bytes) (s : σ) :
    (∃ records rest, cin.left s = concatenation records ++ rest ∧ Within records ∧
      (∀ others tail, cin.left s = concatenation others ++ tail → Within others → others <+: records) ∧
      (Stdin.execute_publish_raw cin topic s).1 =
        records.map fun pair => Request.serialize_produce topic pair.1 pair.2) ∧
    ((Stdin.execute_publish_raw cin topic s).2 = 0 ↔
      ∃ records, cin.left s = concatenation records ∧ Within records) ∧
    ((Stdin.execute_publish_raw cin topic s).2 = 0 ∨ (Stdin.execute_publish_raw cin topic s).2 = 1) := by
  rw [Stdin.execute_publish_raw_eq]
  generalize cin.left s = input
  obtain ⟨records, rest, hsplit, hwithin, hstops, hresult⟩ := execute_publish_raw_records topic input
  rw [hresult]
  refine ⟨⟨records, rest, hsplit, hwithin, ?_, rfl⟩, ?_, ?_⟩
  · intro others tail hsame hothers
    exact records_longest hwithin hothers hstops (hsplit.symm.trans hsame)
  · constructor
    · intro hzero
      have hrest : rest = [] := by
        by_contra hrest
        rw [if_neg hrest] at hzero
        cases hzero
      exact ⟨records, by rw [hsplit, hrest, List.append_nil], hwithin⟩
    · rintro ⟨others, hwhole, hothers⟩
      have hbegins := records_longest hwithin hothers hstops
        (hsplit.symm.trans (hwhole.trans (List.append_nil _).symm))
      obtain ⟨later, rfl⟩ := hbegins
      have hlength := congrArg List.length (hsplit.symm.trans hwhole)
      rw [concatenation_append, List.length_append, List.length_append] at hlength
      exact if_pos (List.length_eq_zero_iff.mp (by omega))
  · by_cases hrest : rest = []
    · exact .inl (if_pos hrest)
    · exact .inr (if_neg hrest)

end treenity.client

import Treenity.Client.Command

open treenity.protocol

namespace treenity.client

/-- `std::getline` on what is left of the input: the line and what follows its end. -/
def getline (input : Bytes) : Option (Bytes × Bytes) :=
  if input.isEmpty then none
  else some (input.takeWhile (· != 10), (input.dropWhile (· != 10)).drop 1)

theorem getline_shorter {input line rest : Bytes} (hline : getline input = some (line, rest)) :
    rest.length < input.length := by
  unfold getline at hline
  split at hline
  · cases hline
  · rename_i hempty
    obtain ⟨_, rfl⟩ := Prod.mk.inj (Option.some.inj hline)
    have hdropped := (List.dropWhile_suffix (l := input) (· != 10)).length_le
    have hpos : 0 < input.length := List.length_pos_iff.mpr (by simpa using hempty)
    rw [List.length_drop]
    omega

/-- The two `substr` calls around the first colon, if there is one. -/
def split_text (line : Bytes) : Option (Bytes × Bytes) :=
  match line.dropWhile (· != 58) with
  | [] => none
  | _ :: value => some (line.takeWhile (· != 58), value)

/-- The check both modes make before they serialise a message. -/
def exceeds_limit (key value : Bytes) : Bool :=
  key.length > MAX_PAYLOAD_SIZE || value.length > MAX_PAYLOAD_SIZE - key.length

/-- The frames that are written for the input, and the exit code. -/
def execute_publish_text (topic : Bytes) (input : Bytes) : List Bytes × Nat :=
  match _hline : getline input with
  | none => ([], 0)
  | some (line, rest) =>
    match split_text line with
    | none => ([], 1)
    | some (key, value) =>
      if exceeds_limit key value then ([], 1)
      else
        let (frames, code) := execute_publish_text topic rest
        (Request.serialize_produce topic key value :: frames, code)
termination_by input.length
decreasing_by exact getline_shorter _hline

inductive IntegerReadStatus where
  | Ok (number : UInt32) (rest : Bytes)
  | EndOfFile
  | Partial

/-- The client spells out the shifts of `read_uint32_le`. -/
def read_little_endian_int32 (input : Bytes) : IntegerReadStatus :=
  if input.isEmpty then .EndOfFile
  else if input.length < 4 then .Partial
  else .Ok (read_uint32_le input) (input.drop 4)

/-- `read_exact` on the standard input. -/
def read_exact (size : Nat) (input : Bytes) : Option (Bytes × Bytes) :=
  if input.length < size then none else some (input.take size, input.drop size)

/-- One record of the raw input: the message and what follows it, or the exit code. -/
def read_record (input : Bytes) : Except Nat (Bytes × Bytes × Bytes) :=
  match read_little_endian_int32 input with
  | .EndOfFile => .error 0
  | .Partial => .error 1
  | .Ok key_size rest =>
    if key_size.toNat > MAX_PAYLOAD_SIZE then .error 1
    else
      match read_exact key_size.toNat rest with
      | none => .error 1
      | some (key, rest) =>
        match read_little_endian_int32 rest with
        | .Ok val_size rest =>
          if val_size.toNat > MAX_PAYLOAD_SIZE - key_size.toNat then .error 1
          else
            match read_exact val_size.toNat rest with
            | none => .error 1
            | some (value, rest) => .ok (key, value, rest)
        | _ => .error 1

/-- A record is shorter than the input it is read from and keeps to the limit. -/
theorem read_record_ok {input key value rest : Bytes} (hread : read_record input = .ok (key, value, rest)) :
    rest.length < input.length ∧ key.length + value.length ≤ MAX_PAYLOAD_SIZE := by
  unfold read_record read_little_endian_int32 read_exact at hread
  by_cases hempty : input.isEmpty
  · simp [hempty] at hread
  by_cases hshort : input.length < 4
  · simp [hempty, hshort] at hread
  simp only [hempty, hshort, Bool.false_eq_true, if_false] at hread
  split at hread
  · cases hread
  rename_i hkey
  split at hread
  · cases hread
  rename_i key' left heq
  split at heq
  · cases heq
  obtain ⟨rfl, rfl⟩ := Prod.mk.inj (Option.some.inj heq)
  split at hread
  · rename_i number tail hsize
    split at hread
    · cases hread
    rename_i hvalue
    split at hread
    · cases hread
    rename_i value' end' heq'
    split at heq'
    · cases heq'
    obtain ⟨rfl, rfl⟩ := Prod.mk.inj (Option.some.inj heq')
    cases hread
    split at hsize
    · cases hsize
    split at hsize
    · cases hsize
    cases hsize
    simp only [List.length_drop, List.length_take] at *
    omega
  · cases hread

def execute_publish_raw (topic : Bytes) (input : Bytes) : List Bytes × Nat :=
  match _hread : read_record input with
  | .error code => ([], code)
  | .ok (key, value, rest) =>
    let (frames, code) := execute_publish_raw topic rest
    (Request.serialize_produce topic key value :: frames, code)
termination_by input.length
decreasing_by exact (read_record_ok _hread).1

/-- A frame for one message of the topic that keeps to the limit. -/
def Produces (topic frame : Bytes) : Prop :=
  ∃ key value, frame = Request.serialize_produce topic key value ∧ key.length + value.length ≤ MAX_PAYLOAD_SIZE

theorem execute_publish_text_produces {topic input : Bytes} :
    ∀ frame ∈ (execute_publish_text topic input).1, Produces topic frame := by
  fun_induction execute_publish_text topic input with
  | case1 => simp
  | case2 => simp
  | case3 => simp
  | case4 input line rest hline key value hsplit hfits frames code hrest ih =>
    rw [hrest] at ih
    refine List.forall_mem_cons.mpr ⟨⟨key, value, rfl, ?_⟩, ih⟩
    simp only [exceeds_limit, Bool.or_eq_true, decide_eq_true_eq, not_or] at hfits
    omega

theorem execute_publish_raw_produces {topic input : Bytes} :
    ∀ frame ∈ (execute_publish_raw topic input).1, Produces topic frame := by
  fun_induction execute_publish_raw topic input with
  | case1 => simp
  | case2 input key value rest hread frames code hrest ih =>
    rw [hrest] at ih
    exact List.forall_mem_cons.mpr ⟨⟨key, value, rfl, (read_record_ok hread).2⟩, ih⟩

end treenity.client

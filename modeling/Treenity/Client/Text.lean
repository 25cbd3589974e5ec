import Mathlib.Data.List.TakeWhile
import Treenity.Client.Receive
import Treenity.Client.Sends

open treenity.protocol treenity.server

namespace treenity.client

/-- What a text subscriber prints for a message. -/
def format_text_message (message : Message) : Bytes := message.key ++ [58] ++ message.value ++ [10]

def can_encode_size (size : Nat) : Bool := size ≤ 2147483647

/-- What a raw subscriber prints for a message; `none` is the result `false`. -/
def write_raw_message (offset : UInt32) (message : Message) : Option Bytes :=
  if !can_encode_size message.key.length || !can_encode_size message.value.length then none
  else
    some (le32 offset ++ le32 (to_uint32 message.key.length) ++ message.key ++
      le32 (to_uint32 message.value.length) ++ message.value)

/-- A record of the raw input. -/
def record (key value : Bytes) : Bytes :=
  le32 (to_uint32 key.length) ++ key ++ le32 (to_uint32 value.length) ++ value

/-- The lines of the input, as `getline` finds them. -/
def lines (input : Bytes) : List Bytes :=
  match _hline : getline input with
  | none => []
  | some (line, rest) => line :: lines rest
termination_by input.length
decreasing_by exact getline_shorter _hline

/-- The part of a line before its first colon. -/
def line_key (line : Bytes) : Bytes := line.takeWhile (· != 58)

/-- A line that makes a message: it has a colon, and the rest of it is within the limit. -/
def line_fits (line : Bytes) : Bool := line.contains 58 && line.length ≤ MAX_PAYLOAD_SIZE + 1

/-- The messages of a text that the producer gets to check and that pass. -/
def text_messages (input : Bytes) : List (Bytes × Bytes) := ((lines input).takeWhile line_fits).filterMap split_text

/-- The records of a raw input that the producer gets to check and that pass. -/
def raw_messages (input : Bytes) : List (Bytes × Bytes) :=
  match _hread : read_record input with
  | .error _ => []
  | .ok (key, value, rest) => (key, value) :: raw_messages rest
termination_by input.length
decreasing_by exact (read_record_ok _hread).1

def checked_messages (raw : Bool) (input : Bytes) : List (Bytes × Bytes) :=
  if raw then raw_messages input else text_messages input

/-- A line is cut at its first colon, if it has one. -/
theorem split_text_cases (line : Bytes) :
    58 ∉ line ∧ split_text line = none ∨
      ∃ value, line = line_key line ++ [58] ++ value ∧ split_text line = some (line_key line, value) := by
  have hwhole := List.takeWhile_append_dropWhile (p := (· != (58 : UInt8))) (l := line)
  unfold split_text
  split
  · rename_i hnil
    refine .inl ⟨fun hmem => ?_, rfl⟩
    have hcolon := List.dropWhile_eq_nil_iff.mp hnil 58 hmem
    simp at hcolon
  · rename_i ch value hcons
    have hcolon : ch = 58 := by
      have hhead := List.head?_dropWhile_not (· != (58 : UInt8)) line
      rw [hcons] at hhead
      simpa using hhead
    refine .inr ⟨value, ?_, rfl⟩
    rw [List.append_assoc, List.singleton_append, ← hcolon, ← hcons]
    exact hwhole.symm

theorem split_text_some {line key value : Bytes} (hsplit : split_text line = some (key, value)) :
    key = line_key line ∧ line = key ++ [58] ++ value := by
  rcases split_text_cases line with ⟨_, hnone⟩ | ⟨found, hline, hsome⟩
  · rw [hsplit] at hnone
    cases hnone
  · rw [hsplit] at hsome
    obtain ⟨rfl, rfl⟩ := Prod.mk.inj (Option.some.inj hsome)
    exact ⟨rfl, hline⟩

/-- The check of the producer on the two parts of a line. -/
theorem line_fits_iff (line : Bytes) :
    line_fits line = true ↔ ∃ key value, split_text line = some (key, value) ∧ exceeds_limit key value = false := by
  rw [line_fits, Bool.and_eq_true, List.contains_iff_mem, decide_eq_true_eq]
  rcases split_text_cases line with ⟨hcolon, hnone⟩ | ⟨value, hline, hsome⟩
  · simp [hcolon, hnone]
  · have hmem : 58 ∈ line := by
      rw [hline]
      simp
    have hlength := congrArg List.length hline
    simp only [List.length_append, List.length_singleton] at hlength
    simp only [hsome, exceeds_limit, Option.some.injEq, Prod.mk.injEq, Bool.or_eq_false_iff, decide_eq_false_iff_not]
    constructor
    · rintro ⟨_, hlimit⟩
      exact ⟨line_key line, value, ⟨rfl, rfl⟩, by omega, by omega⟩
    · rintro ⟨_, _, ⟨rfl, rfl⟩, _, _⟩
      exact ⟨hmem, by omega⟩

theorem lines_cons {input line rest : Bytes} (hline : getline input = some (line, rest)) :
    lines input = line :: lines rest := by
  rw [lines]
  split
  · rename_i hnone
    rw [hline] at hnone
    cases hnone
  · rename_i hsome
    rw [hline] at hsome
    obtain ⟨rfl, rfl⟩ := Prod.mk.inj (Option.some.inj hsome)
    rfl

theorem lines_nil {input : Bytes} (hline : getline input = none) : lines input = [] := by
  rw [lines]
  split
  · rfl
  · rename_i hsome
    rw [hline] at hsome
    cases hsome

/-- The producer writes a frame for each line up to the first that makes no message. -/
theorem execute_publish_text_eq (topic input : Bytes) :
    execute_publish_text topic input =
      ((text_messages input).map (fun pair => Request.serialize_produce topic pair.1 pair.2),
        if (lines input).all line_fits then 0 else 1) := by
  fun_induction execute_publish_text topic input with
  | case1 input hline => simp [text_messages, lines_nil hline]
  | case2 input line rest hline hsplit =>
    have hunfit : line_fits line = false := by
      rw [← Bool.not_eq_true, line_fits_iff]
      simp [hsplit]
    simp [text_messages, lines_cons hline, hunfit]
  | case3 input line rest hline key value hsplit hexceeds =>
    have hunfit : line_fits line = false := by
      rw [← Bool.not_eq_true, line_fits_iff]
      simp [hsplit, hexceeds]
    simp [text_messages, lines_cons hline, hunfit]
  | case4 input line rest hline key value hsplit hlimit frames code hrest ih =>
    have hfits : line_fits line = true := (line_fits_iff line).mpr ⟨key, value, hsplit, by simpa using hlimit⟩
    rw [hrest] at ih
    obtain ⟨rfl, rfl⟩ := Prod.mk.inj ih
    simp [text_messages, lines_cons hline, hfits, hsplit]

theorem execute_publish_raw_eq (topic input : Bytes) :
    (execute_publish_raw topic input).1 =
      (raw_messages input).map (fun pair => Request.serialize_produce topic pair.1 pair.2) := by
  fun_induction execute_publish_raw topic input with
  | case1 input code hread =>
    rw [raw_messages]
    split
    · rfl
    · rename_i hok
      rw [hread] at hok
      cases hok
  | case2 input key value rest hread frames code hrest ih =>
    rw [hrest] at ih
    dsimp only at ih ⊢
    rw [raw_messages]
    split
    · rename_i herror
      rw [hread] at herror
      cases herror
    · rename_i hok
      rw [hread] at hok
      cases hok
      rw [ih, List.map_cons]

/-- What passes the check keeps to the limit. -/
theorem checked_messages_limit {raw : Bool} {input key value : Bytes}
    (hchecked : (key, value) ∈ checked_messages raw input) : key.length + value.length ≤ MAX_PAYLOAD_SIZE := by
  unfold checked_messages at hchecked
  split at hchecked
  · fun_induction raw_messages input with
    | case1 => cases hchecked
    | case2 input first second rest hread ih =>
      rcases List.mem_cons.mp hchecked with heq | hrest
      · obtain ⟨rfl, rfl⟩ := Prod.mk.inj heq
        exact (read_record_ok hread).2
      · exact ih hrest
  · obtain ⟨line, hline, hsplit⟩ := List.mem_filterMap.mp hchecked
    obtain ⟨_, _, hsame, hlimit⟩ := (line_fits_iff line).mp (List.mem_takeWhile_imp hline)
    rw [hsplit] at hsame
    obtain ⟨rfl, rfl⟩ := Prod.mk.inj (Option.some.inj hsame)
    simp only [exceeds_limit, Bool.or_eq_false_iff, decide_eq_false_iff_not] at hlimit
    omega

/-- The raw producer reads a record as the message it was made of. -/
theorem read_record_record {key value : Bytes} (hlimit : key.length + value.length ≤ MAX_PAYLOAD_SIZE) (rest : Bytes) :
    read_record (record key value ++ rest) = .ok (key, value, rest) := by
  have hlimit : key.length + value.length ≤ 1024 := hlimit
  have hkey : (to_uint32 key.length).toNat = key.length := to_uint32_toNat (by omega)
  have hvalue : (to_uint32 value.length).toNat = value.length := to_uint32_toNat (by omega)
  have hint : ∀ (number : UInt32) (rest : Bytes),
      read_little_endian_int32 (le32 number ++ rest) = .Ok number rest := by
    intro number rest
    rw [read_little_endian_int32, if_neg (by simp [List.isEmpty_iff, ← List.length_eq_zero_iff]),
      if_neg (by simp), read_le32_append, List.drop_left' (le32_length number)]
  have hexact : ∀ (found rest : Bytes), read_exact found.length (found ++ rest) = some (found, rest) := by
    intro found rest
    rw [read_exact, if_neg (by simp), List.take_left, List.drop_left]
  rw [read_record, record]
  simp only [List.append_assoc, hint, hkey, hvalue, hexact]
  rw [if_neg (by simp only [MAX_PAYLOAD_SIZE]; omega), if_neg (by simp only [MAX_PAYLOAD_SIZE]; omega)]

end treenity.client

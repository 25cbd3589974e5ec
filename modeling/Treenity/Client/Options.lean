import Treenity.Client.Subscriber
import Treenity.Foundation.Positional

open treenity.protocol treenity.ipc treenity.foundation

namespace treenity.client

/-- The value of a numeral, most significant digit first. -/
def decimal (numeral : Bytes) : Nat := numeral.foldl (fun number c => number * 10 + (c.toNat - 48)) 0

/-- The argument that belongs to `--offset`, if there is one. The arguments of other options
are passed over, whatever they look like. -/
def offset_argument : List Bytes → Option Bytes
  | [] => none
  | option :: rest =>
    match subscribe_option option, rest with
    | some .raw, rest => offset_argument rest
    | some .pref, _ :: rest => offset_argument rest
    | some .offset, value :: _ => some value
    | _, _ => none

/-- The options of a subscribe command follow the names of the topic and the subscriber. -/
def options_of (argv : List Bytes) : List Bytes := argv.drop 5

/-- `std::isdigit`, which depends on no locale. -/
def isdigit (character : UInt8) : Bool := 48 ≤ character && character ≤ 57

def digit (character : UInt8) : Nat := character.toNat - 48

/-- The loop reads a number of base ten that is limited to 32 bits. -/
theorem parse_digits_eq (number : Nat) (numeral : Bytes) :
    parse_digits number numeral = (read_number isdigit digit 10 4294967295 number numeral).map to_uint32 := by
  induction numeral generalizing number with
  | nil => rfl
  | cons c rest ih =>
    rw [parse_digits, read_number]
    by_cases hdigit : isdigit c = true
    · rw [if_pos hdigit]
      refine (if_pos hdigit).trans ?_
      by_cases hover : number * 10 + digit c > 4294967295
      · rw [if_pos hover]
        exact if_pos hover
      · rw [if_neg hover, ← ih]
        exact if_neg hover
    · rw [if_neg hdigit]
      exact if_neg hdigit

theorem decimal_eq_horner (numeral : Bytes) : decimal numeral = horner 10 0 (numeral.map digit) :=
  List.foldl_map.symm

/-- The loop reads on from the digits before, and gives up past 32 bits. -/
theorem parse_digits_iff {number : Nat} (hnumber : number ≤ 4294967295) (numeral : Bytes) (offset : UInt32) :
    parse_digits number numeral = some offset ↔
      (∀ c ∈ numeral, isdigit c = true) ∧ horner 10 number (numeral.map digit) ≤ 4294967295 ∧
        offset = to_uint32 (horner 10 number (numeral.map digit)) := by
  rw [parse_digits_eq, Option.map_eq_some_iff]
  constructor
  · rintro ⟨result, hread, rfl⟩
    obtain ⟨hdigits, hfits, rfl⟩ := (read_number_eq_some_iff (by decide) hnumber numeral result).mp hread
    exact ⟨hdigits, hfits, rfl⟩
  · rintro ⟨hdigits, hfits, rfl⟩
    exact ⟨_, (read_number_eq_some_iff (by decide) hnumber numeral _).mpr ⟨hdigits, hfits, rfl⟩, rfl⟩

theorem parse_offset_value {numeral : Bytes} {offset : UInt32} (hparse : parse_offset numeral = some offset) :
    offset.toNat = decimal numeral := by
  unfold parse_offset at hparse
  split at hparse
  · cases hparse
  · obtain ⟨_, hfits, rfl⟩ := (parse_digits_iff (Nat.zero_le _) numeral offset).mp hparse
    rw [decimal_eq_horner]
    exact to_uint32_toNat (by omega)

/-- What the options that are accepted say about the offset: it is the value of the argument of
`--offset`, which comes once, or as it was. -/
theorem parse_options_offset {command result : Command} {prefix_seen offset_seen : Bool} {options : List Bytes}
    (hparse : parse_options command prefix_seen offset_seen options = .ok result) :
    (offset_argument options = none ∧ result.has_offset = command.has_offset ∧ result.offset = command.offset) ∨
      ∃ value, offset_argument options = some value ∧ offset_seen = false ∧ result.has_offset = true ∧
        parse_offset value = some result.offset := by
  fun_induction parse_options command prefix_seen offset_seen options with
  | case1 =>
    cases hparse
    exact .inl ⟨rfl, rfl, rfl⟩
  | case3 _ _ _ _ _ hoption _ ih =>
    simp only [offset_argument, hoption]
    exact ih hparse
  | case4 _ _ _ hoption _ _ ih =>
    simp only [offset_argument, hoption]
    exact ih hparse
  | case6 _ _ _ hoption value _ offset hvalue ih =>
    simp only [offset_argument, hoption]
    rcases ih hparse with ⟨_, hgiven, hoffset⟩ | ⟨_, _, hagain, _⟩
    · exact .inr ⟨value, rfl, trivial, hgiven, hoffset ▸ hvalue⟩
    · cases hagain
  | _ => cases hparse

/-- The prefix is one of the arguments, if it is given. -/
theorem parse_options_pref {command result : Command} {prefix_seen offset_seen : Bool} {options : List Bytes}
    (hparse : parse_options command prefix_seen offset_seen options = .ok result) :
    result.pref = command.pref ∨ result.pref ∈ options := by
  fun_induction parse_options command prefix_seen offset_seen options with
  | case1 =>
    cases hparse
    exact .inl rfl
  | case3 _ _ _ _ _ _ _ ih => exact (ih hparse).imp_right (List.mem_cons_of_mem _)
  | case4 _ _ _ _ value _ ih =>
    rcases ih hparse with hsame | hlater
    · exact .inr (List.mem_cons_of_mem _ (hsame ▸ List.mem_cons_self))
    · exact .inr (List.mem_cons_of_mem _ (List.mem_cons_of_mem _ hlater))
  | case6 _ _ _ _ _ _ _ _ ih =>
    exact (ih hparse).imp_right fun hlater => List.mem_cons_of_mem _ (List.mem_cons_of_mem _ hlater)
  | _ => cases hparse

/-- A subscribe command comes from the loop over its options, which starts without any. -/
theorem parse_command_subscribe {argv : List Bytes} {command : Command} (hparse : parse_command argv = .ok command)
    (htype : command.type = .SUBSCRIBE) :
    ∃ start, start.has_offset = false ∧ start.pref = [] ∧
      parse_options start false false (options_of argv) = .ok command := by
  cases parse_command_parsed hparse with
  | subscribe hargv hsubscribe =>
    subst hargv
    unfold parse_subscribe at hsubscribe
    split at hsubscribe
    · dsimp only at hsubscribe
      split at hsubscribe
      · cases hsubscribe
      split at hsubscribe
      · cases hsubscribe
      · exact ⟨_, rfl, rfl, hsubscribe⟩
    · cases hsubscribe
  | _ => cases htype

/-- A command line that makes a subscriber. The kernel limits the length of an argument to
far less than this. -/
structure Invocation where
  argv : List Bytes
  command : Command
  parsed : parse_command argv = .ok command
  subscribes : command.type = .SUBSCRIBE
  short : ∀ arg ∈ argv, arg.length < 2 ^ 31

namespace Invocation

theorem pref_length (self : Invocation) : self.command.pref.length < 2 ^ 31 := by
  obtain ⟨start, _, hpref, hoptions⟩ := parse_command_subscribe self.parsed self.subscribes
  rcases parse_options_pref hoptions with hsame | hgiven
  · rw [hsame, hpref]
    decide
  · exact self.short _ (List.mem_of_mem_drop hgiven)

/-- The SUBSCRIBE request of the process. -/
def request (self : Invocation) (client_pid : UInt32) : Request.Subscribe := subscribe_request client_pid self.command

/-- The number after `--offset`, if there is one. -/
def given (self : Invocation) : Option Nat := (offset_argument (options_of self.argv)).map decimal

/-- The command has the number that was given. -/
theorem offset_eq (self : Invocation) :
    (self.given = none ∧ self.command.has_offset = false) ∨
      (self.given = some self.command.offset.toNat ∧ self.command.has_offset = true) := by
  obtain ⟨start, hnone, _, hoptions⟩ := parse_command_subscribe self.parsed self.subscribes
  rcases parse_options_offset hoptions with ⟨hargument, hflag, _⟩ | ⟨value, hargument, _, hflag, hvalue⟩
  · exact .inl ⟨by rw [given, hargument, Option.map_none], hflag.trans hnone⟩
  · exact .inr ⟨by rw [given, hargument, Option.map_some, parse_offset_value hvalue], hflag⟩

end Invocation

end treenity.client

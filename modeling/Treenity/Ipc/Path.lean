import Treenity.Protocol.Wire

open treenity.protocol

namespace treenity.ipc

/-- The bytes of a string literal of the source. -/
def ascii (text : String) : Bytes := text.toList.map (fun c => c.toNat.toUInt8)

/-- `std::to_string` of an unsigned number. -/
def to_string (number : UInt32) : Bytes :=
  (Nat.toDigits 10 number.toNat).map (fun c => c.toNat.toUInt8)

/-- The FIFO of a client. The server writes the same path out in `send_response` and
in `handle_subscriber_connect`. -/
def client_fifo_path (client_pid : UInt32) : Bytes :=
  ascii "/tmp/treenity.client." ++ to_string client_pid

private theorem digit_round_trip {c : Char} (hc : c.isDigit = true) :
    Char.ofNat c.toNat.toUInt8.toNat = c := by
  rw [Char.isDigit, Bool.and_eq_true, decide_eq_true_eq, decide_eq_true_eq] at hc
  have hle : c.toNat ≤ 57 := hc.2
  have hbyte : c.toNat.toUInt8.toNat = c.toNat := UInt8.toNat_ofNat_of_lt' (Nat.lt_of_le_of_lt hle (by decide))
  rw [hbyte, Char.ofNat_toNat]

theorem to_string_injective : Function.Injective to_string := by
  intro a b hstring
  have hchars : ∀ n, (to_string n).map (fun byte => Char.ofNat byte.toNat) = Nat.toDigits 10 n.toNat := by
    intro n
    rw [to_string, List.map_map]
    refine (List.map_congr_left (fun c hc => ?_)).trans (List.map_id _)
    exact digit_round_trip (Nat.isDigit_of_mem_toDigits (by decide) (by decide) hc)
  have hdigits : Nat.toDigits 10 a.toNat = Nat.toDigits 10 b.toNat := by
    rw [← hchars a, ← hchars b, hstring]
  have hnat := congrArg (fun digits => Nat.ofDigitChars 10 digits 0) hdigits
  simp only [Nat.ofDigitChars_ten_toDigits] at hnat
  exact UInt32.toNat_inj.mp hnat

theorem to_string_ne_nil (number : UInt32) : to_string number ≠ [] := by
  simp [to_string, Nat.toDigits_ne_nil]

theorem to_string_digits (number : UInt32) : ∀ b ∈ to_string number, 48 ≤ b ∧ b ≤ 57 := by
  intro b hb
  obtain ⟨c, hc, rfl⟩ := List.mem_map.mp hb
  have hdigit := Nat.isDigit_of_mem_toDigits (by decide) (by decide) hc
  rw [Char.isDigit, Bool.and_eq_true, decide_eq_true_eq, decide_eq_true_eq] at hdigit
  have hge : 48 ≤ c.toNat := hdigit.1
  have hle : c.toNat ≤ 57 := hdigit.2
  have hbyte : c.toNat.toUInt8.toNat = c.toNat := UInt8.toNat_ofNat_of_lt' (Nat.lt_of_le_of_lt hle (by decide))
  rw [UInt8.le_iff_toNat_le, UInt8.le_iff_toNat_le, hbyte]
  exact ⟨hge, hle⟩

private theorem toDigits_head_zero (n : Nat) (hhead : (Nat.toDigits 10 n).head? = some '0') : n = 0 := by
  induction n using Nat.strongRecOn with
  | ind n ih =>
    rw [Nat.toDigits_eq_if (by decide)] at hhead
    split at hhead
    · rename_i hlt
      have hdigit : ∀ n < 10, n.digitChar = '0' → n = 0 := by decide
      exact hdigit n hlt (Option.some.inj hhead)
    · have hfirst : (Nat.toDigits 10 (n / 10)).head? = some '0' := by
        cases hdigits : Nat.toDigits 10 (n / 10) with
        | nil => exact absurd hdigits Nat.toDigits_ne_nil
        | cons c digits =>
          rw [hdigits] at hhead
          exact hhead
      have hzero := ih (n / 10) (by omega) hfirst
      omega

/-- Only zero starts with a zero. -/
theorem to_string_head_zero {number : UInt32} (hhead : (to_string number).head? = some 48) :
    to_string number = [48] := by
  rw [to_string, List.head?_map, Option.map_eq_some_iff] at hhead
  obtain ⟨c, hc, hbyte⟩ := hhead
  have hdigit := Nat.isDigit_of_mem_toDigits (by decide) (by decide) (List.mem_of_head? hc)
  have hround := digit_round_trip hdigit
  rw [hbyte] at hround
  have hnumber : number.toNat = 0 := toDigits_head_zero _ (by rw [hc, ← hround]; rfl)
  rw [to_string, hnumber]
  rfl

/-- Different processes have different FIFOs. -/
theorem client_fifo_path_injective : Function.Injective client_fifo_path :=
  fun _ _ hpath => to_string_injective (List.append_cancel_left hpath)

end treenity.ipc

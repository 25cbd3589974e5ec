import Mathlib.Data.List.TakeWhile

namespace treenity.foundation

/-- What a JSON text says. A string is the UTF-8 bytes it stands for, a number is kept as it
is written. -/
inductive Json where
  | null
  | bool (value : Bool)
  | number (text : List UInt8)
  | string (text : List UInt8)
  | array (elements : List Json)
  | object (members : List (List UInt8 × Json))

namespace Json

def is_tail (b : UInt8) : Bool := 0x80 ≤ b && b ≤ 0xBF

/-- The UTF-8 form of a character: the shortest one, of no surrogate, up to U+10FFFF. -/
def is_utf8_char : List UInt8 → Bool
  | [a] => a ≤ 0x7F
  | [a, b] => 0xC2 ≤ a && a ≤ 0xDF && is_tail b
  | [a, b, c] =>
    (a == 0xE0 && 0xA0 ≤ b && b ≤ 0xBF || 0xE1 ≤ a && a ≤ 0xEC && is_tail b ||
      a == 0xED && 0x80 ≤ b && b ≤ 0x9F || 0xEE ≤ a && a ≤ 0xEF && is_tail b) && is_tail c
  | [a, b, c, d] =>
    (a == 0xF0 && 0x90 ≤ b && b ≤ 0xBF || 0xF1 ≤ a && a ≤ 0xF3 && is_tail b ||
      a == 0xF4 && 0x80 ≤ b && b ≤ 0x8F) && is_tail c && is_tail d
  | _ => false

/-- A character that may stand in a string as it is: no quotation mark, no backslash and no
control character. -/
def unescaped (char : List UInt8) : Bool :=
  is_utf8_char char && char.all (fun b => 0x20 ≤ b && b != 34 && b != 92)

/-- Characters that may all stand in a string as they are. -/
inductive Plain : List UInt8 → Prop
  | nil : Plain []
  | cons {char rest : List UInt8} (hchar : unescaped char = true) (hrest : Plain rest) : Plain (char ++ rest)

def read_unescaped (text : List UInt8) : Option (List UInt8 × List UInt8) :=
  ([1, 2, 3, 4].find? (fun size => unescaped (text.take size))).map (fun size => (text.take size, text.drop size))

def hex_digit (b : UInt8) : Option Nat :=
  if 48 ≤ b && b ≤ 57 then some (b.toNat - 48)
  else if 65 ≤ b && b ≤ 70 then some (b.toNat - 55)
  else if 97 ≤ b && b ≤ 102 then some (b.toNat - 87)
  else none

def read_hex4 : List UInt8 → Option (Nat × List UInt8)
  | a :: b :: c :: d :: rest => do
    let a ← hex_digit a
    let b ← hex_digit b
    let c ← hex_digit c
    let d ← hex_digit d
    return (((a * 16 + b) * 16 + c) * 16 + d, rest)
  | _ => none

/-- The bytes of a code point; a surrogate keeps three of its own. -/
def utf8_bytes (code : Nat) : List UInt8 :=
  if code < 0x80 then [code.toUInt8]
  else if code < 0x800 then [(0xC0 + code / 64).toUInt8, (0x80 + code % 64).toUInt8]
  else if code < 0x10000 then
    [(0xE0 + code / 4096).toUInt8, (0x80 + code / 64 % 64).toUInt8, (0x80 + code % 64).toUInt8]
  else
    [(0xF0 + code / 262144).toUInt8, (0x80 + code / 4096 % 64).toUInt8, (0x80 + code / 64 % 64).toUInt8,
      (0x80 + code % 64).toUInt8]

/-- The second half of a surrogate pair, if one follows. -/
def read_low_surrogate : List UInt8 → Option (Nat × List UInt8)
  | 92 :: 117 :: rest =>
    match read_hex4 rest with
    | some (low, rest) => if 0xDC00 ≤ low && low ≤ 0xDFFF then some (low - 0xDC00, rest) else none
    | none => none
  | _ => none

/-- What `\u` and what follows it stand for. -/
def read_unicode (text : List UInt8) : Option (List UInt8 × List UInt8) :=
  match read_hex4 text with
  | none => none
  | some (code, rest) =>
    match (if 0xD800 ≤ code && code ≤ 0xDBFF then read_low_surrogate rest else none) with
    | some (low, rest) => some (utf8_bytes (0x10000 + (code - 0xD800) * 1024 + low), rest)
    | none => some (utf8_bytes code, rest)

/-- What stands after a backslash. -/
def read_escape : List UInt8 → Option (List UInt8 × List UInt8)
  | [] => none
  | b :: rest =>
    if b = 117 then read_unicode rest
    else
      (([(34, 34), (92, 92), (47, 47), (98, 8), (102, 12), (110, 10), (114, 13), (116, 9)] :
        List (UInt8 × UInt8)).lookup b).map (fun char => ([char], rest))

/-- The rest of a string, up to its closing quotation mark. -/
def read_chars : Nat → List UInt8 → Option (List UInt8 × List UInt8)
  | 0, _ => none
  | _ + 1, [] => none
  | fuel + 1, b :: rest =>
    if b = 34 then some ([], rest)
    else
      match (if b = 92 then read_escape rest else read_unescaped (b :: rest)) with
      | none => none
      | some (char, rest) => (read_chars fuel rest).map (fun read => (char ++ read.1, read.2))

def is_digit (b : UInt8) : Bool := 48 ≤ b && b ≤ 57

def read_digits (text : List UInt8) : Option (List UInt8 × List UInt8) :=
  if (text.takeWhile is_digit).isEmpty then none else some (text.takeWhile is_digit, text.dropWhile is_digit)

/-- A character that may be missing. -/
def read_optional (chars text : List UInt8) : List UInt8 × List UInt8 :=
  if chars.contains (text.headD 0) then (text.take 1, text.drop 1) else ([], text)

/-- The digits after a mark, if the mark is there. -/
def read_part (marks signs text : List UInt8) : Option (List UInt8 × List UInt8) :=
  if marks.contains (text.headD 0) then
    let (sign, rest) := read_optional signs (text.drop 1)
    (read_digits rest).map (fun read => (text.take 1 ++ sign ++ read.1, read.2))
  else some ([], text)

/-- The integer part has no leading zeros. -/
def read_int (text : List UInt8) : Option (List UInt8 × List UInt8) :=
  if text.headD 0 = 48 then some (text.take 1, text.drop 1) else read_digits text

def read_number (text : List UInt8) : Option (List UInt8 × List UInt8) := do
  let (sign, text) := read_optional [45] text
  let (int, text) ← read_int text
  let (frac, text) ← read_part [46] [] text
  let (exp, text) ← read_part [101, 69] [43, 45] text
  return (sign ++ int ++ frac ++ exp, text)

def skip_ws (text : List UInt8) : List UInt8 := text.dropWhile (fun b => b == 32 || b == 9 || b == 10 || b == 13)

def read_literal (text : List UInt8) : Option (Json × List UInt8) :=
  if [110, 117, 108, 108].isPrefixOf text then some (null, text.drop 4)
  else if [116, 114, 117, 101].isPrefixOf text then some (bool true, text.drop 4)
  else if [102, 97, 108, 115, 101].isPrefixOf text then some (bool false, text.drop 5)
  else (read_number text).map (fun read => (number read.1, read.2))

def read_string (text : List UInt8) : Option (List UInt8 × List UInt8) :=
  match text with
  | 34 :: rest => read_chars (rest.length + 1) rest
  | _ => none

mutual

/-- The grammar of JSON. The calls nest no deeper than the text is long. -/
def read_value : Nat → List UInt8 → Option (Json × List UInt8)
  | 0, _ => none
  | fuel + 1, text =>
    match skip_ws text with
    | 123 :: rest =>
      match skip_ws rest with
      | 125 :: rest => some (object [], rest)
      | _ => (read_members fuel rest).map (fun read => (object read.1, read.2))
    | 91 :: rest =>
      match skip_ws rest with
      | 93 :: rest => some (array [], rest)
      | _ => (read_elements fuel rest).map (fun read => (array read.1, read.2))
    | 34 :: rest => (read_string (34 :: rest)).map (fun read => (string read.1, read.2))
    | text => read_literal text

def read_members : Nat → List UInt8 → Option (List (List UInt8 × Json) × List UInt8)
  | 0, _ => none
  | fuel + 1, text =>
    match read_string (skip_ws text) with
    | none => none
    | some (name, rest) =>
      match skip_ws rest with
      | 58 :: rest =>
        match read_value fuel rest with
        | none => none
        | some (value, rest) =>
          match skip_ws rest with
          | 44 :: rest => (read_members fuel rest).map (fun read => ((name, value) :: read.1, read.2))
          | 125 :: rest => some ([(name, value)], rest)
          | _ => none
      | _ => none

def read_elements : Nat → List UInt8 → Option (List Json × List UInt8)
  | 0, _ => none
  | fuel + 1, text =>
    match read_value fuel text with
    | none => none
    | some (value, rest) =>
      match skip_ws rest with
      | 44 :: rest => (read_elements fuel rest).map (fun read => (value :: read.1, read.2))
      | 93 :: rest => some ([value], rest)
      | _ => none

end

/-- A text that is one value, with nothing but white space around it. -/
def read (text : List UInt8) : Option Json :=
  match read_value (text.length + 1) text with
  | some (value, rest) => if (skip_ws rest).isEmpty then some value else none
  | none => none

theorem unescaped_byte {char : List UInt8} (hchar : unescaped char = true) :
    ∀ b ∈ char, 0x20 ≤ b ∧ b ≠ 34 ∧ b ≠ 92 := by
  intro b hb
  rw [unescaped, Bool.and_eq_true, List.all_eq_true] at hchar
  have hall := hchar.2 b hb
  simpa [and_assoc] using hall

/-- How long a character is, by its first byte. -/
def utf8_size (a : UInt8) : Nat := if a ≤ 0x7F then 1 else if a ≤ 0xDF then 2 else if a ≤ 0xEF then 3 else 4

theorem utf8_size_eq {a : UInt8} {rest : List UInt8} (hchar : is_utf8_char (a :: rest) = true) :
    (a :: rest).length = utf8_size a := by
  unfold utf8_size
  match rest with
  | [] => grind [is_utf8_char]
  | [b] => grind [is_utf8_char]
  | [b, c] => grind [is_utf8_char]
  | [b, c, d] => grind [is_utf8_char]
  | _ :: _ :: _ :: _ :: _ => cases hchar

theorem utf8_size_mem (a : UInt8) : utf8_size a ∈ [1, 2, 3, 4] := by
  unfold utf8_size
  split_ifs <;> simp

/-- No character starts another. -/
theorem unescaped_take {char : List UInt8} (hchar : unescaped char = true) {size : Nat}
    (hsize : size < char.length) : unescaped (char.take size) = false := by
  rw [← Bool.not_eq_true]
  intro htake
  rw [unescaped, Bool.and_eq_true] at hchar htake
  cases char with
  | nil => cases hsize
  | cons a rest =>
    cases size with
    | zero => cases htake.1
    | succ size =>
      have hwhole := utf8_size_eq hchar.1
      have hpart := utf8_size_eq htake.1
      rw [← hwhole, List.length_cons, List.length_take] at hpart
      rw [List.length_cons] at hpart hsize
      omega

/-- A character that may stand as it is is read as that. -/
theorem read_unescaped_char {char : List UInt8} (hchar : unescaped char = true) (left : List UInt8) :
    read_unescaped (char ++ left) = some (char, left) := by
  have hmem : char.length ∈ [1, 2, 3, 4] := by
    rw [unescaped, Bool.and_eq_true] at hchar
    cases char with
    | nil => cases hchar.1
    | cons a rest =>
      rw [utf8_size_eq hchar.1]
      exact utf8_size_mem a
  have hfind : [1, 2, 3, 4].find? (fun size => unescaped ((char ++ left).take size)) = some char.length := by
    have hwhole : unescaped ((char ++ left).take char.length) = true := by rwa [List.take_left]
    have hpart : ∀ size, size < char.length → unescaped ((char ++ left).take size) = false := by
      intro size hsize
      rw [List.take_append_of_le_length (Nat.le_of_lt hsize)]
      exact unescaped_take hchar hsize
    simp only [List.mem_cons, List.not_mem_nil, or_false] at hmem
    rcases hmem with hsize | hsize | hsize | hsize <;> rw [hsize] at hwhole hpart ⊢ <;>
      simp [hwhole, hpart]
  rw [read_unescaped, hfind]
  simp

theorem read_unescaped_some {text char left : List UInt8} (hread : read_unescaped text = some (char, left)) :
    unescaped char = true ∧ text = char ++ left := by
  obtain ⟨size, hfind, heq⟩ := Option.map_eq_some_iff.mp hread
  obtain ⟨rfl, rfl⟩ := Prod.mk.inj heq
  have hchar := List.find?_some hfind
  exact ⟨hchar, (List.take_append_drop size text).symm⟩

/-- What is read up to a quotation mark, and without one, is of what stands before it. -/
theorem split_before {taken left start rest : List UInt8} (hsplit : start ++ 34 :: rest = taken ++ left)
    (htaken : 34 ∉ taken) : ∃ more, start = taken ++ more ∧ left = more ++ 34 :: rest := by
  rcases List.append_eq_append_iff.mp hsplit with ⟨more, htaken', hrest⟩ | ⟨more, hstart, hleft⟩
  · cases more with
    | nil => exact ⟨[], by simpa using htaken'.symm, by simpa using hrest.symm⟩
    | cons b more =>
      obtain ⟨rfl, _⟩ := List.cons.inj hrest
      rw [htaken'] at htaken
      simp at htaken
  · exact ⟨more, hstart, hleft⟩

theorem hex_digit_some {b : UInt8} {value : Nat} (hdigit : hex_digit b = some value) : b ≠ 34 := by
  rintro rfl
  cases hdigit

theorem read_hex4_some {text left : List UInt8} {code : Nat} (hread : read_hex4 text = some (code, left)) :
    ∃ digits, text = digits ++ left ∧ digits.length = 4 ∧ 34 ∉ digits := by
  match text with
  | [] => cases hread
  | [_] => cases hread
  | [_, _] => cases hread
  | [_, _, _] => cases hread
  | a :: b :: c :: d :: rest =>
    simp only [read_hex4, Option.bind_eq_bind, Option.bind_eq_some_iff] at hread
    obtain ⟨_, ha, _, hb, _, hc, _, hd, heq⟩ := hread
    cases heq
    refine ⟨[a, b, c, d], rfl, rfl, ?_⟩
    simp [(hex_digit_some ha).symm, (hex_digit_some hb).symm, (hex_digit_some hc).symm, (hex_digit_some hd).symm]

theorem utf8_bytes_length_le (code : Nat) : (utf8_bytes code).length ≤ 4 := by
  unfold utf8_bytes
  split_ifs <;> simp

theorem read_low_surrogate_some {text left : List UInt8} {code : Nat}
    (hread : read_low_surrogate text = some (code, left)) : ∃ taken, text = taken ++ left ∧ 34 ∉ taken := by
  unfold read_low_surrogate at hread
  split at hread
  · rename_i rest
    split at hread
    · rename_i low after hhex
      split at hread
      · obtain ⟨_, rfl⟩ := Prod.mk.inj (Option.some.inj hread)
        obtain ⟨digits, rfl, _, hquote⟩ := read_hex4_some hhex
        exact ⟨92 :: 117 :: digits, rfl, by simpa using hquote⟩
      · cases hread
    · cases hread
  · cases hread

theorem read_unicode_some {text char left : List UInt8} (hread : read_unicode text = some (char, left)) :
    ∃ taken, text = taken ++ left ∧ char.length ≤ taken.length ∧ 34 ∉ taken := by
  unfold read_unicode at hread
  split at hread
  · cases hread
  · rename_i code rest hhex
    obtain ⟨digits, rfl, hlength, hquote⟩ := read_hex4_some hhex
    split at hread
    · rename_i low after hlow
      cases hread
      split at hlow
      · obtain ⟨taken, rfl, hnone⟩ := read_low_surrogate_some hlow
        refine ⟨digits ++ taken, by rw [List.append_assoc], ?_, by simp [hquote, hnone]⟩
        have hbytes := utf8_bytes_length_le (0x10000 + (code - 0xD800) * 1024 + low)
        rw [List.length_append]
        omega
      · cases hlow
    · cases hread
      exact ⟨digits, rfl, by rw [hlength]; exact utf8_bytes_length_le code, hquote⟩

/-- An escape is of a text in quotation marks, unless its backslash was the last byte of that. -/
theorem read_escape_some {start rest char left : List UInt8} (hstart : start ≠ [])
    (hread : read_escape (start ++ 34 :: rest) = some (char, left)) :
    ∃ taken more, start = taken ++ more ∧ left = more ++ 34 :: rest ∧ char.length ≤ taken.length := by
  cases start with
  | nil => exact absurd rfl hstart
  | cons b start =>
    rw [List.cons_append, read_escape] at hread
    split at hread
    · obtain ⟨taken, hsplit, hlength, hquote⟩ := read_unicode_some hread
      obtain ⟨more, rfl, hleft⟩ := split_before hsplit hquote
      exact ⟨b :: taken, more, rfl, hleft, Nat.le_succ_of_le hlength⟩
    · obtain ⟨_, _, heq⟩ := Option.map_eq_some_iff.mp hread
      cases heq
      exact ⟨[b], start, rfl, rfl, Nat.le_refl 1⟩

/-- Plain characters up to a quotation mark are read as they are. -/
theorem read_chars_plain {text : List UInt8} (hplain : Plain text) {fuel : Nat} (hfuel : text.length < fuel)
    (left : List UInt8) : read_chars fuel (text ++ 34 :: left) = some (text, left) := by
  induction hplain generalizing fuel with
  | nil =>
    obtain ⟨fuel, rfl⟩ := Nat.exists_eq_succ_of_ne_zero (Nat.ne_of_gt hfuel)
    rw [List.nil_append, read_chars, if_pos rfl]
  | @cons char rest hchar hrest ih =>
    obtain ⟨fuel, rfl⟩ := Nat.exists_eq_succ_of_ne_zero (Nat.ne_of_gt (Nat.lt_of_le_of_lt (Nat.zero_le _) hfuel))
    cases char with
    | nil => cases hchar
    | cons b char =>
      obtain ⟨_, hquote, hbackslash⟩ := unescaped_byte hchar b List.mem_cons_self
      rw [List.append_assoc, List.cons_append, read_chars, if_neg hquote, if_neg hbackslash, ← List.cons_append,
        read_unescaped_char hchar]
      dsimp only
      rw [ih (by simp only [List.length_append, List.length_cons] at hfuel; omega)]
      rfl

/-- A character or an escape in a text in quotation marks. -/
theorem read_char_some {b : UInt8} {text rest char left : List UInt8} (hlast : ¬ (b = 92 ∧ text = []))
    (hread : (if b = 92 then read_escape (text ++ 34 :: rest) else read_unescaped (b :: (text ++ 34 :: rest))) =
      some (char, left)) :
    ∃ taken more, b :: text = taken ++ more ∧ left = more ++ 34 :: rest ∧
      (unescaped char = true ∧ char = taken ∨ char.length < taken.length) := by
  split at hread
  · rename_i hbackslash
    obtain ⟨taken, more, rfl, hleft, hlength⟩ := read_escape_some (fun hnil => hlast ⟨hbackslash, hnil⟩) hread
    exact ⟨b :: taken, more, rfl, hleft, .inr (Nat.lt_succ_of_le hlength)⟩
  · obtain ⟨hchar, hsplit⟩ := read_unescaped_some hread
    have hquote : 34 ∉ char := fun hmem => (unescaped_byte hchar 34 hmem).2.1 rfl
    rw [← List.cons_append] at hsplit
    obtain ⟨more, hstart, hleft⟩ := split_before hsplit hquote
    exact ⟨char, more, hstart, hleft, .inl ⟨hchar, rfl⟩⟩

/-- A backslash before the quotation mark takes it into the string, and the comma with it. -/
theorem read_chars_backslash {fuel : Nat} {rest value left : List UInt8}
    (hread : read_chars fuel (92 :: 34 :: 44 :: 34 :: rest) = some (value, left)) : value = [34, 44] := by
  match fuel with
  | 0 => cases hread
  | 1 => cases hread
  | 2 => cases hread
  | fuel + 3 =>
    have hcomma : read_unescaped (44 :: 34 :: rest) = some ([44], 34 :: rest) :=
      @read_unescaped_char [44] (by decide) _
    simp [read_chars, read_escape, hcomma] at hread
    exact hread.1.symm

/-- What is read of a text in quotation marks that a comma and another text follow: the text
itself, when it is plain; else less than it, or a string that ends in the comma after a text
that ends in a backslash. -/
theorem read_chars_quoted {fuel : Nat} {text rest value left : List UInt8}
    (hread : read_chars fuel (text ++ 34 :: 44 :: 34 :: rest) = some (value, left)) :
    Plain text ∧ value = text ∨ value.length < text.length ∨
      text.getLast? = some 92 ∧ value.getLast? = some 44 := by
  induction fuel generalizing text value left with
  | zero => cases hread
  | succ fuel ih =>
    cases text with
    | nil =>
      rw [List.nil_append, read_chars, if_pos rfl] at hread
      cases hread
      exact .inl ⟨.nil, rfl⟩
    | cons b text =>
      by_cases hlast : b = 92 ∧ text = []
      · obtain ⟨rfl, rfl⟩ := hlast
        rw [read_chars_backslash hread]
        exact .inr (.inr ⟨rfl, rfl⟩)
      · rw [List.cons_append, read_chars] at hread
        split at hread
        · cases hread
          exact .inr (.inl (Nat.zero_lt_succ _))
        · split at hread
          · cases hread
          · rename_i char after hchar
            obtain ⟨⟨chars, _⟩, hchars, heq⟩ := Option.map_eq_some_iff.mp hread
            obtain ⟨rfl, rfl⟩ := Prod.mk.inj heq
            obtain ⟨taken, more, hsplit, rfl, htaken⟩ := read_char_some hlast hchar
            have hlength : char.length ≤ taken.length := by
              rcases htaken with ⟨_, rfl⟩ | hless
              · exact Nat.le_refl _
              · exact Nat.le_of_lt hless
            rw [hsplit]
            dsimp only
            rcases ih hchars with ⟨hplain, rfl⟩ | hless | ⟨htext, hvalue⟩
            · rcases htaken with ⟨hunescaped, rfl⟩ | hless
              · exact .inl ⟨.cons hunescaped hplain, rfl⟩
              · exact .inr (.inl (by simpa using hless))
            · refine .inr (.inl ?_)
              rw [List.length_append, List.length_append]
              omega
            · exact .inr (.inr (by simp [htext, hvalue]))

/-- Printable ASCII is plain, apart from the quotation mark and the backslash. -/
theorem Plain.of_ascii {text : List UInt8} (hascii : ∀ b ∈ text, 0x20 ≤ b ∧ b ≤ 0x7F ∧ b ≠ 34 ∧ b ≠ 92) :
    Plain text := by
  induction text with
  | nil => exact .nil
  | cons b text ih =>
    obtain ⟨hcontrol, hlimit, hquote, hbackslash⟩ := hascii b List.mem_cons_self
    have hchar : unescaped [b] = true := by simp [unescaped, is_utf8_char, hcontrol, hlimit, hquote, hbackslash]
    exact .cons hchar (ih fun b hb => hascii b (List.mem_cons_of_mem _ hb))

theorem read_string_plain {text : List UInt8} (hplain : Plain text) (left : List UInt8) :
    read_string (34 :: (text ++ 34 :: left)) = some (text, left) := by
  rw [read_string]
  exact read_chars_plain hplain (by rw [List.length_append, List.length_cons]; omega) left

theorem skip_ws_quote (text : List UInt8) : skip_ws (34 :: text) = 34 :: text := by simp [skip_ws]

theorem read_value_string (fuel : Nat) (text : List UInt8) :
    read_value (fuel + 1) (34 :: text) = (read_string (34 :: text)).map (fun read => (string read.1, read.2)) := by
  simp [read_value, skip_ws]

theorem read_value_plain {text : List UInt8} (hplain : Plain text) (fuel : Nat) (left : List UInt8) :
    read_value (fuel + 1) (34 :: (text ++ 34 :: left)) = some (string text, left) := by
  rw [read_value_string, read_string_plain hplain]
  rfl

theorem read_value_object (fuel : Nat) (text : List UInt8) :
    read_value (fuel + 1) (123 :: 34 :: text) =
      (read_members fuel (34 :: text)).map (fun read => (object read.1, read.2)) := by
  simp [read_value, skip_ws]

/-- A member that another one follows. -/
theorem read_members_more {fuel : Nat} {name text rest : List UInt8} {value : Json} (hname : Plain name)
    (hvalue : read_value fuel text = some (value, 44 :: rest)) :
    read_members (fuel + 1) (34 :: (name ++ 34 :: 58 :: text)) =
      (read_members fuel rest).map (fun read => ((name, value) :: read.1, read.2)) := by
  rw [read_members, skip_ws_quote, read_string_plain hname]
  simp [skip_ws, hvalue]

/-- The last member. -/
theorem read_members_last {fuel : Nat} {name text rest : List UInt8} {value : Json} (hname : Plain name)
    (hvalue : read_value fuel text = some (value, 125 :: rest)) :
    read_members (fuel + 1) (34 :: (name ++ 34 :: 58 :: text)) = some ([(name, value)], rest) := by
  rw [read_members, skip_ws_quote, read_string_plain hname]
  simp [skip_ws, hvalue]

/-- Whatever follows it, the value of a member is the one that is read first. -/
theorem read_members_some {fuel : Nat} {name text left : List UInt8} {members : List (List UInt8 × Json)}
    (hname : Plain name)
    (hread : read_members (fuel + 1) (34 :: (name ++ 34 :: 58 :: text)) = some (members, left)) :
    ∃ value rest, read_value fuel text = some (value, rest) ∧ (name, value) ∈ members := by
  have hcolon : skip_ws (58 :: text) = 58 :: text := by simp [skip_ws]
  rw [read_members, skip_ws_quote, read_string_plain hname] at hread
  simp only [hcolon] at hread
  cases hvalue : read_value fuel text with
  | none =>
    rw [hvalue] at hread
    cases hread
  | some found =>
    rw [hvalue] at hread
    dsimp only at hread
    refine ⟨found.1, found.2, rfl, ?_⟩
    split at hread
    · obtain ⟨_, _, heq⟩ := Option.map_eq_some_iff.mp hread
      cases heq
      exact List.mem_cons_self
    · cases hread
      exact List.mem_cons_self
    · cases hread

theorem read_int_digits {digits : List UInt8} (hdigits : ∀ b ∈ digits, is_digit b = true) (hsome : digits ≠ [])
    (hzero : digits.head? = some 48 → digits = [48]) (rest : List UInt8) :
    read_int (digits ++ 44 :: rest) = some (digits, 44 :: rest) := by
  unfold read_int
  split
  · rename_i hhead
    cases digits with
    | nil => exact absurd rfl hsome
    | cons b digits =>
      obtain ⟨rfl, rfl⟩ := List.cons.inj (hzero (congrArg some hhead))
      rfl
  · have htake : (digits ++ 44 :: rest).takeWhile is_digit = digits := by
      rw [List.takeWhile_append_of_pos hdigits, List.takeWhile_cons_of_neg (by decide), List.append_nil]
    have hdrop : (digits ++ 44 :: rest).dropWhile is_digit = 44 :: rest := by
      rw [List.dropWhile_append_of_pos hdigits, List.dropWhile_cons_of_neg (by decide)]
    rw [read_digits, htake, hdrop, if_neg (by simpa using hsome)]

/-- A decimal number without leading zeros is read as it is. -/
theorem read_value_digits {digits : List UInt8} (hdigits : ∀ b ∈ digits, is_digit b = true) (hsome : digits ≠ [])
    (hzero : digits.head? = some 48 → digits = [48]) (fuel : Nat) (rest : List UInt8) :
    read_value (fuel + 1) (digits ++ 44 :: rest) = some (number digits, 44 :: rest) := by
  have hint := read_int_digits hdigits hsome hzero rest
  cases digits with
  | nil => exact absurd rfl hsome
  | cons b digits =>
    have hb : 48 ≤ b ∧ b ≤ 57 := by simpa [is_digit] using hdigits b List.mem_cons_self
    have hnot : ∀ c : UInt8, (c < 48 || 57 < c) = true → b ≠ c := by
      rintro c hc rfl
      grind
    have hskip : skip_ws (b :: digits ++ 44 :: rest) = b :: digits ++ 44 :: rest := by
      simp [skip_ws, hnot]
    have hnumber : read_number (b :: digits ++ 44 :: rest) = some (b :: digits, 44 :: rest) := by
      have hsign : read_optional [45] (b :: digits ++ 44 :: rest) = ([], b :: digits ++ 44 :: rest) := by
        simp [read_optional, hnot]
      rw [read_number, hsign]
      simp only [hint]
      simp [read_part]
    have hliteral : read_literal (b :: digits ++ 44 :: rest) = some (number (b :: digits), 44 :: rest) := by
      rw [read_literal, hnumber]
      simp [(hnot 110 rfl).symm, (hnot 116 rfl).symm, (hnot 102 rfl).symm]
    rw [read_value, hskip]
    split
    · exact absurd ‹_› (by simp [hnot])
    · exact absurd ‹_› (by simp [hnot])
    · exact absurd ‹_› (by simp [hnot])
    · exact hliteral

end Json

end treenity.foundation

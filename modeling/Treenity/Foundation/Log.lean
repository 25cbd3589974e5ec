import Mathlib.Data.List.Infix

namespace treenity.foundation

/-- What a reader that accepts `p` has seen of an append-only log once its cursor
has moved from `start` to `stop`. -/
def window {α : Type} (log : List α) (p : α → Bool) (start stop : Nat) : List α :=
  ((log.take stop).drop start).filter p

@[simp] theorem window_self {α : Type} (log : List α) (p : α → Bool) (start : Nat) :
    window log p start start = [] := by
  simp [window]

/-- Moving the cursor over one entry shows that entry when it is accepted. -/
theorem window_succ {α : Type} {log : List α} {entry : α} {start stop : Nat} (p : α → Bool)
    (hentry : log[stop]? = some entry) (hle : start ≤ stop) :
    window log p start (stop + 1) = window log p start stop ++ (if p entry then [entry] else []) := by
  obtain ⟨hstop, rfl⟩ := List.getElem?_eq_some_iff.mp hentry
  rw [window, List.take_succ_eq_append_getElem hstop, List.drop_append_of_le_length (by simp; omega),
    List.filter_append]
  cases hp : p log[stop] <;> simp [window, hp]

/-- Appending to the log does not change what a cursor inside it has seen. -/
theorem window_append {α : Type} {log : List α} (p : α → Bool) (start : Nat) {stop : Nat}
    (hstop : stop ≤ log.length) (more : List α) :
    window (log ++ more) p start stop = window log p start stop := by
  rw [window, List.take_append_of_le_length hstop, window]

/-- A cursor at or past the end has seen everything accepted from its start on. -/
theorem window_of_length_le {α : Type} {log : List α} (p : α → Bool) (start : Nat) {stop : Nat}
    (hstop : log.length ≤ stop) : window log p start stop = (log.drop start).filter p := by
  rw [window, List.take_of_length_le hstop]

/-- What a cursor has seen is an initial part of what it can still come to see. -/
theorem window_isPrefix {α : Type} (log : List α) (p : α → Bool) (start stop : Nat) :
    window log p start stop <+: (log.drop start).filter p := by
  apply List.IsPrefix.filter p
  rw [List.drop_take]
  exact List.take_prefix _ _

theorem mem_window {α : Type} {log : List α} {p : α → Bool} {start stop i : Nat} {entry : α}
    (hentry : log[i]? = some entry) (hp : p entry = true) (hstart : start ≤ i) (hstop : i < stop) :
    entry ∈ window log p start stop := by
  refine List.mem_filter.mpr ⟨List.mem_iff_getElem?.mpr ⟨i - start, ?_⟩, hp⟩
  rw [List.getElem?_drop, show start + (i - start) = i by omega, List.getElem?_take_of_lt hstop, hentry]

/-- Every entry of the log carries its own position. -/
def Indexed {α : Type} (pos : α → Nat) (log : List α) : Prop :=
  ∀ i entry, log[i]? = some entry → pos entry = i

theorem Indexed.nil {α : Type} (pos : α → Nat) : Indexed pos [] := by
  intro i entry hentry
  simp at hentry

theorem Indexed.append {α : Type} {pos : α → Nat} {log : List α} (hlog : Indexed pos log) {entry : α}
    (hentry : pos entry = log.length) : Indexed pos (log ++ [entry]) := by
  intro i e he
  rcases Nat.lt_trichotomy i log.length with hlt | heq | hgt
  · rw [List.getElem?_append_left hlt] at he
    exact hlog i e he
  · subst heq
    have hlast : entry = e := by simpa using he
    exact hlast ▸ hentry
  · rw [List.getElem?_append_right (by omega), List.getElem?_eq_none (by simp; omega)] at he
    cases he

theorem Indexed.pos_of_mem_take {α : Type} {pos : α → Nat} {log : List α} (hlog : Indexed pos log)
    {stop : Nat} {entry : α} (hentry : entry ∈ log.take stop) : pos entry < stop := by
  obtain ⟨i, hi⟩ := List.mem_iff_getElem?.mp hentry
  obtain ⟨hlt, _⟩ := List.getElem?_eq_some_iff.mp hi
  have hstop : i < stop := by
    rw [List.length_take] at hlt
    omega
  rw [List.getElem?_take_of_lt hstop] at hi
  exact hlog i entry hi ▸ hstop

theorem Indexed.pos_of_mem_drop {α : Type} {pos : α → Nat} {log : List α} (hlog : Indexed pos log)
    {start : Nat} {entry : α} (hentry : entry ∈ log.drop start) : start ≤ pos entry := by
  obtain ⟨i, hi⟩ := List.mem_iff_getElem?.mp hentry
  rw [List.getElem?_drop] at hi
  rw [hlog _ entry hi]
  omega

/-- Selecting by position is cutting the log. -/
theorem Indexed.filter_from {α : Type} {pos : α → Nat} {log : List α} (hlog : Indexed pos log)
    (p : α → Bool) (start : Nat) :
    log.filter (fun e => decide (start ≤ pos e) && p e) = (log.drop start).filter p := by
  conv_lhs => rw [← List.take_append_drop start log, List.filter_append]
  have hbefore : (log.take start).filter (fun e => decide (start ≤ pos e) && p e) = [] := by
    rw [List.filter_eq_nil_iff]
    intro e he
    have hpos := hlog.pos_of_mem_take he
    simp [Nat.not_le.mpr hpos]
  have hafter : (log.drop start).filter (fun e => decide (start ≤ pos e) && p e) =
      (log.drop start).filter p := by
    apply List.filter_congr
    intro e he
    simp [hlog.pos_of_mem_drop he]
  rw [hbefore, hafter, List.nil_append]

/-- Selecting by a range of positions is what a cursor saw while it crossed it. -/
theorem Indexed.filter_before {α : Type} {pos : α → Nat} {log : List α} (hlog : Indexed pos log)
    (p : α → Bool) (start stop : Nat) :
    ((log.drop start).filter p).filter (fun e => decide (pos e < stop)) = window log p start stop := by
  have hcut : (log.drop start).filter (fun e => decide (pos e < stop)) = (log.take stop).drop start := by
    rw [List.drop_take]
    conv_lhs => rw [← List.take_append_drop (stop - start) (log.drop start), List.filter_append]
    have hinside : ((log.drop start).take (stop - start)).filter (fun e => decide (pos e < stop)) =
        (log.drop start).take (stop - start) := by
      rw [List.filter_eq_self]
      intro e he
      rw [← List.drop_take] at he
      simpa using hlog.pos_of_mem_take (List.mem_of_mem_drop he)
    have hbeyond : ((log.drop start).drop (stop - start)).filter (fun e => decide (pos e < stop)) = [] := by
      rw [List.filter_eq_nil_iff]
      intro e he
      rw [List.drop_drop] at he
      have hpos := hlog.pos_of_mem_drop he
      simp
      omega
    rw [hinside, hbeyond, List.append_nil]
  rw [List.filter_filter, window, ← hcut, List.filter_filter]
  apply List.filter_congr
  intro e _
  rw [Bool.and_comm]

/-- Positions increase along any selection of the log. -/
theorem Indexed.pairwise {α : Type} {pos : α → Nat} {log : List α} (hlog : Indexed pos log)
    (p : α → Bool) : ((log.filter p).map pos).Pairwise (· < ·) := by
  have hall : (log.map pos).Pairwise (· < ·) := by
    rw [List.pairwise_iff_getElem]
    intro i j hi hj hij
    have hposi := hlog i _ (List.getElem?_eq_getElem (by simpa using hi))
    have hposj := hlog j _ (List.getElem?_eq_getElem (by simpa using hj))
    simpa [hposi, hposj] using hij
  exact hall.sublist (List.filter_sublist.map pos)

theorem Indexed.window_pairwise {α : Type} {pos : α → Nat} {log : List α} (hlog : Indexed pos log) (p : α → Bool)
    (start stop : Nat) : ((window log p start stop).map pos).Pairwise (· < ·) := by
  refine (hlog.pairwise p).sublist (List.Sublist.map pos ?_)
  exact ((List.drop_sublist start _).trans (List.take_sublist stop log)).filter p

/-- An entry that a cursor has shown lies between its start and its end. -/
theorem Indexed.pos_of_mem_window {α : Type} {pos : α → Nat} {log : List α} (hlog : Indexed pos log) {p : α → Bool}
    {start stop : Nat} {entry : α} (hentry : entry ∈ window log p start stop) :
    log[pos entry]? = some entry ∧ start ≤ pos entry ∧ pos entry < stop := by
  have hcut := List.mem_of_mem_filter hentry
  obtain ⟨i, hi⟩ := List.mem_iff_getElem?.mp hcut
  rw [List.getElem?_drop] at hi
  obtain ⟨hlt, _⟩ := List.getElem?_eq_some_iff.mp hi
  rw [List.length_take] at hlt
  rw [List.getElem?_take_of_lt (by omega)] at hi
  have hpos := hlog _ _ hi
  rw [hpos]
  exact ⟨hi, by omega, by omega⟩

/-- When a cursor shows an entry it has shown everything accepted before it. -/
theorem Indexed.mem_of_window {α : Type} {pos : α → Nat} {log : List α} (hlog : Indexed pos log) {p : α → Bool}
    {start stop : Nat} {seen rest : List α} {entry : α} (hwindow : window log p start stop = seen ++ entry :: rest)
    {i : Nat} {other : α} (hother : log[i]? = some other) (hp : p other = true) (hstart : start ≤ i)
    (hbefore : i ≤ pos entry) : other ∈ seen ++ [entry] := by
  have hentry : entry ∈ window log p start stop := by simp [hwindow]
  obtain ⟨_, _, hstop⟩ := hlog.pos_of_mem_window hentry
  have hmem := mem_window hother hp hstart (Nat.lt_of_le_of_lt hbefore hstop)
  rw [hwindow, List.append_cons, List.mem_append] at hmem
  rcases hmem with hseen | hrest
  · exact hseen
  · -- What comes after the entry has a greater position.
    have hsorted := hlog.window_pairwise p start stop
    rw [hwindow, List.map_append, List.map_cons] at hsorted
    have hafter := (List.pairwise_cons.mp (List.pairwise_append.mp hsorted).2.1).1 _ (List.mem_map_of_mem hrest)
    rw [hlog i other hother] at hafter
    omega

end treenity.foundation

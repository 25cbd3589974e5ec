import Treenity.DataStructures.HashMap.Raw

open treenity.foundation

namespace treenity.data_structures

namespace HashMap.Raw

variable {Key Value F : Type} [DecidableEq Key]

/-- Assigning to the first entry of a key is assigning to every entry of it in a
row where the key occurs once. -/
private theorem assign_eq_map (key : Key) (value : Value) {row : List (Key × Value)}
    (hnodup : (row.map Prod.fst).Nodup) :
    assign key value row = row.map (fun entry => if entry.1 = key then (entry.1, value) else entry) := by
  induction row with
  | nil => rfl
  | cons entry rest ih =>
    rw [List.map_cons, List.nodup_cons] at hnodup
    by_cases hkey : entry.1 = key
    · have hrest : rest.map (fun entry => if entry.1 = key then (entry.1, value) else entry) = rest := by
        rw [List.map_congr_left (g := id), List.map_id]
        intro other hother
        have hne : other.1 ≠ key := by
          rintro rfl
          exact hnodup.1 (List.mem_map.mpr ⟨other, hother, hkey.symm⟩)
        simp [hne]
      simp [assign, hkey, hrest]
    · simp [assign, hkey, ih hnodup.2]

/-- The entries of a table in which every entry of a key has been assigned to. -/
private theorem mem_assigned_iff (key : Key) (value : Value) (entries : List (Key × Value)) (other : Key)
    (found : Value) :
    (other, found) ∈ entries.map (fun entry => if entry.1 = key then (entry.1, value) else entry) ↔
      if other = key then (∃ old, (key, old) ∈ entries) ∧ value = found else (other, found) ∈ entries := by
  rw [List.mem_map]
  constructor
  · rintro ⟨⟨k, v⟩, hmem, hpair⟩
    by_cases hk : k = key
    · rw [if_pos hk] at hpair
      obtain ⟨rfl, rfl⟩ := Prod.mk.inj hpair
      rw [if_pos hk]
      exact ⟨⟨v, hk ▸ hmem⟩, rfl⟩
    · rw [if_neg hk] at hpair
      obtain ⟨rfl, rfl⟩ := Prod.mk.inj hpair
      rw [if_neg hk]
      exact hmem
  · intro hmem
    by_cases hother : other = key
    · rw [if_pos hother] at hmem
      obtain ⟨⟨old, hold⟩, rfl⟩ := hmem
      exact ⟨(key, old), hold, by simp [hother]⟩
    · rw [if_neg hother] at hmem
      exact ⟨(other, found), hmem, by simp [hother]⟩

private theorem eraseP_eq_filter (key : Key) {row : List (Key × Value)}
    (hnodup : (row.map Prod.fst).Nodup) :
    row.eraseP (fun entry => entry.1 == key) = row.filter (fun entry => entry.1 != key) := by
  induction row with
  | nil => rfl
  | cons entry rest ih =>
    rw [List.map_cons, List.nodup_cons] at hnodup
    by_cases hkey : entry.1 = key
    · have hrest : rest.filter (fun entry => entry.1 != key) = rest := by
        apply List.filter_eq_self.mpr
        intro other hother
        have hne : other.1 ≠ key := by
          rintro rfl
          exact hnodup.1 (List.mem_map.mpr ⟨other, hother, hkey.symm⟩)
        simp [hne]
      simp [hkey, hrest]
    · simp [hkey, ih hnodup.2]

private theorem assign_keys (key : Key) (value : Value) (row : List (Key × Value)) :
    (assign key value row).map Prod.fst = row.map Prod.fst := by
  induction row with
  | nil => rfl
  | cons entry rest ih =>
    by_cases hkey : entry.1 = key
    · simp [assign, hkey]
    · simp [assign, hkey, ih]

omit [DecidableEq Key] in
/-- Rewriting the bucket of a key elementwise rewrites the whole table
elementwise, when entries of other keys are left alone. -/
private theorem Valid.entries_modify {hash : Key → Nat} {self : Raw Key Value F}
    (hvalid : self.Valid hash) (key : Key) (f g : List (Key × Value) → List (Key × Value))
    (happend : ∀ a b, g (a ++ b) = g a ++ g b) (hnil : g [] = [])
    (hrow : ∀ row, (row.map Prod.fst).Nodup → f row = g row)
    (hother : ∀ row, (∀ entry ∈ row, entry.1 ≠ key) → g row = row) :
    (self.buckets.modify (self.get_index hash key) f).flatten = g self.entries := by
  refine flatten_modify_eq hvalid.placed _ f g happend hnil ?_ ?_
  · intro row _ hget
    apply hrow
    have hsub : row.Sublist self.entries := List.sublist_flatten_of_mem (List.mem_of_getElem? hget)
    exact (hsub.map Prod.fst).nodup hvalid.nodup
  · intro row hall
    apply hother
    intro entry hentry hkey
    exact hall entry hentry (by rw [hkey]; rfl)

/-- `replace` reports whether the key is there and then changes its value only. -/
theorem Valid.replace {hash : Key → Nat} {self : Raw Key Value F} (hvalid : self.Valid hash)
    (key : Key) (value : Value) :
    (self.replace hash key value).2.Valid hash ∧
      (self.replace hash key value).1 = (self.find hash key).isSome ∧
      ∀ other, (self.replace hash key value).2.find hash other =
        if other = key ∧ (self.find hash key).isSome then some value else self.find hash other := by
  cases hfind : self.find_entry hash key with
  | none => simp [Raw.replace, find, hfind, hvalid]
  | some entry =>
    have hentries : (self.replace hash key value).2.entries =
        self.entries.map (fun entry => if entry.1 = key then (entry.1, value) else entry) := by
      simp only [Raw.replace, hfind, entries]
      refine hvalid.entries_modify key _ (List.map _) (fun a b => List.map_append) rfl
        (fun row hrow => assign_eq_map key value hrow) ?_
      intro row hrow
      rw [List.map_congr_left (g := id), List.map_id]
      intro entry hentry
      simp [hrow entry hentry]
    have hkeys : (self.replace hash key value).2.entries.map Prod.fst = self.entries.map Prod.fst := by
      rw [hentries, List.map_map]
      apply List.map_congr_left
      intro entry _
      simp only [Function.comp]
      split <;> rfl
    have hreplaced : (self.replace hash key value).2.Valid hash := by
      refine ⟨?_, ?_, hkeys ▸ hvalid.nodup, ?_⟩
      · simpa [Raw.replace, hfind] using hvalid.nonempty
      · have hplaced := hvalid.placed.modify (self.get_index hash key) (assign key value) (by
          intro row hrow e he
          have hmem : e.1 ∈ row.map Prod.fst := assign_keys key value row ▸ List.mem_map_of_mem he
          obtain ⟨old, hold, hsame⟩ := List.mem_map.mp hmem
          rw [← hsame]
          exact hrow old hold)
        simpa [Raw.replace, hfind] using hplaced
      · have hlength := congrArg List.length hkeys
        rw [List.length_map, List.length_map] at hlength
        rw [hlength, ← hvalid.counted]
        simp [Raw.replace, hfind]
    have hsome : (self.find hash key).isSome = true := by simp [find, hfind]
    refine ⟨hreplaced, by rw [hsome]; simp [Raw.replace, hfind], ?_⟩
    intro other
    apply Option.ext
    intro found
    rw [hreplaced.find_eq_some_iff, hentries, mem_assigned_iff]
    by_cases hother : other = key
    · obtain ⟨old, hold⟩ := Option.isSome_iff_exists.mp hsome
      have hstored : ∃ old, (key, old) ∈ self.entries := ⟨old, (hvalid.find_eq_some_iff key old).mp hold⟩
      rw [if_pos hother, if_pos ⟨hother, hsome⟩, Option.some.injEq, and_iff_right hstored]
    · rw [if_neg hother, if_neg (fun hassigned => hother hassigned.1), hvalid.find_eq_some_iff]

/-- `erase` reports whether the key was there and forgets it only. -/
theorem Valid.erase {hash : Key → Nat} {self : Raw Key Value F} (hvalid : self.Valid hash) (key : Key) :
    (self.erase hash key).2.Valid hash ∧
      (self.erase hash key).1 = (self.find hash key).isSome ∧
      ∀ other, (self.erase hash key).2.find hash other =
        if other = key then none else self.find hash other := by
  cases hfind : self.find_entry hash key with
  | none =>
    have hnone : self.find hash key = none := by simp [find, hfind]
    refine ⟨by simpa [Raw.erase, hfind] using hvalid, by simp [Raw.erase, hfind, hnone], ?_⟩
    intro other
    by_cases hother : other = key
    · simp [Raw.erase, hfind, hother, hnone]
    · simp [Raw.erase, hfind, hother]
  | some entry =>
    have hentries : (self.erase hash key).2.entries =
        self.entries.filter (fun entry => entry.1 != key) := by
      simp only [Raw.erase, hfind, entries]
      refine hvalid.entries_modify key _ (List.filter _) List.filter_append rfl
        (fun row hrow => eraseP_eq_filter key hrow) ?_
      intro row hrow
      apply List.filter_eq_self.mpr
      intro entry hentry
      simp [hrow entry hentry]
    have hsub : (self.erase hash key).2.entries.Sublist self.entries :=
      hentries ▸ List.filter_sublist
    have hlength : (self.erase hash key).2.entries.length = self.entries.length - 1 := by
      have hsearch := hvalid.find_entry_eq key
      rw [hfind] at hsearch
      have hmem := List.mem_of_find?_eq_some hsearch.symm
      have hkey : entry.1 = key := beq_iff_eq.mp
        (List.find?_some (p := fun entry : Key × Value => entry.1 == key) hsearch.symm)
      have herase := eraseP_eq_filter key hvalid.nodup
      rw [hentries, ← herase]
      exact List.length_eraseP_of_mem hmem (by simp [hkey])
    have herased : (self.erase hash key).2.Valid hash := by
      refine ⟨?_, ?_, (hsub.map Prod.fst).nodup hvalid.nodup, ?_⟩
      · simpa [Raw.erase, hfind] using hvalid.nonempty
      · have hplaced := hvalid.placed.modify (self.get_index hash key)
          (List.eraseP fun entry => entry.1 == key) (fun row hrow e he => hrow e (List.mem_of_mem_eraseP he))
        simpa [Raw.erase, hfind] using hplaced
      · rw [hlength, ← hvalid.counted]
        simp [Raw.erase, hfind]
    refine ⟨herased, by simp [Raw.erase, hfind, find], ?_⟩
    intro other
    apply Option.ext
    intro found
    rw [herased.find_eq_some_iff, hentries, List.mem_filter]
    by_cases hother : other = key
    · simp [hother]
    · simp [hother, hvalid.find_eq_some_iff]

omit [DecidableEq Key] in
theorem Valid.clear {hash : Key → Nat} {self : Raw Key Value F} (hvalid : self.Valid hash) :
    self.clear.Valid hash ∧ self.clear.entries = [] := by
  have hentries : self.clear.entries = [] := by simp [Raw.clear, entries]
  refine ⟨⟨?_, ?_, by simp [hentries], by rw [hentries]; rfl⟩, hentries⟩
  · simpa [Raw.clear] using hvalid.nonempty
  · simpa [Raw.clear] using hvalid.placed.map_rows (fun _ => []) (by simp)

/-- `operator[]` gives an absent key the default value and changes no other key. -/
theorem Valid.subscript [LoadFactor F] {hash : Key → Nat} {self : Raw Key Value F} (hvalid : self.Valid hash)
    (key : Key) (dflt : Value) :
    (self.subscript hash key dflt).Valid hash ∧
      ∀ other, (self.subscript hash key dflt).find hash other =
        if other = key then some ((self.find hash key).getD dflt) else self.find hash other := by
  cases hfind : self.find_entry hash key with
  | none =>
    have hnone : self.find hash key = none := by simp [find, hfind]
    refine ⟨by simpa [Raw.subscript, hfind] using (hvalid.safe_insert dflt hfind).1, ?_⟩
    intro other
    simp [Raw.subscript, hfind, hvalid.find_safe_insert dflt hfind, hnone]
  | some entry =>
    have hsome : self.find hash key = some entry.2 := by simp [find, hfind]
    refine ⟨by simpa [Raw.subscript, hfind] using hvalid, ?_⟩
    intro other
    by_cases hother : other = key
    · simp [Raw.subscript, hfind, hother, hsome]
    · simp [Raw.subscript, hfind, hother]

/-- `insert` adds an absent key and reports that it did; a key that is there keeps its value. -/
theorem Valid.insert [LoadFactor F] {hash : Key → Nat} {self : Raw Key Value F} (hvalid : self.Valid hash)
    (key : Key) (value : Value) :
    (self.insert hash key value).2.Valid hash ∧
      (self.insert hash key value).1 = (self.find hash key).isNone ∧
      ∀ other, (self.insert hash key value).2.find hash other =
        if other = key then some ((self.find hash key).getD value) else self.find hash other := by
  cases hfind : self.find_entry hash key with
  | none =>
    have hnone : self.find hash key = none := by simp [find, hfind]
    refine ⟨by simpa [Raw.insert, hfind] using (hvalid.safe_insert value hfind).1,
      by simp [Raw.insert, hfind, hnone], ?_⟩
    intro other
    simp [Raw.insert, hfind, hvalid.find_safe_insert value hfind, hnone]
  | some entry =>
    have hsome : self.find hash key = some entry.2 := by simp [find, hfind]
    refine ⟨by simpa [Raw.insert, hfind] using hvalid, by simp [Raw.insert, hfind, hsome], ?_⟩
    intro other
    by_cases hother : other = key
    · simp [Raw.insert, hfind, hother, hsome]
    · simp [Raw.insert, hfind, hother]

/-- Both branches of `insert_or_assign` at once: the key ends with the value and
no other key changes. -/
theorem Valid.insert_or_assign [LoadFactor F] {hash : Key → Nat} {self : Raw Key Value F}
    (hvalid : self.Valid hash) (key : Key) (value : Value) :
    (self.insert_or_assign hash key value).2.Valid hash ∧
      (self.insert_or_assign hash key value).1 = (self.find hash key).isNone ∧
      ∀ other, (self.insert_or_assign hash key value).2.find hash other =
        if other = key then some value else self.find hash other := by
  obtain ⟨hreplaced, _, hfind⟩ := hvalid.replace key value
  cases hentry : self.find_entry hash key with
  | none =>
    have hnone : self.find hash key = none := by simp [find, hentry]
    have hpair : self.insert_or_assign hash key value = (true, self.safe_insert hash key value) := by
      simp [Raw.insert_or_assign, Raw.replace, hentry]
    rw [hpair, hnone]
    exact ⟨(hvalid.safe_insert value hentry).1, rfl, hvalid.find_safe_insert value hentry⟩
  | some entry =>
    have hsome : self.find hash key = some entry.2 := by simp [find, hentry]
    have hpair : self.insert_or_assign hash key value = (false, (self.replace hash key value).2) := by
      simp [Raw.insert_or_assign, Raw.replace, hentry]
    rw [hpair, hsome]
    refine ⟨hreplaced, rfl, fun other => ?_⟩
    rw [hfind, hsome]
    simp

end HashMap.Raw

end treenity.data_structures

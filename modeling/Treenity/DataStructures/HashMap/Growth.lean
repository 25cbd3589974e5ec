import Treenity.DataStructures.HashMap.Load

open treenity.foundation

namespace treenity.data_structures

namespace HashMap.Raw

section Insertions

variable {Key Value : Type}

/-- The operations that insert. -/
def Edit.inserts : Edit Key Value → Bool
  | .replace _ _ => false
  | .erase _ => false
  | .clear => false
  | .reserve _ => false
  | _ => true

/-- The pairs an operation inserts, one after another. -/
def Edit.pairs : Edit Key Value → List (Key × Value)
  | .insert key value => [(key, value)]
  | .insert_or_assign key value => [(key, value)]
  | .subscript key value => [(key, value)]
  | .subscript_move key value => [(key, value)]
  | .insert_range _ range => range
  | .insert_list list => list
  | _ => []

/-- The operations that reserve for all their pairs before they insert them. -/
def Edit.reserves : Edit Key Value → Bool
  | .insert_range forward _ => forward
  | .insert_list _ => true
  | _ => false

/-- The table when an operation comes to its insertions. -/
def prepare (hash : Key → Nat) (self : Raw Key Value ℚ) (e : Edit Key Value) : Raw Key Value ℚ :=
  if e.reserves then self.reserve hash (self.num_elements + e.pairs.length) else self

theorem load_prepare (hash : Key → Nat) (self : Raw Key Value ℚ) (e : Edit Key Value) :
    (self.prepare hash e).load =
      if e.reserves then self.load.reserve (self.num_elements + e.pairs.length) else self.load := by
  rw [prepare]
  split
  · exact load_reserve hash self _
  · rfl

theorem Valid.prepare {hash : Key → Nat} {self : Raw Key Value ℚ} (hvalid : self.Valid hash) (e : Edit Key Value) :
    (self.prepare hash e).Valid hash := by
  rw [Raw.prepare]
  split
  · exact (hvalid.reserve _).1
  · exact hvalid

variable [DecidableEq Key] [Inhabited Value]

/-- All operations that insert grow the table as their loop of `insert` does. -/
theorem load_edit_inserts {hash : Key → Nat} {self : Raw Key Value ℚ} (hvalid : self.Valid hash)
    {e : Edit Key Value} (hinserts : e.inserts = true) :
    (self.edit hash e).2.load = ((self.prepare hash e).insert_each hash e.pairs).load := by
  cases e with
  | insert key value => rfl
  | insert_or_assign key value => exact load_insert_or_assign hash hvalid.nonempty key value
  | subscript key value => exact load_subscript hash hvalid.nonempty key default value
  | subscript_move key value => exact load_subscript hash hvalid.nonempty key default value
  | insert_range forward range => cases forward <;> rfl
  | insert_list list => rfl
  | replace key value => cases hinserts
  | erase key => cases hinserts
  | clear => cases hinserts
  | reserve count => cases hinserts

theorem load_edit_adds {hash : Key → Nat} {self : Raw Key Value ℚ} (hvalid : self.Valid hash)
    {e : Edit Key Value} (hinserts : e.inserts = true) :
    ∃ m ≤ e.pairs.length, (self.edit hash e).2.load = Load.add^[m] (self.prepare hash e).load := by
  rw [load_edit_inserts hvalid hinserts]
  exact load_insert_each (hvalid.prepare e) e.pairs

/-- The other operations add no element and take no bucket. -/
theorem load_edit_others (hash : Key → Nat) (self : Raw Key Value ℚ) {e : Edit Key Value}
    (hother : e.inserts = false) :
    (self.edit hash e).2.load.elements ≤ self.load.elements ∧
      self.load.buckets ≤ (self.edit hash e).2.load.buckets ∧
      (self.edit hash e).2.load.factor = self.load.factor := by
  cases e with
  | replace key value => exact load_replace hash self key value ▸ ⟨le_rfl, le_rfl, rfl⟩
  | erase key =>
    obtain ⟨elements, hle, hload⟩ := load_erase hash self key
    have hload : (self.edit hash (.erase key)).2.load = _ := hload
    rw [hload]
    exact ⟨hle, le_rfl, rfl⟩
  | clear => exact ⟨Nat.zero_le _, (List.length_map _).ge, rfl⟩
  | reserve count =>
    have hload : (self.edit hash (.reserve count)).2.load = _ := load_reserve hash self count
    rw [hload]
    exact ⟨le_rfl, le_max_left _ _, rfl⟩
  | insert key value => cases hother
  | insert_or_assign key value => cases hother
  | subscript key value => cases hother
  | subscript_move key value => cases hother
  | insert_range forward range => cases hother
  | insert_list list => cases hother

theorem edit_max_load_factor {hash : Key → Nat} {self : Raw Key Value ℚ} (hvalid : self.Valid hash)
    (e : Edit Key Value) : (self.edit hash e).2.max_load_factor = self.max_load_factor := by
  show (self.edit hash e).2.load.factor = self.load.factor
  cases hinserts : e.inserts with
  | false => exact (load_edit_others hash self hinserts).2.2
  | true =>
    obtain ⟨m, _, hload⟩ := load_edit_adds hvalid hinserts
    rw [hload, Load.add_iterate_factor, load_prepare]
    split <;> rfl

/-- The table after these operations. -/
def edits (hash : Key → Nat) (self : Raw Key Value ℚ) (es : List (Edit Key Value)) : Raw Key Value ℚ :=
  es.foldl (fun table e => (table.edit hash e).2) self

theorem edits_concat (hash : Key → Nat) (self : Raw Key Value ℚ) (es : List (Edit Key Value)) (e : Edit Key Value) :
    self.edits hash (es ++ [e]) = ((self.edits hash es).edit hash e).2 := List.foldl_concat ..

/-- Along the operations the table stays well formed and keeps its load factor. -/
theorem edits_represents {hash : Key → Nat} {self : Raw Key Value ℚ} {map : Meaning Key Value}
    (hrep : Represents hash self map) (es : List (Edit Key Value)) :
    (∃ map, Represents hash (self.edits hash es) map) ∧
      (self.edits hash es).max_load_factor = self.max_load_factor := by
  induction es using List.reverseRecOn with
  | nil => exact ⟨⟨map, hrep⟩, rfl⟩
  | append_singleton es e ih =>
    obtain ⟨⟨reached, hreached⟩, hfactor⟩ := ih
    rw [edits_concat]
    exact ⟨⟨_, (hreached.edit e).2⟩, (edit_max_load_factor hreached.valid e).trans hfactor⟩

omit [DecidableEq Key] [Inhabited Value] in
/-- The only step of a sequence of one operation. -/
theorem of_concat_prefix_singleton {past : List (Edit Key Value)} {e only : Edit Key Value}
    (hbegins : past ++ [e] <+: [only]) : past = [] ∧ e = only := by
  have hlength := hbegins.length_le
  rw [List.length_append, List.length_singleton, List.length_singleton] at hlength
  obtain rfl : past = [] := List.length_eq_zero_iff.mp (by omega)
  exact ⟨rfl, by simpa using hbegins⟩

end Insertions

section Bound

variable {Key Value : Type}

/-- `size() <= max_load_factor() * bucket_count()`, with exact arithmetic. -/
def WithinLoad (self : Raw Key Value ℚ) : Prop := (self.size : ℚ) ≤ self.max_load_factor * self.bucket_count

instance (self : Raw Key Value ℚ) : Decidable self.WithinLoad := inferInstanceAs (Decidable (_ ≤ _))

/-- A new table with a positive factor is within the bound and keeps the factor. -/
theorem new_within_load (capacity : Nat) {factor : ℚ} (hfactor : 0 < factor) :
    (new capacity factor : Raw Key Value ℚ).WithinLoad ∧
      (new capacity factor : Raw Key Value ℚ).max_load_factor = factor := by
  have hsame : (new capacity factor : Raw Key Value ℚ).max_load_factor = factor := if_pos (decide_eq_true hfactor)
  refine ⟨?_, hsame⟩
  rw [WithinLoad, hsame]
  show ((0 : Nat) : ℚ) ≤ _
  push_cast
  positivity

variable [DecidableEq Key]

/-- An operation that inserts into an empty map without reserving inserts enough new keys for
the doublings to catch up with them. For a single key that is half a key's room:
`1 <= max_load_factor() * bucket_count() * 2`. -/
def Room (self : Raw Key Value ℚ) (e : Edit Key Value) : Prop :=
  self.size = 0 → e.reserves = false → e.pairs ≠ [] →
    ∃ i, 1 ≤ i ∧ i ≤ (e.pairs.map Prod.fst).dedup.length ∧
      (i : ℚ) ≤ self.max_load_factor * self.bucket_count * 2 ^ i

theorem Meaning.mem_add_new (map : Meaning Key Value) (pairs : List (Key × Value)) (key : Key) :
    key ∈ map.add_new pairs ↔ key ∈ map ∨ key ∈ pairs.map Prod.fst := by
  induction pairs generalizing map with
  | nil => simp [Meaning.add_new]
  | cons pair pairs ih =>
    have hsplit : map.add_new (pair :: pairs) =
        (if pair.1 ∈ map then map else map.insert pair.1 pair.2).add_new pairs := rfl
    rw [hsplit, ih, List.map_cons, List.mem_cons]
    by_cases hthere : pair.1 ∈ map
    · rw [if_pos hthere]
      constructor
      · rintro (hold | hlater)
        · exact .inl hold
        · exact .inr (.inr hlater)
      · rintro (hold | rfl | hlater)
        · exact .inl hold
        · exact .inl hthere
        · exact .inr hlater
    · rw [if_neg hthere, Finmap.mem_insert]
      tauto

/-- Inserting pairs into an empty table gives it one element for each key. -/
theorem insert_each_empty_size {hash : Key → Nat} {self : Raw Key Value ℚ} (hvalid : self.Valid hash)
    (hempty : self.num_elements = 0) (pairs : List (Key × Value)) :
    (self.insert_each hash pairs).num_elements = (pairs.map Prod.fst).dedup.length := by
  have hentries : self.entries = [] := List.length_eq_zero_iff.mp (hvalid.counted.symm.trans hempty)
  have hrep := (Represents.of_no_entries hvalid hentries).insert_each pairs
  have hsize : (self.insert_each hash pairs).num_elements = _ := hrep.size_eq
  have hkeys : (Meaning.add_new (∅ : Meaning Key Value) pairs).keys = (pairs.map Prod.fst).toFinset := by
    apply Finset.ext
    intro key
    rw [Finmap.mem_keys, Meaning.mem_add_new, List.mem_toFinset, or_iff_right Finmap.notMem_empty]
  rw [hsize, hkeys, List.card_toFinset]

/-- Into an empty map: one doubling for each key either catches up with the keys or does not. -/
theorem insert_empty_bounded_iff {self : Raw Key Value ℚ} (hbounded : self.load.Bounded)
    (hempty : self.num_elements = 0) {e : Edit Key Value} (hreserves : e.reserves = false) :
    (Load.add^[(e.pairs.map Prod.fst).dedup.length] self.load).Bounded ↔ self.Room e := by
  rcases Nat.eq_zero_or_pos (e.pairs.map Prod.fst).dedup.length with hzero | hpos
  · have hnone : e.pairs = [] := by
      rw [List.length_eq_zero_iff, List.dedup_eq_nil, List.map_eq_nil_iff] at hzero
      exact hzero
    refine iff_of_true ?_ fun _ _ hpairs => absurd hnone hpairs
    rw [hzero]
    exact hbounded
  · have hpairs : e.pairs ≠ [] := by
      intro hnone
      rw [hnone] at hpos
      cases hpos
    have hroom : self.Room e ↔ self.load.CatchesUp (e.pairs.map Prod.fst).dedup.length :=
      ⟨fun hroom => hroom hempty hreserves hpairs, fun hcaught _ _ _ => hcaught⟩
    have hnone : self.load.elements = 0 := hempty
    rw [hroom]
    rcases Load.add_iterate_empty hnone hpos with ⟨hcaught, hafter⟩ | ⟨hbehind, hafter, _⟩
    · exact iff_of_true hafter hcaught
    · exact iff_of_false hafter hbehind

variable [Inhabited Value]

/-- One operation on a table within the bound stays within it exactly when it has room. -/
theorem edit_within_load_iff {hash : Key → Nat} {self : Raw Key Value ℚ} (hvalid : self.Valid hash)
    (hfactor : 0 < self.max_load_factor) (hwithin : self.WithinLoad) (e : Edit Key Value) :
    (self.edit hash e).2.WithinLoad ↔ self.Room e := by
  have hbounded : self.load.Bounded := hwithin
  show (self.edit hash e).2.load.Bounded ↔ _
  cases hinserts : e.inserts with
  | false =>
    obtain ⟨helements, hbuckets, hsame⟩ := load_edit_others hash self hinserts
    have hnone : e.pairs = [] := by cases e <;> first | rfl | cases hinserts
    refine iff_of_true ?_ fun _ _ hsome => absurd hnone hsome
    calc (((self.edit hash e).2.load.elements : Nat) : ℚ) ≤ self.load.elements := Nat.cast_le.mpr helements
      _ ≤ self.load.factor * self.load.buckets := hbounded
      _ ≤ self.load.factor * (self.edit hash e).2.load.buckets :=
        mul_le_mul_of_nonneg_left (Nat.cast_le.mpr hbuckets) hfactor.le
      _ = (self.edit hash e).2.load.factor * (self.edit hash e).2.load.buckets := by rw [hsame]
  | true =>
    obtain ⟨m, hm, hload⟩ := load_edit_adds hvalid hinserts
    rw [hload, load_prepare]
    cases hreserves : e.reserves with
    | true =>
      rw [if_pos rfl]
      refine iff_of_true ?_ fun _ hnot => absurd (hreserves.symm.trans hnot) nofun
      exact Load.add_iterate_bounded (Load.reserve_allows hfactor _) (Nat.add_le_add_left hm _)
    | false =>
      rw [if_neg Bool.false_ne_true]
      rcases Nat.eq_zero_or_pos self.num_elements with hempty | hsome
      · have hcount : m = (e.pairs.map Prod.fst).dedup.length := by
          have helements := congrArg Load.elements hload
          rw [load_edit_inserts hvalid hinserts, prepare, hreserves, if_neg Bool.false_ne_true,
            Load.add_iterate_elements] at helements
          have hstart : self.load.elements = 0 := hempty
          rw [hstart, Nat.zero_add] at helements
          exact helements.symm.trans (insert_each_empty_size hvalid hempty e.pairs)
        rw [hcount]
        exact insert_empty_bounded_iff hbounded hempty hreserves
      · refine iff_of_true (hbounded.add_iterate hsome m) fun hempty => ?_
        exact absurd hempty hsome.ne'

/-- The load stays within its bound after every operation exactly when every operation finds
the room it needs: only the insertions into an empty map can lack it, as one doubling of its
buckets may not do. -/
theorem edits_within_load_iff (hash : Key → Nat) (capacity : Nat) {factor : ℚ} (hfactor : 0 < factor)
    (es : List (Edit Key Value)) :
    (∀ past, past <+: es → ((new capacity factor : Raw Key Value ℚ).edits hash past).WithinLoad) ↔
      ∀ past e, past ++ [e] <+: es → ((new capacity factor : Raw Key Value ℚ).edits hash past).Room e := by
  have hnew : (new capacity factor : Raw Key Value ℚ).WithinLoad ∧
      (new capacity factor : Raw Key Value ℚ).max_load_factor = factor := new_within_load capacity hfactor
  obtain ⟨hstart, hsame⟩ := hnew
  have hrep : Represents hash (new capacity factor : Raw Key Value ℚ) ∅ := .new capacity factor
  have hstep : ∀ past e, ((new capacity factor : Raw Key Value ℚ).edits hash past).WithinLoad →
      (((new capacity factor : Raw Key Value ℚ).edits hash (past ++ [e])).WithinLoad ↔
        ((new capacity factor : Raw Key Value ℚ).edits hash past).Room e) := by
    intro past e hwithin
    obtain ⟨⟨map, hpast⟩, hkept⟩ := edits_represents hrep past
    rw [edits_concat]
    exact edit_within_load_iff hpast.valid (by rw [hkept, hsame]; exact hfactor) hwithin e
  constructor
  · intro hall past e hbegins
    have hbefore := hall past ((List.prefix_append past [e]).trans hbegins)
    exact (hstep past e hbefore).mp (hall _ hbegins)
  · intro hroom past
    induction past using List.reverseRecOn with
    | nil => exact fun _ => hstart
    | append_singleton past e ih =>
      intro hbegins
      have hbefore := ih ((List.prefix_append past [e]).trans hbegins)
      exact (hstep past e hbefore).mpr (hroom past e hbegins)

/-- One bucket and a factor of 1/10: after one insertion there are two buckets, which the factor
allows no element. -/
theorem edits_exceed_load :
    ¬∀ (hash : Nat → Nat) (capacity : Nat) (factor : ℚ), 0 < factor → ∀ (es past : List (Edit Nat Nat)),
      past <+: es → ((new capacity factor : Raw Nat Nat ℚ).edits hash past).WithinLoad := by
  intro hall
  have hwithin := hall id 1 (1 / 10) (by norm_num) [.insert 7 7] [.insert 7 7] List.prefix_rfl
  exact absurd hwithin (by decide +kernel)

/-- With five buckets one doubling makes room for a key. -/
theorem edits_within_load_five :
    ((new 5 (1 / 10) : Raw Nat Nat ℚ).edits id [.insert 7 7]).WithinLoad := by
  apply (edits_within_load_iff id 5 (by norm_num) [.insert 7 7]).mpr _ [.insert 7 7] List.prefix_rfl
  intro past e hbegins
  obtain ⟨rfl, rfl⟩ := of_concat_prefix_singleton hbegins
  exact fun _ _ _ => ⟨1, le_rfl, by decide, by decide +kernel⟩

end Bound

section Reservation

variable {ι Key Value : Type}

theorem new_max_load_factor_pos (capacity : Nat) (factor : ℚ) :
    0 < (new capacity factor : Raw Key Value ℚ).max_load_factor := by
  show 0 < if decide (factor > 0) then factor else 3 / 4
  split
  · rename_i hpositive
    exact of_decide_eq_true hpositive
  · norm_num

variable [DecidableEq ι] [DecidableEq Key] [Inhabited Value]

/-- A table that stands for a map and has a factor to divide by. -/
structure Grows (hash : Key → Nat) (table : Raw Key Value ℚ) (map : Meaning Key Value) : Prop where
  represents : Represents hash table map
  positive : 0 < table.max_load_factor

omit [Inhabited Value] in
theorem Grows.new (hash : Key → Nat) (capacity : Nat) (factor : ℚ) :
    Grows hash (new capacity factor : Raw Key Value ℚ) ∅ :=
  ⟨.new capacity factor, new_max_load_factor_pos capacity factor⟩

theorem Grows.edit {hash : Key → Nat} {table : Raw Key Value ℚ} {map : Meaning Key Value}
    (hgrows : Grows hash table map) (e : Edit Key Value) : Grows hash (table.edit hash e).2 (map.edit e).2 :=
  ⟨(hgrows.represents.edit e).2, by rw [edit_max_load_factor hgrows.represents.valid e]; exact hgrows.positive⟩

private theorem step_grows {hash : Key → Nat} {objects : ι → Raw Key Value ℚ} {maps : ι → Meaning Key Value}
    (op : Op ι Key Value ℚ) (hgrows : ∀ x, Grows hash (objects x) (maps x)) :
    ∀ x, Grows hash ((step hash objects op).2 x) ((Meaning.step maps op).2 x) := by
  cases op with
  | construct x capacity factor => exact related_update hgrows x (.new hash capacity factor)
  | construct_list x init_list factor =>
    exact related_update hgrows x ((Grows.new hash _ factor).edit (.insert_list init_list))
  | edit x e => exact related_update hgrows x ((hgrows x).edit e)
  | copy x y => exact related_update hgrows x (hgrows y)
  | move_construct x y hne =>
    exact related_update (related_update hgrows x (hgrows y)) y ⟨.moved_from (objects y), (hgrows y).positive⟩
  | move_assign x y =>
    have hmoved : Grows hash ((objects x).move_assign (objects y)) (maps y) :=
      ⟨(hgrows y).represents.move_assign (objects x), (hgrows x).positive⟩
    by_cases hxy : x = y
    · simpa only [step, Meaning.step, hxy, if_true] using hgrows
    · simp only [step, Meaning.step, hxy, if_false]
      exact related_update (related_update hgrows x hmoved) y ⟨.moved_from (objects y), (hgrows y).positive⟩

/-- Every map a program can build has a factor to divide by. -/
theorem objects_after_grows (hash : Key → Nat) (ops : List (Op ι Key Value ℚ)) (x : ι) :
    ∃ map, Grows hash (objects_after hash ops x) map := by
  have hagree := answers_agree
    (R := fun (objects : ι → Raw Key Value ℚ) (maps : ι → Meaning Key Value) => ∀ x, Grows hash (objects x) (maps x))
    (fun objects maps op hgrows =>
      ⟨(step_represents objects maps op fun x => (hgrows x).represents).1, step_grows op hgrows⟩)
    (fun _ => Grows.new hash 16 LoadFactor.three_quarters) ops
  exact ⟨_, hagree.2 x⟩

/-- While the size stays within a reservation, an insertion or erasure takes no bucket but those it
reserves itself before its loop. -/
theorem edit_keeps_buckets {hash : Key → Nat} {self : Raw Key Value ℚ} (hvalid : self.Valid hash)
    (hfactor : 0 < self.max_load_factor) {n : Nat} (hallows : self.load.Allows n) {e : Edit Key Value}
    (hkind : e.inserts = true ∨ ∃ key, e = .erase key) (hsize : (self.edit hash e).2.size ≤ n) :
    (self.edit hash e).2.bucket_count = (self.prepare hash e).bucket_count ∧
      (self.edit hash e).2.load.Allows n := by
  rcases hkind with hinserts | ⟨key, rfl⟩
  · obtain ⟨m, _, hload⟩ := load_edit_adds hvalid hinserts
    have hroom : (self.prepare hash e).load.Allows n := by
      rw [load_prepare]
      split
      · exact hallows.reserve hfactor _
      · exact hallows
    have hcount : (self.prepare hash e).load.elements + m ≤ n := by
      have helements := congrArg Load.elements hload
      rw [Load.add_iterate_elements] at helements
      exact helements ▸ hsize
    have hbuckets := Load.add_iterate_buckets hroom hcount
    refine ⟨(congrArg Load.buckets hload).trans hbuckets, ?_⟩
    rw [hload, Load.Allows, Load.add_iterate_factor, hbuckets]
    exact hroom
  · obtain ⟨elements, _, hload⟩ := load_erase hash self key
    have hload : (self.edit hash (.erase key)).2.load = _ := hload
    refine ⟨congrArg Load.buckets hload, ?_⟩
    rw [hload]
    exact hallows

/-- Insertions and erasures. -/
def Changes (es : List (Edit Key Value)) : Prop := ∀ e ∈ es, e.inserts = true ∨ ∃ key, e = .erase key

/-- The step from some of the operations to the next. -/
theorem edits_next_keeps_buckets {hash : Key → Nat} {self : Raw Key Value ℚ} {map : Meaning Key Value} {n : Nat}
    {es past : List (Edit Key Value)} {e : Edit Key Value} (hgrows : Grows hash (self.edits hash past) map)
    (hallows : (self.edits hash past).load.Allows n) (hkinds : Changes es) (hbegins : past ++ [e] <+: es)
    (hsize : (self.edits hash (past ++ [e])).size ≤ n) :
    (self.edits hash (past ++ [e])).bucket_count = ((self.edits hash past).prepare hash e).bucket_count ∧
      (self.edits hash (past ++ [e])).load.Allows n := by
  have hmem : e ∈ es := hbegins.subset (List.mem_append_right _ List.mem_cons_self)
  rw [edits_concat] at hsize ⊢
  exact edit_keeps_buckets hgrows.represents.valid hgrows.positive hallows (hkinds e hmem) hsize

/-- Along insertions and erasures that stay within a reservation it remains in force. -/
theorem edits_keep_reservation {hash : Key → Nat} {self : Raw Key Value ℚ} {map : Meaning Key Value}
    (hgrows : Grows hash self map) {n : Nat} (hallows : self.load.Allows n) {es : List (Edit Key Value)}
    (hkinds : Changes es) (hsizes : ∀ past e, past ++ [e] <+: es → (self.edits hash (past ++ [e])).size ≤ n)
    {past : List (Edit Key Value)} (hbegins : past <+: es) :
    (∃ map, Grows hash (self.edits hash past) map) ∧ (self.edits hash past).load.Allows n := by
  induction past using List.reverseRecOn with
  | nil => exact ⟨⟨map, hgrows⟩, hallows⟩
  | append_singleton past e ih =>
    obtain ⟨⟨reached, hreached⟩, hroom⟩ := ih ((List.prefix_append past [e]).trans hbegins)
    have hnext := edits_next_keeps_buckets hreached hroom hkinds hbegins (hsizes past e hbegins)
    have hgrown := hreached.edit e
    rw [← edits_concat] at hgrown
    exact ⟨⟨_, hgrown⟩, hnext.2⟩

/-- What `reserve(n)` does for a map: lookups stay, buckets are not given up, and while
insertions and erasures keep the size within `n` none of them takes a bucket, in the loop of a
range insert neither. Only the reservation with which a range insert from forward iterators
or an initializer list begins may, when it asks for more than `n`. -/
theorem reserve_keeps_buckets (hash : Key → Nat) (ops : List (Op ι Key Value ℚ)) (x : ι) (n : Nat) :
    let table := objects_after hash ops x
    let reserved := table.reserve hash n
    (∀ key, reserved.find hash key = table.find hash key) ∧
    table.bucket_count ≤ reserved.bucket_count ∧
    ∀ es : List (Edit Key Value), Changes es →
      (∀ past e, past ++ [e] <+: es → (reserved.edits hash (past ++ [e])).size ≤ n) →
      (∀ past e, past ++ [e] <+: es →
        (reserved.edits hash (past ++ [e])).bucket_count = ((reserved.edits hash past).prepare hash e).bucket_count) ∧
      ((∀ past e, past ++ [e] <+: es → e.reserves = true →
          (reserved.edits hash past).size + e.pairs.length ≤ n) →
        (reserved.edits hash es).bucket_count = reserved.bucket_count) := by
  intro table reserved
  obtain ⟨map, hgrows⟩ := objects_after_grows hash ops x
  have hreserved : Grows hash reserved map := hgrows.edit (.reserve n)
  have hload : reserved.load = table.load.reserve n := load_reserve hash table n
  have hallows : reserved.load.Allows n := hload ▸ Load.reserve_allows hgrows.positive n
  refine ⟨fun key => ?_, ?_, fun es hkinds hsizes => ?_⟩
  · rw [hreserved.represents.find_eq, hgrows.represents.find_eq]
  · show table.load.buckets ≤ reserved.load.buckets
    rw [hload]
    exact le_max_left _ _
  · have hkept : ∀ past, past <+: es →
        (∃ map, Grows hash (reserved.edits hash past) map) ∧ (reserved.edits hash past).load.Allows n :=
      fun _ => edits_keep_reservation hreserved hallows hkinds hsizes
    have hstep : ∀ past e, past ++ [e] <+: es →
        (reserved.edits hash (past ++ [e])).bucket_count =
          ((reserved.edits hash past).prepare hash e).bucket_count := by
      intro past e hbegins
      obtain ⟨⟨reached, hreached⟩, hroom⟩ := hkept past ((List.prefix_append past [e]).trans hbegins)
      exact (edits_next_keeps_buckets hreached hroom hkinds hbegins (hsizes past e hbegins)).1
    refine ⟨hstep, fun hreservations => ?_⟩
    have hall : ∀ past, past <+: es → (reserved.edits hash past).bucket_count = reserved.bucket_count := by
      intro past
      induction past using List.reverseRecOn with
      | nil => exact fun _ => rfl
      | append_singleton past e ih =>
        intro hbegins
        have hbefore := (List.prefix_append past [e]).trans hbegins
        obtain ⟨⟨reached, hreached⟩, hroom⟩ := hkept _ hbefore
        rw [hstep past e hbegins, ← ih hbefore]
        show ((reserved.edits hash past).prepare hash e).load.buckets = (reserved.edits hash past).load.buckets
        rw [load_prepare]
        split
        · rename_i hreserves
          have hasked := hroom.mono (hreservations past e hbegins hreserves)
          exact congrArg Load.buckets (Load.reserve_eq_of_allows hreached.positive hasked)
        · rfl
    exact hall es List.prefix_rfl

/-- A range that repeats a key asks for more than it needs: with one key's room reserved, three
pairs of that key make three buckets of one. -/
theorem reserve_exceeded_by_range :
    ¬∀ (hash : Nat → Nat) (ops : List (Op Nat Nat Nat ℚ)) (x n : Nat) (es : List (Edit Nat Nat)), Changes es →
      (∀ past e, past ++ [e] <+: es → (((objects_after hash ops x).reserve hash n).edits hash (past ++ [e])).size ≤ n) →
      (((objects_after hash ops x).reserve hash n).edits hash es).bucket_count =
        ((objects_after hash ops x).reserve hash n).bucket_count := by
  intro hall
  have hbuckets := hall id [.construct 0 1 1] 0 1 [.insert_range true [(7, 7), (7, 8), (7, 9)]] ?_ ?_
  · exact absurd hbuckets (by decide +kernel)
  · intro e he
    obtain rfl := List.mem_singleton.mp he
    exact .inl rfl
  · intro past e hbegins
    obtain ⟨rfl, rfl⟩ := of_concat_prefix_singleton hbegins
    decide +kernel

end Reservation

end HashMap.Raw

end treenity.data_structures

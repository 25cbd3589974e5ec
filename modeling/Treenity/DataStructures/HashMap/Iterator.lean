import Mathlib.Data.List.GetD
import Treenity.DataStructures.HashMap.Refinement

open treenity.foundation

namespace treenity.data_structures

namespace HashMap

/-- `IteratorImpl<IsConst>`. A `std::list` iterator is a bucket and a place in it; the place
after the last node is the `end()` of that list, and `none` is a default-constructed one. -/
structure IteratorImpl (ValueType : Type) (IsConst : Bool) where
  buckets : List (List ValueType)
  bucket_idx : Nat
  list_it : Option (Nat × Nat)

namespace IteratorImpl

variable {ValueType : Type} {IsConst OtherConst : Bool}

/-- The `while` of `advance_to_next_valid_bucket`. -/
def skip_empty (buckets : List (List ValueType)) (bucket_idx : Nat) : Nat :=
  if bucket_idx < buckets.length ∧ (buckets.getD bucket_idx []).isEmpty then
    skip_empty buckets (bucket_idx + 1)
  else bucket_idx
termination_by buckets.length - bucket_idx

/-- Past the last bucket `list_it` keeps its value. -/
def advance_to_next_valid_bucket (self : IteratorImpl ValueType IsConst) : IteratorImpl ValueType IsConst :=
  let bucket_idx := skip_empty self.buckets self.bucket_idx
  { self with
    bucket_idx
    list_it := if bucket_idx < self.buckets.length then some (bucket_idx, 0) else self.list_it }

/-- The constructor of `begin` and `end`. -/
def from_bucket (buckets : List (List ValueType)) (bucket_idx : Nat) : IteratorImpl ValueType IsConst :=
  advance_to_next_valid_bucket { buckets, bucket_idx, list_it := none }

/-- `operator*`; `none` is undefined. -/
def deref (self : IteratorImpl ValueType IsConst) : Option ValueType :=
  self.list_it.bind fun place => (self.buckets.getD place.1 [])[place.2]?

/-- `operator++`; `none` is undefined: there is no entry to leave or no bucket to ask for its end. -/
def increment (self : IteratorImpl ValueType IsConst) : Option (IteratorImpl ValueType IsConst) :=
  match self.list_it, self.buckets[self.bucket_idx]? with
  | some (row, node), some bucket =>
    if node < (self.buckets.getD row []).length then
      let moved := { self with list_it := some (row, node + 1) }
      if (row, node + 1) = (self.bucket_idx, bucket.length) then
        some (advance_to_next_valid_bucket { moved with bucket_idx := self.bucket_idx + 1 })
      else some moved
    else none
  | _, _ => none

/-- `operator==`, also between the two kinds of iterators. -/
def equals (self : IteratorImpl ValueType IsConst) (other : IteratorImpl ValueType OtherConst) : Bool :=
  if self.bucket_idx ≥ self.buckets.length ∧ other.bucket_idx ≥ self.buckets.length then true
  else self.bucket_idx == other.bucket_idx && self.list_it == other.list_it

/-- So many steps with `++`. -/
def walk (self : IteratorImpl ValueType IsConst) : Nat → Option (IteratorImpl ValueType IsConst)
  | 0 => some self
  | steps + 1 => (self.walk steps).bind increment

/-- What is still to be visited: nothing past the last bucket, and otherwise the rest of a
bucket that has one and all later buckets. -/
def Visits (self : IteratorImpl ValueType IsConst) (rest : List ValueType) : Prop :=
  self.buckets.length ≤ self.bucket_idx ∧ rest = [] ∨
    ∃ node bucket, self.list_it = some (self.bucket_idx, node) ∧ self.buckets[self.bucket_idx]? = some bucket ∧
      node < bucket.length ∧ rest = bucket.drop node ++ (self.buckets.drop (self.bucket_idx + 1)).flatten

theorem skip_empty_spec (buckets : List (List ValueType)) (bucket_idx : Nat) :
    (buckets.drop (skip_empty buckets bucket_idx)).flatten = (buckets.drop bucket_idx).flatten ∧
      ∀ bucket, buckets[skip_empty buckets bucket_idx]? = some bucket → bucket ≠ [] := by
  fun_induction skip_empty buckets bucket_idx with
  | case1 bucket_idx hskip ih =>
    obtain ⟨hlt, hempty⟩ := hskip
    rw [List.getD_eq_getElem _ _ hlt, List.isEmpty_iff] at hempty
    refine ⟨ih.1.trans ?_, ih.2⟩
    rw [List.drop_eq_getElem_cons hlt, hempty, List.flatten_cons, List.nil_append]
  | case2 bucket_idx hstop =>
    refine ⟨rfl, fun bucket hbucket hempty => hstop ?_⟩
    obtain ⟨hlt, hget⟩ := List.getElem?_eq_some_iff.mp hbucket
    exact ⟨hlt, by rw [List.getD_eq_getElem _ _ hlt, hget, hempty, List.isEmpty_nil]⟩

/-- Advancing finds everything from its bucket on. -/
theorem advance_visits (self : IteratorImpl ValueType IsConst) :
    self.advance_to_next_valid_bucket.Visits (self.buckets.drop self.bucket_idx).flatten := by
  obtain ⟨hsame, hvalid⟩ := skip_empty_spec self.buckets self.bucket_idx
  rw [← hsame]
  by_cases hlt : skip_empty self.buckets self.bucket_idx < self.buckets.length
  · have hget := List.getElem?_eq_getElem hlt
    refine .inr ⟨0, _, if_pos hlt, hget, List.length_pos_iff.mpr (hvalid _ hget), ?_⟩
    rw [List.drop_zero]
    exact congrArg List.flatten (List.drop_eq_getElem_cons hlt)
  · exact .inl ⟨not_lt.mp hlt, by rw [List.drop_of_length_le (not_lt.mp hlt), List.flatten_nil]⟩

/-- An iterator that has an entry to visit is at that entry, in a bucket that is not empty. -/
theorem Visits.deref {self : IteratorImpl ValueType IsConst} {entry : ValueType} {rest : List ValueType}
    (hvisits : self.Visits (entry :: rest)) :
    self.deref = some entry ∧ ∃ bucket, self.buckets[self.bucket_idx]? = some bucket ∧ entry ∈ bucket := by
  rcases hvisits with ⟨_, hnil⟩ | ⟨node, bucket, hplace, hbucket, hnode, hrest⟩
  · cases hnil
  · rw [List.drop_eq_getElem_cons hnode, List.cons_append] at hrest
    obtain ⟨rfl, _⟩ := List.cons.inj hrest
    refine ⟨?_, bucket, hbucket, List.getElem_mem hnode⟩
    rw [IteratorImpl.deref, hplace, Option.bind_some, List.getD_eq_getElem?_getD, hbucket, Option.getD_some]
    exact List.getElem?_eq_getElem hnode

/-- A step leaves the entry behind and keeps the rest. -/
theorem Visits.increment {self : IteratorImpl ValueType IsConst} {entry : ValueType} {rest : List ValueType}
    (hvisits : self.Visits (entry :: rest)) :
    ∃ next, self.increment = some next ∧ next.Visits rest ∧ next.buckets = self.buckets := by
  rcases hvisits with ⟨_, hnil⟩ | ⟨node, bucket, hplace, hbucket, hnode, hrest⟩
  · cases hnil
  · rw [List.drop_eq_getElem_cons hnode, List.cons_append] at hrest
    obtain ⟨_, rfl⟩ := List.cons.inj hrest
    have hrow : self.buckets.getD self.bucket_idx [] = bucket := by
      rw [List.getD_eq_getElem?_getD, hbucket, Option.getD_some]
    rw [IteratorImpl.increment, hplace, hbucket]
    dsimp only
    rw [hrow, if_pos hnode]
    by_cases hlast : node + 1 = bucket.length
    · rw [if_pos (by rw [hlast]), hlast, List.drop_length, List.nil_append]
      exact ⟨_, rfl, advance_visits _, rfl⟩
    · rw [if_neg (fun hend => hlast (congrArg Prod.snd hend))]
      exact ⟨_, rfl, .inr ⟨node + 1, bucket, rfl, hbucket, by omega, rfl⟩, rfl⟩

/-- The iterators that have nothing to visit are equal to the one past the last bucket, and no others are. -/
theorem Visits.equals_end_iff {self : IteratorImpl ValueType IsConst} {rest : List ValueType}
    (hvisits : self.Visits rest) {last : IteratorImpl ValueType OtherConst}
    (hlast : self.buckets.length ≤ last.bucket_idx) : self.equals last = true ↔ rest = [] := by
  rcases hvisits with ⟨hend, hnil⟩ | ⟨node, bucket, _, hbucket, hnode, hrest⟩
  · rw [equals, if_pos ⟨hend, hlast⟩]
    exact iff_of_true rfl hnil
  · have hinside := (List.getElem?_eq_some_iff.mp hbucket).1
    have hother : (self.bucket_idx == last.bucket_idx) = false := beq_eq_false_iff_ne.mpr (by omega)
    rw [equals, if_neg (by omega), hother, Bool.false_and]
    refine iff_of_false nofun ?_
    rw [hrest, List.append_eq_nil_iff, List.drop_eq_nil_iff]
    omega

/-- After so many steps so many entries have been visited. -/
theorem Visits.walk {self : IteratorImpl ValueType IsConst} {rest : List ValueType} (hvisits : self.Visits rest)
    {steps : Nat} (hsteps : steps ≤ rest.length) :
    ∃ reached, self.walk steps = some reached ∧ reached.Visits (rest.drop steps) ∧
      reached.buckets = self.buckets := by
  induction steps with
  | zero => exact ⟨self, rfl, hvisits, rfl⟩
  | succ steps ih =>
    obtain ⟨reached, hwalk, hreached, hbuckets⟩ := ih (by omega)
    rw [List.drop_eq_getElem_cons (show steps < rest.length by omega)] at hreached
    obtain ⟨next, hnext, hvisits_next, hsame⟩ := hreached.increment
    refine ⟨next, ?_, hvisits_next, hsame.trans hbuckets⟩
    rw [IteratorImpl.walk, hwalk, Option.bind_some, hnext]

end IteratorImpl

namespace Raw

variable {Key Value F : Type}

/-- `begin()`, or `cbegin()` for a `ConstIterator`. -/
def begin_iterator (self : Raw Key Value F) (IsConst : Bool) : IteratorImpl (Key × Value) IsConst :=
  .from_bucket self.buckets 0

/-- `end()`, or `cend()`. -/
def end_iterator (self : Raw Key Value F) (IsConst : Bool) : IteratorImpl (Key × Value) IsConst :=
  .from_bucket self.buckets self.buckets.length

theorem end_iterator_bucket_idx (self : Raw Key Value F) (IsConst : Bool) :
    (self.end_iterator IsConst).bucket_idx = self.buckets.length := by
  show IteratorImpl.skip_empty self.buckets self.buckets.length = _
  rw [IteratorImpl.skip_empty, if_neg (fun hskip => Nat.lt_irrefl _ hskip.1)]

theorem begin_iterator_visits (self : Raw Key Value F) (IsConst : Bool) :
    (self.begin_iterator IsConst).Visits self.entries :=
  IteratorImpl.advance_visits { buckets := self.buckets, bucket_idx := 0, list_it := none }

/-- What a loop from `begin()` to `end()` sees of a table: at step `k` the `k`-th entry, in a
bucket that holds it, before the end; after as many steps as there are entries, the end. -/
theorem iteration_spec (self : Raw Key Value F) (IsConst OtherConst : Bool) :
    (∀ k entry, self.entries[k]? = some entry → ∃ reached bucket,
      (self.begin_iterator IsConst).walk k = some reached ∧ reached.deref = some entry ∧
        self.buckets[reached.bucket_idx]? = some bucket ∧ entry ∈ bucket ∧
        reached.equals (self.end_iterator OtherConst) = false) ∧
    ∃ reached, (self.begin_iterator IsConst).walk self.entries.length = some reached ∧
      reached.equals (self.end_iterator OtherConst) = true := by
  have hbegin := self.begin_iterator_visits IsConst
  have hend := self.end_iterator_bucket_idx OtherConst
  constructor
  · intro k entry hentry
    obtain ⟨hk, hget⟩ := List.getElem?_eq_some_iff.mp hentry
    obtain ⟨reached, hwalk, hvisits, hbuckets⟩ := hbegin.walk hk.le
    have hbuckets : reached.buckets = self.buckets := hbuckets
    rw [List.drop_eq_getElem_cons hk, hget] at hvisits
    obtain ⟨hderef, bucket, hbucket, hmem⟩ := hvisits.deref
    refine ⟨reached, bucket, hwalk, hderef, hbuckets ▸ hbucket, hmem, ?_⟩
    rw [Bool.eq_false_iff, Ne, hvisits.equals_end_iff (by rw [hbuckets, hend])]
    exact List.cons_ne_nil _ _
  · obtain ⟨reached, hwalk, hvisits, hbuckets⟩ := hbegin.walk le_rfl
    have hbuckets : reached.buckets = self.buckets := hbuckets
    refine ⟨reached, hwalk, (hvisits.equals_end_iff (by rw [hbuckets, hend])).mpr ?_⟩
    exact List.drop_length

/-- In every map a program can build, for both kinds of iterators and for an end of either
kind, the loop from `begin()` takes `size()` steps, is at a stored entry before each of
them and equal to `end()` after the last only; it meets the stored entries in order, each
key once. -/
theorem iteration_complete {ι : Type} [DecidableEq ι] [DecidableEq Key] [LoadFactor F] [Inhabited Value]
    (hash : Key → Nat) (ops : List (Op ι Key Value F)) (x : ι) (IsConst OtherConst : Bool) :
    let table := objects_after hash ops x
    let visited := fun k => ((table.begin_iterator IsConst).walk k).bind IteratorImpl.deref
    (∀ k, k < table.size → ∃ reached bucket,
      (table.begin_iterator IsConst).walk k = some reached ∧
        table.buckets[reached.bucket_idx]? = some bucket ∧ bucket ≠ [] ∧
        reached.equals (table.end_iterator OtherConst) = false) ∧
    (∃ reached, (table.begin_iterator IsConst).walk table.size = some reached ∧
      reached.equals (table.end_iterator OtherConst) = true) ∧
    (List.range table.size).map visited = table.buckets.flatten.map some ∧
    (table.buckets.flatten.map Prod.fst).Nodup := by
  intro table visited
  have hvalid : table.Valid hash := (objects_after_represents hash ops x).valid
  have hsize : table.size = table.entries.length := hvalid.counted
  obtain ⟨hsteps, hend⟩ := table.iteration_spec IsConst OtherConst
  refine ⟨?_, hsize ▸ hend, ?_, hvalid.nodup⟩
  · intro k hk
    rw [hsize] at hk
    obtain ⟨reached, bucket, hwalk, _, hbucket, hmem, hbefore⟩ := hsteps k _ (List.getElem?_eq_getElem hk)
    exact ⟨reached, bucket, hwalk, hbucket, List.ne_nil_of_mem hmem, hbefore⟩
  · apply List.ext_getElem
    · rw [List.length_map, List.length_range, List.length_map]
      exact hsize
    · intro k _ hk
      rw [List.length_map] at hk
      obtain ⟨reached, _, hwalk, hderef, _⟩ := hsteps k _ (List.getElem?_eq_getElem hk)
      rw [List.getElem_map, List.getElem_map, List.getElem_range]
      show ((table.begin_iterator IsConst).walk k).bind IteratorImpl.deref = _
      rw [hwalk, Option.bind_some, hderef]

end Raw

end HashMap

end treenity.data_structures

import Mathlib.Algebra.Order.Floor.Ring
import Mathlib.Data.List.Nodup
import Mathlib.Data.Rat.Floor
import Treenity.Foundation.Buckets

open treenity.foundation

namespace treenity.data_structures

/-- What a hash table computes with its load factor, which is a `float`: the comparison
with `0.0f`, the value `0.75f`, `elements / buckets > factor` and
`ceil(elements / factor)`. No law is asked of them. -/
class LoadFactor (F : Type) where
  positive : F → Bool
  three_quarters : F
  exceeded : Nat → Nat → F → Bool
  required : Nat → F → Nat

/-- Exact arithmetic, for tables that are evaluated. -/
instance : LoadFactor ℚ where
  positive factor := decide (factor > 0)
  three_quarters := 3 / 4
  exceeded elements buckets factor := decide ((elements : ℚ) / buckets > factor)
  required elements factor := ⌈(elements : ℚ) / factor⌉₊

/-- The arithmetic of the source. -/
instance : LoadFactor Float32 where
  positive factor := decide (factor > 0)
  three_quarters := 0.75
  exceeded elements buckets factor := decide (Float32.ofNat elements / Float32.ofNat buckets > factor)
  required elements factor := (Float32.ofNat elements / factor).ceil.toUInt64.toNat

/-- The members of `HashMap<Key, Value, Hash>`. The hasher is the parameter `hash` of
the operations. -/
structure HashMap.Raw (Key Value : Type) (F : Type := ℚ) where
  buckets : List (List (Key × Value))
  num_elements : Nat
  max_load_factor : F

namespace HashMap.Raw

variable {Key Value F : Type}

def new [LoadFactor F] (initial_capacity : Nat) (max_load_factor : F) : Raw Key Value F where
  buckets := List.replicate (if initial_capacity > 0 then initial_capacity else 16) []
  num_elements := 0
  max_load_factor := if LoadFactor.positive max_load_factor then max_load_factor else LoadFactor.three_quarters

def size (self : Raw Key Value F) : Nat := self.num_elements

def bucket_count (self : Raw Key Value F) : Nat := self.buckets.length

def get_index (hash : Key → Nat) (self : Raw Key Value F) (key : Key) : Nat :=
  hash key % self.buckets.length

/-- The pairs in iteration order, from the first bucket to the last. -/
def entries (self : Raw Key Value F) : List (Key × Value) := self.buckets.flatten

def find_entry [DecidableEq Key] (hash : Key → Nat) (self : Raw Key Value F) (key : Key) : Option (Key × Value) :=
  (self.buckets.getD (self.get_index hash key) []).find? (fun entry => entry.1 == key)

def find [DecidableEq Key] (hash : Key → Nat) (self : Raw Key Value F) (key : Key) : Option Value :=
  (self.find_entry hash key).map Prod.snd

def contains [DecidableEq Key] (hash : Key → Nat) (self : Raw Key Value F) (key : Key) : Bool :=
  (self.find hash key).isSome

/-- Moves every entry, in iteration order, to the back of its new bucket. -/
def rehash (hash : Key → Nat) (self : Raw Key Value F) (new_capacity : Nat) : Raw Key Value F :=
  { self with
    buckets := self.entries.foldl
      (fun new_buckets entry => new_buckets.modify (hash entry.1 % new_capacity) (· ++ [entry]))
      (List.replicate new_capacity []) }

/-- The growth check that precedes every insertion of a new key. -/
def grow [LoadFactor F] (hash : Key → Nat) (self : Raw Key Value F) : Raw Key Value F :=
  if LoadFactor.exceeded (self.num_elements + 1) self.buckets.length self.max_load_factor then
    self.rehash hash (self.buckets.length * 2)
  else self

def safe_insert [LoadFactor F] (hash : Key → Nat) (self : Raw Key Value F) (key : Key) (value : Value) :
    Raw Key Value F :=
  let grown := self.grow hash
  { grown with
    buckets := grown.buckets.modify (grown.get_index hash key) (· ++ [(key, value)])
    num_elements := grown.num_elements + 1 }

/-- Assigning through the pointer that `find_entry` returned. -/
def assign [DecidableEq Key] (key : Key) (value : Value) : List (Key × Value) → List (Key × Value)
  | [] => []
  | entry :: rest => if entry.1 = key then (entry.1, value) :: rest else entry :: assign key value rest

def replace [DecidableEq Key] (hash : Key → Nat) (self : Raw Key Value F) (key : Key) (value : Value) :
    Bool × Raw Key Value F :=
  match self.find_entry hash key with
  | none => (false, self)
  | some _ =>
    (true, { self with buckets := self.buckets.modify (self.get_index hash key) (assign key value) })

def insert [LoadFactor F] [DecidableEq Key] (hash : Key → Nat) (self : Raw Key Value F) (key : Key) (value : Value) :
    Bool × Raw Key Value F :=
  match self.find_entry hash key with
  | some _ => (false, self)
  | none => (true, self.safe_insert hash key value)

def insert_or_assign [LoadFactor F] [DecidableEq Key] (hash : Key → Nat) (self : Raw Key Value F) (key : Key) (value : Value) :
    Bool × Raw Key Value F :=
  match self.replace hash key value with
  | (true, replaced) => (false, replaced)
  | (false, _) => (true, self.safe_insert hash key value)

/-- `operator[]`, which makes sure that an entry exists; `dflt` is `Value{}`.
The reference it returns is read with `find` and assigned with `replace`. -/
def subscript [LoadFactor F] [DecidableEq Key] (hash : Key → Nat) (self : Raw Key Value F) (key : Key) (dflt : Value) : Raw Key Value F :=
  match self.find_entry hash key with
  | some _ => self
  | none => self.safe_insert hash key dflt

def reserve [LoadFactor F] (hash : Key → Nat) (self : Raw Key Value F) (count : Nat) : Raw Key Value F :=
  let required_buckets := LoadFactor.required count self.max_load_factor
  if required_buckets > self.buckets.length then self.rehash hash required_buckets else self

def erase [DecidableEq Key] (hash : Key → Nat) (self : Raw Key Value F) (key : Key) : Bool × Raw Key Value F :=
  match self.find_entry hash key with
  | none => (false, self)
  | some _ =>
    (true,
      { self with
        buckets := self.buckets.modify (self.get_index hash key) (List.eraseP fun entry => entry.1 == key)
        num_elements := self.num_elements - 1 })

def clear (self : Raw Key Value F) : Raw Key Value F :=
  { self with buckets := self.buckets.map (fun _ => []), num_elements := 0 }

/-- The representation invariant: there is a bucket to reduce a hash to, each
entry is in the bucket of its hash, no key occurs twice and the counter counts. -/
structure Valid (hash : Key → Nat) (table : Raw Key Value F) : Prop where
  nonempty : 0 < table.buckets.length
  placed : Placed (fun entry => hash entry.1 % table.buckets.length) table.buckets
  nodup : (table.entries.map Prod.fst).Nodup
  counted : table.num_elements = table.entries.length

theorem new_valid [LoadFactor F] (hash : Key → Nat) (initial_capacity : Nat) (max_load_factor : F) :
    (new initial_capacity max_load_factor : Raw Key Value F).Valid hash := by
  have hentries : (new initial_capacity max_load_factor : Raw Key Value F).entries = [] := by
    simp [new, entries]
  refine ⟨?_, Placed.replicate_nil _ _, by simp [hentries], by rw [hentries]; rfl⟩
  simp only [new, List.length_replicate]
  split <;> omega

/-- Filling empty buckets one entry at a time keeps their number, places every
entry and holds exactly the entries that were moved. -/
private theorem fill_spec (hash : Key → Nat) {capacity : Nat} (hcapacity : 0 < capacity)
    (moved : List (Key × Value)) (start : List (List (Key × Value))) (hlength : start.length = capacity)
    (hplaced : Placed (fun entry => hash entry.1 % capacity) start) :
    let filled := moved.foldl
      (fun new_buckets entry => new_buckets.modify (hash entry.1 % capacity) (· ++ [entry])) start
    filled.length = capacity ∧ Placed (fun entry => hash entry.1 % capacity) filled ∧
      filled.flatten.Perm (moved ++ start.flatten) := by
  induction moved generalizing start with
  | nil => exact ⟨hlength, hplaced, List.Perm.refl _⟩
  | cons entry rest ih =>
    have hindex : hash entry.1 % capacity < start.length := by
      rw [hlength]
      exact Nat.mod_lt _ hcapacity
    have hnext : Placed (fun entry => hash entry.1 % capacity)
        (start.modify (hash entry.1 % capacity) (· ++ [entry])) := by
      refine hplaced.modify _ _ (fun row hrow e he => ?_)
      rcases List.mem_append.mp he with hold | hnew
      · exact hrow e hold
      · rw [List.mem_singleton.mp hnew]
    obtain ⟨hlen, hplace, hperm⟩ := ih _ (by simpa using hlength) hnext
    refine ⟨hlen, hplace, hperm.trans ?_⟩
    apply ((flatten_modify_append_perm hindex [entry]).append_left rest).trans
    simp [List.perm_middle]

/-- Rehashing keeps the stored pairs, the counter and the load factor. -/
theorem Valid.rehash {hash : Key → Nat} {self : Raw Key Value F} (hvalid : self.Valid hash)
    (new_capacity : Nat) (hcapacity : 0 < new_capacity) :
    (self.rehash hash new_capacity).Valid hash ∧
      (self.rehash hash new_capacity).entries.Perm self.entries ∧
      (self.rehash hash new_capacity).buckets.length = new_capacity := by
  obtain ⟨hlength, hplaced, hperm⟩ := fill_spec hash hcapacity self.entries
    (List.replicate new_capacity []) (by simp) (Placed.replicate_nil _ _)
  have hperm : (self.rehash hash new_capacity).entries.Perm self.entries := by
    simpa [Raw.rehash, entries] using hperm
  refine ⟨⟨?_, ?_, ?_, ?_⟩, hperm, hlength⟩
  · simp only [Raw.rehash, hlength, hcapacity]
  · simpa only [Raw.rehash, hlength] using hplaced
  · exact (hperm.map Prod.fst).nodup_iff.mpr hvalid.nodup
  · exact hvalid.counted.trans hperm.length_eq.symm

theorem Valid.grow [LoadFactor F] {hash : Key → Nat} {self : Raw Key Value F} (hvalid : self.Valid hash) :
    (self.grow hash).Valid hash ∧ (self.grow hash).entries.Perm self.entries := by
  have hlength := hvalid.nonempty
  unfold Raw.grow
  split
  · obtain ⟨hgrown, hperm, _⟩ := hvalid.rehash (self.buckets.length * 2) (by omega)
    exact ⟨hgrown, hperm⟩
  · exact ⟨hvalid, List.Perm.refl _⟩

variable [DecidableEq Key]

/-- Buckets are searched one at a time; with valid placement that is a search of
all entries. -/
theorem Valid.find_entry_eq {hash : Key → Nat} {self : Raw Key Value F} (hvalid : self.Valid hash)
    (key : Key) : self.find_entry hash key = self.entries.find? (fun entry => entry.1 == key) := by
  refine (hvalid.placed.find?_flatten _ (self.get_index hash key) ?_).symm
  intro entry hentry
  rw [beq_iff_eq.mp hentry]
  rfl

/-- A lookup answers `value` exactly when the pair is stored. -/
theorem Valid.find_eq_some_iff {hash : Key → Nat} {self : Raw Key Value F} (hvalid : self.Valid hash)
    (key : Key) (value : Value) : self.find hash key = some value ↔ (key, value) ∈ self.entries := by
  rw [find, hvalid.find_entry_eq, Option.map_eq_some_iff]
  constructor
  · rintro ⟨⟨k, v⟩, hfind, rfl⟩
    have hkey : k = key := by simpa using List.find?_some hfind
    exact hkey ▸ List.mem_of_find?_eq_some hfind
  · intro hmem
    cases hfind : self.entries.find? (fun entry => entry.1 == key) with
    | none =>
      have habsent := List.find?_eq_none.mp hfind _ hmem
      simp at habsent
    | some entry =>
      obtain ⟨k, v⟩ := entry
      have hkey : k = key := by simpa using List.find?_some hfind
      subst hkey
      have hsame := List.inj_on_of_nodup_map hvalid.nodup (List.mem_of_find?_eq_some hfind) hmem rfl
      exact ⟨_, rfl, congrArg Prod.snd hsame⟩

theorem Valid.find_entry_none_iff {hash : Key → Nat} {self : Raw Key Value F}
    (hvalid : self.Valid hash) (key : Key) :
    self.find_entry hash key = none ↔ key ∉ self.entries.map Prod.fst := by
  rw [hvalid.find_entry_eq, List.find?_eq_none]
  constructor
  · intro hnone hmem
    obtain ⟨entry, hentry, hkey⟩ := List.mem_map.mp hmem
    exact hnone entry hentry (beq_iff_eq.mpr hkey)
  · intro habsent entry hentry hkey
    exact habsent (List.mem_map.mpr ⟨entry, hentry, beq_iff_eq.mp hkey⟩)

/-- Lookups depend on the stored pairs only, not on their buckets or order. -/
theorem Valid.find_congr {hash : Key → Nat} {self other : Raw Key Value F} (hself : self.Valid hash)
    (hother : other.Valid hash) (hmem : ∀ entry, entry ∈ self.entries ↔ entry ∈ other.entries)
    (key : Key) : self.find hash key = other.find hash key := by
  apply Option.ext
  intro value
  rw [hself.find_eq_some_iff, hother.find_eq_some_iff, hmem]

/-- Inserting a key that is absent adds one pair, growing the table first when
the load factor asks for it. -/
theorem Valid.safe_insert [LoadFactor F] {hash : Key → Nat} {self : Raw Key Value F} (hvalid : self.Valid hash)
    {key : Key} (value : Value) (habsent : self.find_entry hash key = none) :
    (self.safe_insert hash key value).Valid hash ∧
      (self.safe_insert hash key value).entries.Perm ((key, value) :: self.entries) := by
  obtain ⟨hgrown, hsame⟩ := hvalid.grow
  have hindex : (self.grow hash).get_index hash key < (self.grow hash).buckets.length :=
    Nat.mod_lt _ hgrown.nonempty
  have hperm : (self.safe_insert hash key value).entries.Perm ((key, value) :: self.entries) :=
    (flatten_modify_append_perm hindex [(key, value)]).trans (hsame.cons _)
  refine ⟨⟨?_, ?_, ?_, ?_⟩, hperm⟩
  · simpa [Raw.safe_insert] using hgrown.nonempty
  · have hplaced := hgrown.placed.modify ((self.grow hash).get_index hash key) (· ++ [(key, value)]) (by
      intro row hrow e he
      rcases List.mem_append.mp he with hold | hnew
      · exact hrow e hold
      · rw [List.mem_singleton.mp hnew]
        rfl)
    simpa [Raw.safe_insert] using hplaced
  · rw [(hperm.map Prod.fst).nodup_iff, List.map_cons, List.nodup_cons]
    exact ⟨(hvalid.find_entry_none_iff key).mp habsent, hvalid.nodup⟩
  · have hcounted := hgrown.counted
    rw [hperm.length_eq, List.length_cons, ← hsame.length_eq, ← hcounted]
    rfl

theorem Valid.find_safe_insert [LoadFactor F] {hash : Key → Nat} {self : Raw Key Value F} (hvalid : self.Valid hash)
    {key : Key} (value : Value) (habsent : self.find_entry hash key = none) (other : Key) :
    (self.safe_insert hash key value).find hash other =
      if other = key then some value else self.find hash other := by
  obtain ⟨hinserted, hperm⟩ := hvalid.safe_insert value habsent
  have hkey := (hvalid.find_entry_none_iff key).mp habsent
  apply Option.ext
  intro found
  rw [hinserted.find_eq_some_iff, hperm.mem_iff, List.mem_cons]
  by_cases hother : other = key
  · subst hother
    have hnot : (other, found) ∉ self.entries := fun hmem =>
      hkey (List.mem_map.mpr ⟨_, hmem, rfl⟩)
    simp [hnot, eq_comm]
  · simp [hother, hvalid.find_eq_some_iff]

end HashMap.Raw

end treenity.data_structures

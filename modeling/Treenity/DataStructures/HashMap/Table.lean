import Treenity.DataStructures.HashMap.Lookup

namespace treenity.data_structures

/-- A hash table together with its representation invariant. -/
structure HashMap (Key Value : Type) (hash : Key → Nat) where
  raw : HashMap.Raw Key Value
  valid : raw.Valid hash

namespace HashMap

variable {Key Value : Type} {hash : Key → Nat}

/-- The default constructor: 16 buckets and a load factor of 0.75. -/
def new : HashMap Key Value hash := ⟨Raw.new 16 (3 / 4), Raw.new_valid hash 16 (3 / 4)⟩

def entries (self : HashMap Key Value hash) : List (Key × Value) := self.raw.entries

def keys (self : HashMap Key Value hash) : List Key := self.entries.map Prod.fst

def clear (self : HashMap Key Value hash) : HashMap Key Value hash :=
  ⟨self.raw.clear, self.valid.clear.1⟩

theorem keys_nodup (self : HashMap Key Value hash) : self.keys.Nodup := self.valid.nodup

variable [DecidableEq Key]

def find (self : HashMap Key Value hash) (key : Key) : Option Value := self.raw.find hash key

def contains (self : HashMap Key Value hash) (key : Key) : Bool := self.raw.contains hash key

def replace (self : HashMap Key Value hash) (key : Key) (value : Value) : HashMap Key Value hash :=
  ⟨(self.raw.replace hash key value).2, (self.valid.replace key value).1⟩

def erase (self : HashMap Key Value hash) (key : Key) : HashMap Key Value hash :=
  ⟨(self.raw.erase hash key).2, (self.valid.erase key).1⟩

def subscript (self : HashMap Key Value hash) (key : Key) (dflt : Value) : HashMap Key Value hash :=
  ⟨self.raw.subscript hash key dflt, (self.valid.subscript key dflt).1⟩

def insert (self : HashMap Key Value hash) (key : Key) (value : Value) : HashMap Key Value hash :=
  ⟨(self.raw.insert hash key value).2, (self.valid.insert key value).1⟩

def insert_or_assign (self : HashMap Key Value hash) (key : Key) (value : Value) :
    HashMap Key Value hash :=
  ⟨(self.raw.insert_or_assign hash key value).2, (self.valid.insert_or_assign key value).1⟩

theorem contains_eq (self : HashMap Key Value hash) (key : Key) :
    self.contains key = (self.find key).isSome := rfl

@[simp] theorem find_new (key : Key) : (new : HashMap Key Value hash).find key = none := by
  apply Option.eq_none_iff_forall_ne_some.mpr
  intro value hfind
  have hmem := ((Raw.new_valid hash 16 (3 / 4)).find_eq_some_iff key value).mp hfind
  simp [Raw.new, Raw.entries] at hmem

@[simp] theorem find_clear (self : HashMap Key Value hash) (key : Key) : self.clear.find key = none := by
  apply Option.eq_none_iff_forall_ne_some.mpr
  intro value hfind
  have hmem := (self.valid.clear.1.find_eq_some_iff key value).mp hfind
  rw [self.valid.clear.2] at hmem
  cases hmem

@[simp] theorem find_insert_or_assign (self : HashMap Key Value hash) (key : Key) (value : Value)
    (other : Key) : (self.insert_or_assign key value).find other =
      if other = key then some value else self.find other :=
  (self.valid.insert_or_assign key value).2.2 other

@[simp] theorem find_erase (self : HashMap Key Value hash) (key other : Key) :
    (self.erase key).find other = if other = key then none else self.find other :=
  (self.valid.erase key).2.2 other

theorem find_replace (self : HashMap Key Value hash) (key : Key) (value : Value) (other : Key) :
    (self.replace key value).find other =
      if other = key ∧ (self.find key).isSome then some value else self.find other :=
  (self.valid.replace key value).2.2 other

/-- Writing through the pointer of a successful lookup. -/
theorem find_replace_of_find {self : HashMap Key Value hash} {key : Key} {old : Value}
    (hfound : self.find key = some old) (value : Value) (other : Key) :
    (self.replace key value).find other = if other = key then some value else self.find other := by
  rw [find_replace, hfound]
  simp

@[simp] theorem find_subscript (self : HashMap Key Value hash) (key : Key) (dflt : Value) (other : Key) :
    (self.subscript key dflt).find other =
      if other = key then some ((self.find key).getD dflt) else self.find other :=
  (self.valid.subscript key dflt).2 other

@[simp] theorem find_insert (self : HashMap Key Value hash) (key : Key) (value : Value) (other : Key) :
    (self.insert key value).find other =
      if other = key then some ((self.find key).getD value) else self.find other :=
  (self.valid.insert key value).2.2 other

theorem mem_entries_of_find {self : HashMap Key Value hash} {key : Key} {value : Value}
    (hfind : self.find key = some value) : (key, value) ∈ self.entries :=
  (self.valid.find_eq_some_iff key value).mp hfind

theorem find_of_mem_entries {self : HashMap Key Value hash} {key : Key} {value : Value}
    (hmem : (key, value) ∈ self.entries) : self.find key = some value :=
  (self.valid.find_eq_some_iff key value).mpr hmem

/-- The iteration visits the keys that lookups find. -/
theorem mem_keys_iff (self : HashMap Key Value hash) (key : Key) :
    key ∈ self.keys ↔ (self.find key).isSome := by
  rw [Option.isSome_iff_exists, keys, List.mem_map]
  constructor
  · rintro ⟨⟨k, value⟩, hmem, rfl⟩
    exact ⟨value, (self.valid.find_eq_some_iff k value).mpr hmem⟩
  · rintro ⟨value, hfind⟩
    exact ⟨_, (self.valid.find_eq_some_iff key value).mp hfind, rfl⟩

/-- An iteration that has something to say at one key only says it once. -/
theorem flatMap_entries_of_key {Item : Type} (self : HashMap Key Value hash) (key : Key)
    {visit : Key × Value → List Item}
    (hothers : ∀ other value, self.find other = some value → other ≠ key → visit (other, value) = []) :
    self.entries.flatMap visit = ((self.find key).map fun value => visit (key, value)).getD [] := by
  cases hfind : self.find key with
  | none =>
    rw [Option.map_none, Option.getD_none, List.flatMap_eq_nil_iff]
    rintro ⟨other, value⟩ hentry
    have hother := find_of_mem_entries hentry
    apply hothers other value hother
    rintro rfl
    rw [hfind] at hother
    cases hother
  | some value =>
    obtain ⟨before, after, hentries⟩ := List.append_of_mem (mem_entries_of_find hfind)
    have hnodup : (self.entries.map Prod.fst).Nodup := self.keys_nodup
    rw [hentries, List.map_append, List.map_cons, List.nodup_append, List.nodup_cons] at hnodup
    obtain ⟨_, ⟨hafter, _⟩, hbefore⟩ := hnodup
    have hsilent : ∀ part : List (Key × Value), (∀ entry ∈ part, entry ∈ self.entries ∧ entry.1 ≠ key) →
        part.flatMap visit = [] := by
      intro part hpart
      rw [List.flatMap_eq_nil_iff]
      rintro ⟨other, found⟩ hentry
      obtain ⟨hmem, hother⟩ := hpart _ hentry
      exact hothers other found (find_of_mem_entries hmem) hother
    rw [hentries, List.flatMap_append, List.flatMap_cons, hsilent before, hsilent after]
    · simp
    · intro entry hentry
      refine ⟨hentries ▸ by simp [hentry], ?_⟩
      intro hkey
      exact hafter (List.mem_map.mpr ⟨entry, hentry, hkey⟩)
    · intro entry hentry
      refine ⟨hentries ▸ by simp [hentry], ?_⟩
      exact hbefore entry.1 (List.mem_map_of_mem hentry) key (by simp)

end HashMap

end treenity.data_structures

import Mathlib.Data.Finmap
import Treenity.DataStructures.HashMap.Lookup
import Treenity.Foundation.Simulation

open treenity.foundation

namespace treenity.data_structures

namespace HashMap.Raw

section Members

variable {Key Value F : Type}

def empty (self : Raw Key Value F) : Bool := self.num_elements == 0

/-- `at`; the error is the text of the `std::out_of_range`. -/
def at_key [DecidableEq Key] (hash : Key → Nat) (self : Raw Key Value F) (key : Key) : Except String Value :=
  match self.find_entry hash key with
  | some entry => .ok entry.2
  | none => .error "HashMap::at: key not found"

/-- `operator[](Key&&)`, which differs from the other overload in moving the key into the new entry. -/
def subscript_move [LoadFactor F] [DecidableEq Key] (hash : Key → Nat) (self : Raw Key Value F) (key : Key)
    (dflt : Value) : Raw Key Value F :=
  self.subscript hash key dflt

/-- The loop of the two `insert` overloads that take several pairs. -/
def insert_each [LoadFactor F] [DecidableEq Key] (hash : Key → Nat) (self : Raw Key Value F)
    (pairs : List (Key × Value)) : Raw Key Value F :=
  pairs.foldl (fun table pair => (table.insert hash pair.1 pair.2).2) self

/-- `insert(first, last)`; `forward` says whether the iterators are at least forward iterators. -/
def insert_range [LoadFactor F] [DecidableEq Key] (hash : Key → Nat) (self : Raw Key Value F) (forward : Bool)
    (range : List (Key × Value)) : Raw Key Value F :=
  let reserved := if forward then self.reserve hash (self.num_elements + range.length) else self
  reserved.insert_each hash range

def insert_list [LoadFactor F] [DecidableEq Key] (hash : Key → Nat) (self : Raw Key Value F)
    (list : List (Key × Value)) : Raw Key Value F :=
  (self.reserve hash (self.num_elements + list.length)).insert_each hash list

def calculate_initial_capacity [LoadFactor F] (elements : Nat) (load_factor : F) : Nat :=
  let factor := if LoadFactor.positive load_factor then load_factor else LoadFactor.three_quarters
  max 16 (LoadFactor.required elements factor)

/-- The constructor from an initializer list. -/
def of_list [LoadFactor F] [DecidableEq Key] (hash : Key → Nat) (init_list : List (Key × Value))
    (max_load_factor : F) : Raw Key Value F :=
  (new (calculate_initial_capacity init_list.length max_load_factor) max_load_factor).insert_list hash init_list

/-- What a move leaves behind: the vector it took is empty and `resize(1)` gives it a bucket. -/
def moved_from (other : Raw Key Value F) : Raw Key Value F :=
  { other with buckets := [[]], num_elements := 0 }

/-- `operator=(HashMap&&)` from another object. The load factor stays. -/
def move_assign (self other : Raw Key Value F) : Raw Key Value F :=
  { self with buckets := other.buckets, num_elements := other.num_elements }

end Members

section Edits

variable {Key Value F : Type}

/-- The operations that change one map, with their arguments. An assignment through the
reference that `operator[]` returned belongs to it. -/
inductive Edit (Key Value : Type) where
  | insert (key : Key) (value : Value)
  | insert_or_assign (key : Key) (value : Value)
  | replace (key : Key) (value : Value)
  | subscript (key : Key) (value : Value)
  | subscript_move (key : Key) (value : Value)
  | erase (key : Key)
  | clear
  | reserve (count : Nat)
  | insert_range (forward : Bool) (range : List (Key × Value))
  | insert_list (list : List (Key × Value))

variable [DecidableEq Key]

/-- The `bool` an operation returns, if it does, and the table after it. -/
def edit [LoadFactor F] [Inhabited Value] (hash : Key → Nat) (self : Raw Key Value F) :
    Edit Key Value → Option Bool × Raw Key Value F
  | .insert key value => (some (self.insert hash key value).1, (self.insert hash key value).2)
  | .insert_or_assign key value =>
    (some (self.insert_or_assign hash key value).1, (self.insert_or_assign hash key value).2)
  | .replace key value => (some (self.replace hash key value).1, (self.replace hash key value).2)
  | .subscript key value => (none, ((self.subscript hash key default).replace hash key value).2)
  | .subscript_move key value => (none, ((self.subscript_move hash key default).replace hash key value).2)
  | .erase key => (some (self.erase hash key).1, (self.erase hash key).2)
  | .clear => (none, self.clear)
  | .reserve count => (none, self.reserve hash count)
  | .insert_range forward range => (none, self.insert_range hash forward range)
  | .insert_list list => (none, self.insert_list hash list)

/-- The finite map a table stands for. -/
abbrev Meaning (Key Value : Type) := Finmap fun _ : Key => Value

/-- Adding pairs whose keys are new, the first of each key. -/
def Meaning.add_new (map : Meaning Key Value) (pairs : List (Key × Value)) : Meaning Key Value :=
  pairs.foldl (fun map pair => if pair.1 ∈ map then map else map.insert pair.1 pair.2) map

/-- What each operation means for a finite map. -/
def Meaning.edit (map : Meaning Key Value) : Edit Key Value → Option Bool × Meaning Key Value
  | .insert key value => (some (decide (key ∉ map)), if key ∈ map then map else map.insert key value)
  | .insert_or_assign key value => (some (decide (key ∉ map)), map.insert key value)
  | .replace key value => (some (decide (key ∈ map)), if key ∈ map then map.insert key value else map)
  | .subscript key value => (none, map.insert key value)
  | .subscript_move key value => (none, map.insert key value)
  | .erase key => (some (decide (key ∈ map)), map.erase key)
  | .clear => (none, ∅)
  | .reserve _ => (none, map)
  | .insert_range _ range => (none, map.add_new range)
  | .insert_list list => (none, map.add_new list)

/-- A table is well formed and its lookups are those of the map. -/
structure Represents (hash : Key → Nat) (table : Raw Key Value F) (map : Meaning Key Value) : Prop where
  valid : table.Valid hash
  find_eq : ∀ key, table.find hash key = map.lookup key


theorem Represents.mem_iff {hash : Key → Nat} {table : Raw Key Value F} {map : Meaning Key Value}
    (hrep : Represents hash table map) (key : Key) : key ∈ map ↔ (table.find hash key).isSome := by
  rw [hrep.find_eq, Finmap.lookup_isSome]

theorem Represents.isNone_eq {hash : Key → Nat} {table : Raw Key Value F} {map : Meaning Key Value}
    (hrep : Represents hash table map) (key : Key) :
    (table.find hash key).isNone = decide (key ∉ map) := by
  rw [Bool.eq_iff_iff, decide_eq_true_iff, Option.isNone_iff_eq_none, hrep.find_eq, Finmap.lookup_eq_none]

theorem Represents.isSome_eq {hash : Key → Nat} {table : Raw Key Value F} {map : Meaning Key Value}
    (hrep : Represents hash table map) (key : Key) :
    (table.find hash key).isSome = decide (key ∈ map) := by
  rw [Bool.eq_iff_iff, decide_eq_true_iff, hrep.mem_iff]

/-- The keys stored in the buckets are the keys of the map. -/
theorem Represents.keys_eq {hash : Key → Nat} {table : Raw Key Value F} {map : Meaning Key Value}
    (hrep : Represents hash table map) : (table.entries.map Prod.fst).toFinset = map.keys := by
  apply Finset.ext
  intro key
  rw [List.mem_toFinset, Finmap.mem_keys, hrep.mem_iff, Option.isSome_iff_exists, List.mem_map]
  constructor
  · rintro ⟨⟨k, value⟩, hmem, rfl⟩
    exact ⟨value, (hrep.valid.find_eq_some_iff k value).mpr hmem⟩
  · rintro ⟨value, hfind⟩
    exact ⟨_, (hrep.valid.find_eq_some_iff key value).mp hfind, rfl⟩

theorem Represents.size_eq {hash : Key → Nat} {table : Raw Key Value F} {map : Meaning Key Value}
    (hrep : Represents hash table map) : table.size = map.keys.card := by
  rw [← hrep.keys_eq, List.toFinset_card_of_nodup hrep.valid.nodup, List.length_map]
  exact hrep.valid.counted

theorem Represents.empty_iff {hash : Key → Nat} {table : Raw Key Value F} {map : Meaning Key Value}
    (hrep : Represents hash table map) : table.empty = true ↔ map = ∅ := by
  have hsize := hrep.size_eq
  rw [Raw.empty, beq_iff_eq, show table.num_elements = map.keys.card from hsize, Finset.card_eq_zero]
  constructor
  · intro hkeys
    apply Finmap.ext_lookup
    intro key
    have habsent : key ∉ map := fun hmem => by
      have := Finmap.mem_keys.mpr hmem
      rw [hkeys] at this
      cases this
    rw [Finmap.lookup_empty, Finmap.lookup_eq_none.mpr habsent]
  · rintro rfl
    exact Finmap.keys_empty

theorem Represents.at_key_eq {hash : Key → Nat} {table : Raw Key Value F} {map : Meaning Key Value}
    (hrep : Represents hash table map) (key : Key) :
    table.at_key hash key = (map.lookup key).elim (.error "HashMap::at: key not found") .ok := by
  rw [← hrep.find_eq, at_key, find]
  cases table.find_entry hash key <;> rfl

omit [DecidableEq Key] in
/-- Reserving buckets moves entries between them and changes nothing else. -/
theorem Valid.reserve [LoadFactor F] {hash : Key → Nat} {table : Raw Key Value F} (hvalid : table.Valid hash)
    (count : Nat) :
    (table.reserve hash count).Valid hash ∧ (table.reserve hash count).entries.Perm table.entries := by
  unfold Raw.reserve
  dsimp only
  split
  · obtain ⟨hreserved, hperm, _⟩ := hvalid.rehash (LoadFactor.required count table.max_load_factor) (by omega)
    exact ⟨hreserved, hperm⟩
  · exact ⟨hvalid, List.Perm.refl _⟩

theorem Meaning.lookup_insert (map : Meaning Key Value) (key : Key) (value : Value) (other : Key) :
    (map.insert key value).lookup other = if other = key then some value else map.lookup other := by
  by_cases hother : other = key
  · rw [if_pos hother, hother, Finmap.lookup_insert]
  · rw [if_neg hother, Finmap.lookup_insert_of_ne _ hother]

theorem Meaning.lookup_erase (map : Meaning Key Value) (key other : Key) :
    (map.erase key).lookup other = if other = key then none else map.lookup other := by
  by_cases hother : other = key
  · rw [if_pos hother, hother, Finmap.lookup_erase]
  · rw [if_neg hother, Finmap.lookup_erase_ne hother]

variable {hash : Key → Nat} {table : Raw Key Value F} {map : Meaning Key Value}

/-- A table without entries stands for the empty map. -/
theorem Represents.of_no_entries (hvalid : table.Valid hash) (hentries : table.entries = []) :
    Represents hash table ∅ := by
  refine ⟨hvalid, fun key => ?_⟩
  rw [Finmap.lookup_empty]
  apply Option.eq_none_iff_forall_ne_some.mpr
  intro value hfind
  have hmem := (hvalid.find_eq_some_iff key value).mp hfind
  rw [hentries] at hmem
  cases hmem

theorem Represents.insert [LoadFactor F] (hrep : Represents hash table map) (key : Key) (value : Value) :
    Represents hash (table.insert hash key value).2 (if key ∈ map then map else map.insert key value) := by
  obtain ⟨hvalid, _, hfind⟩ := hrep.valid.insert key value
  refine ⟨hvalid, fun other => ?_⟩
  rw [hfind, hrep.find_eq, hrep.find_eq]
  by_cases hkey : key ∈ map
  · obtain ⟨old, hold⟩ := Finmap.mem_iff.mp hkey
    rw [if_pos hkey, hold]
    by_cases hother : other = key
    · rw [if_pos hother, hother, hold]
      rfl
    · rw [if_neg hother]
  · rw [if_neg hkey, Finmap.lookup_eq_none.mpr hkey, Meaning.lookup_insert]
    rfl

theorem Represents.insert_or_assign [LoadFactor F] (hrep : Represents hash table map) (key : Key) (value : Value) :
    Represents hash (table.insert_or_assign hash key value).2 (map.insert key value) := by
  obtain ⟨hvalid, _, hfind⟩ := hrep.valid.insert_or_assign key value
  refine ⟨hvalid, fun other => ?_⟩
  rw [hfind, hrep.find_eq, Meaning.lookup_insert]

theorem Represents.replace (hrep : Represents hash table map) (key : Key) (value : Value) :
    Represents hash (table.replace hash key value).2 (if key ∈ map then map.insert key value else map) := by
  obtain ⟨hvalid, _, hfind⟩ := hrep.valid.replace key value
  refine ⟨hvalid, fun other => ?_⟩
  rw [hfind, hrep.isSome_eq, hrep.find_eq]
  by_cases hkey : key ∈ map
  · simp [hkey, Meaning.lookup_insert]
  · simp [hkey]

/-- Assigning through `operator[]`: the key is there when the assignment happens. -/
theorem Represents.subscript [LoadFactor F] (hrep : Represents hash table map) (key : Key) (dflt value : Value) :
    Represents hash ((table.subscript hash key dflt).replace hash key value).2 (map.insert key value) := by
  obtain ⟨hvalid, hfind⟩ := hrep.valid.subscript key dflt
  obtain ⟨hassigned, _, hreplace⟩ := hvalid.replace key value
  refine ⟨hassigned, fun other => ?_⟩
  rw [hreplace, hfind, hfind, Meaning.lookup_insert, hrep.find_eq]
  by_cases hother : other = key
  · simp [hother]
  · simp [hother, hrep.find_eq]

theorem Represents.erase (hrep : Represents hash table map) (key : Key) :
    Represents hash (table.erase hash key).2 (map.erase key) := by
  obtain ⟨hvalid, _, hfind⟩ := hrep.valid.erase key
  refine ⟨hvalid, fun other => ?_⟩
  rw [hfind, hrep.find_eq, Meaning.lookup_erase]

theorem Represents.reserve [LoadFactor F] (hrep : Represents hash table map) (count : Nat) :
    Represents hash (table.reserve hash count) map := by
  obtain ⟨hvalid, hperm⟩ := hrep.valid.reserve count
  refine ⟨hvalid, fun key => ?_⟩
  rw [hvalid.find_congr hrep.valid (fun _ => hperm.mem_iff), hrep.find_eq]

/-- Pair by pair. -/
theorem Represents.insert_each [LoadFactor F] (hrep : Represents hash table map) (pairs : List (Key × Value)) :
    Represents hash (table.insert_each hash pairs) (map.add_new pairs) := by
  induction pairs generalizing table map with
  | nil => exact hrep
  | cons pair pairs ih => exact ih (hrep.insert pair.1 pair.2)

theorem Represents.insert_list [LoadFactor F] (hrep : Represents hash table map) (list : List (Key × Value)) :
    Represents hash (table.insert_list hash list) (map.add_new list) :=
  (hrep.reserve _).insert_each list

theorem Represents.insert_range [LoadFactor F] (hrep : Represents hash table map) (forward : Bool)
    (range : List (Key × Value)) :
    Represents hash (table.insert_range hash forward range) (map.add_new range) := by
  cases forward with
  | false => exact hrep.insert_each range
  | true => exact (hrep.reserve _).insert_each range

/-- Each operation answers as on the map the table stands for, and keeps standing for it. -/
theorem Represents.edit [LoadFactor F] [Inhabited Value] (hrep : Represents hash table map)
    (e : Edit Key Value) :
    (table.edit hash e).1 = (map.edit e).1 ∧ Represents hash (table.edit hash e).2 (map.edit e).2 := by
  cases e with
  | insert key value =>
    refine ⟨congrArg some ?_, hrep.insert key value⟩
    rw [(hrep.valid.insert key value).2.1, hrep.isNone_eq]
  | insert_or_assign key value =>
    refine ⟨congrArg some ?_, hrep.insert_or_assign key value⟩
    rw [(hrep.valid.insert_or_assign key value).2.1, hrep.isNone_eq]
  | replace key value =>
    refine ⟨congrArg some ?_, hrep.replace key value⟩
    rw [(hrep.valid.replace key value).2.1, hrep.isSome_eq]
  | subscript key value => exact ⟨rfl, hrep.subscript key default value⟩
  | subscript_move key value => exact ⟨rfl, hrep.subscript key default value⟩
  | erase key =>
    refine ⟨congrArg some ?_, hrep.erase key⟩
    rw [(hrep.valid.erase key).2.1, hrep.isSome_eq]
  | clear => exact ⟨rfl, .of_no_entries hrep.valid.clear.1 hrep.valid.clear.2⟩
  | reserve count => exact ⟨rfl, hrep.reserve count⟩
  | insert_range forward range => exact ⟨rfl, hrep.insert_range forward range⟩
  | insert_list list => exact ⟨rfl, hrep.insert_list list⟩

/-- A moved-from table is the empty map, in one bucket. -/
theorem Represents.moved_from (table : Raw Key Value F) : Represents hash table.moved_from ∅ := by
  refine .of_no_entries ⟨Nat.one_pos, ?_, List.nodup_nil, rfl⟩ rfl
  exact Placed.replicate_nil _ 1

theorem Represents.move_assign (hrep : Represents hash table map) (self : Raw Key Value F) :
    Represents hash (self.move_assign table) map := by
  obtain ⟨⟨hnonempty, hplaced, hnodup, hcounted⟩, hfind⟩ := hrep
  exact ⟨⟨hnonempty, hplaced, hnodup, hcounted⟩, hfind⟩

theorem Represents.new [LoadFactor F] (initial_capacity : Nat) (max_load_factor : F) :
    Represents hash (new initial_capacity max_load_factor : Raw Key Value F) ∅ :=
  .of_no_entries (new_valid hash initial_capacity max_load_factor) (by simp [Raw.new, entries])

end Edits

section Objects

variable {ι Key Value F : Type}

/-- The operations of a program on its `HashMap` objects. An object is constructed by
move from another one; copies and move assignments may name the same object twice. -/
inductive Op (ι Key Value F : Type) where
  | construct (x : ι) (initial_capacity : Nat) (max_load_factor : F)
  | construct_list (x : ι) (init_list : List (Key × Value)) (max_load_factor : F)
  | edit (x : ι) (e : Edit Key Value)
  | copy (x y : ι)
  | move_construct (x y : ι) (hne : x ≠ y)
  | move_assign (x y : ι)

variable [DecidableEq ι] [DecidableEq Key]

/-- The `bool` an operation returns, if it does, and the objects after it. -/
def step [LoadFactor F] [Inhabited Value] (hash : Key → Nat) (objects : ι → Raw Key Value F) :
    Op ι Key Value F → Option Bool × (ι → Raw Key Value F)
  | .construct x initial_capacity max_load_factor =>
    (none, Function.update objects x (new initial_capacity max_load_factor))
  | .construct_list x init_list max_load_factor =>
    (none, Function.update objects x (of_list hash init_list max_load_factor))
  | .edit x e => (((objects x).edit hash e).1, Function.update objects x ((objects x).edit hash e).2)
  | .copy x y => (none, Function.update objects x (objects y))
  | .move_construct x y _ =>
    (none, Function.update (Function.update objects x (objects y)) y (objects y).moved_from)
  | .move_assign x y =>
    (none,
      if x = y then objects
      else Function.update (Function.update objects x ((objects x).move_assign (objects y)))
        y (objects y).moved_from)

/-- The same operations on finite maps: a moved-from map is the empty one. -/
def Meaning.step (maps : ι → Meaning Key Value) : Op ι Key Value F → Option Bool × (ι → Meaning Key Value)
  | .construct x _ _ => (none, Function.update maps x ∅)
  | .construct_list x init_list _ => (none, Function.update maps x (Meaning.add_new ∅ init_list))
  | .edit x e => (((maps x).edit e).1, Function.update maps x ((maps x).edit e).2)
  | .copy x y => (none, Function.update maps x (maps y))
  | .move_construct x y _ => (none, Function.update (Function.update maps x (maps y)) y ∅)
  | .move_assign x y =>
    (none, if x = y then maps else Function.update (Function.update maps x (maps y)) y ∅)

/-- One operation on objects that stand for maps. -/
theorem step_represents [LoadFactor F] [Inhabited Value] {hash : Key → Nat} (objects : ι → Raw Key Value F)
    (maps : ι → Meaning Key Value) (op : Op ι Key Value F)
    (hrep : ∀ x, Represents hash (objects x) (maps x)) :
    (step hash objects op).1 = (Meaning.step maps op).1 ∧
      ∀ x, Represents hash ((step hash objects op).2 x) ((Meaning.step maps op).2 x) := by
  cases op with
  | construct x initial_capacity max_load_factor =>
    exact ⟨rfl, related_update hrep x (.new initial_capacity max_load_factor)⟩
  | construct_list x init_list max_load_factor =>
    exact ⟨rfl, related_update hrep x (.insert_list (.new _ max_load_factor) init_list)⟩
  | edit x e =>
    obtain ⟨hanswer, hedited⟩ := (hrep x).edit e
    exact ⟨hanswer, related_update hrep x hedited⟩
  | copy x y => exact ⟨rfl, related_update hrep x (hrep y)⟩
  | move_construct x y hne =>
    exact ⟨rfl, related_update (related_update hrep x (hrep y)) y (.moved_from (objects y))⟩
  | move_assign x y =>
    refine ⟨rfl, ?_⟩
    by_cases hxy : x = y
    · simpa [step, Meaning.step, hxy] using hrep
    · simp only [step, Meaning.step, hxy, if_false]
      exact related_update (related_update hrep x ((hrep y).move_assign (objects x))) y
        (.moved_from (objects y))

/-- The objects of a program after these operations. Before them each is default-constructed. -/
def objects_after [LoadFactor F] [Inhabited Value] (hash : Key → Nat) (ops : List (Op ι Key Value F)) :
    ι → Raw Key Value F :=
  (answers (step hash) (fun _ => new 16 LoadFactor.three_quarters) ops).2

theorem answers_represent [LoadFactor F] [Inhabited Value] (hash : Key → Nat) (ops : List (Op ι Key Value F)) :
    let tables := answers (step hash) (fun _ => new 16 LoadFactor.three_quarters) ops
    let maps := answers Meaning.step (fun _ => ∅) ops
    tables.1 = maps.1 ∧ ∀ x, Represents hash (tables.2 x) (maps.2 x) :=
  answers_agree
    (R := fun (objects : ι → Raw Key Value F) (maps : ι → Meaning Key Value) =>
      ∀ x, Represents hash (objects x) (maps x))
    step_represents
    (fun _ => Represents.new 16 LoadFactor.three_quarters) ops

theorem objects_after_represents [LoadFactor F] [Inhabited Value] (hash : Key → Nat)
    (ops : List (Op ι Key Value F)) (x : ι) :
    Represents hash (objects_after hash ops x)
      ((answers (Meaning.step : (ι → Meaning Key Value) → Op ι Key Value F → _) (fun _ => ∅) ops).2 x) :=
  (answers_represent hash ops).2 x

/-- Any program on `HashMap` objects gets from them the answers it would get from finite
maps, whatever the hash function, the capacities and the load factors; and every
table it leaves satisfies the representation invariant. -/
theorem refines_finite_map [LoadFactor F] [Inhabited Value] (hash : Key → Nat) (ops : List (Op ι Key Value F)) :
    let tables := answers (step hash) (fun _ => new 16 LoadFactor.three_quarters) ops
    let maps := answers Meaning.step (fun _ => ∅) ops
    tables.1 = maps.1 ∧ ∀ x,
      (∀ key, (tables.2 x).find hash key = (maps.2 x).lookup key) ∧
      (∀ key, (tables.2 x).contains hash key = decide (key ∈ maps.2 x)) ∧
      (∀ key, (tables.2 x).at_key hash key =
        ((maps.2 x).lookup key).elim (.error "HashMap::at: key not found") .ok) ∧
      (tables.2 x).size = (maps.2 x).keys.card ∧
      ((tables.2 x).empty = true ↔ maps.2 x = ∅) ∧
      (∀ i bucket, (tables.2 x).buckets[i]? = some bucket →
        ∀ entry ∈ bucket, hash entry.1 % (tables.2 x).bucket_count = i) ∧
      ((tables.2 x).entries.map Prod.fst).Nodup ∧
      (tables.2 x).num_elements = ((tables.2 x).buckets.map List.length).sum ∧
      1 ≤ (tables.2 x).bucket_count := by
  obtain ⟨hanswers, hrepresents⟩ := answers_represent hash ops
  refine ⟨hanswers, fun x => ?_⟩
  have hrep := hrepresents x
  refine ⟨hrep.find_eq, hrep.isSome_eq, hrep.at_key_eq, hrep.size_eq, hrep.empty_iff, hrep.valid.placed,
    hrep.valid.nodup, ?_, hrep.valid.nonempty⟩
  rw [← List.length_flatten]
  exact hrep.valid.counted

end Objects

end HashMap.Raw

end treenity.data_structures

import Mathlib.Tactic.Linarith
import Mathlib.Tactic.Positivity
import Treenity.DataStructures.HashMap.Refinement

open treenity.foundation

namespace treenity.data_structures

namespace HashMap

/-- The numbers of a table that decide when it grows, with an exact load factor. -/
structure Load where
  elements : Nat
  buckets : Nat
  factor : ℚ

namespace Load

/-- So many elements are no more than the factor allows for the buckets. -/
def Allows (load : Load) (elements : Nat) : Prop := (elements : ℚ) ≤ load.factor * load.buckets

instance (load : Load) (elements : Nat) : Decidable (load.Allows elements) := inferInstanceAs (Decidable (_ ≤ _))

/-- `size() <= max_load_factor() * bucket_count()`. -/
def Bounded (load : Load) : Prop := load.Allows load.elements

/-- One more element, after doubling the buckets once if they are too few for it. -/
def add (load : Load) : Load :=
  { load with
    elements := load.elements + 1
    buckets := if load.Allows (load.elements + 1) then load.buckets else load.buckets * 2 }

/-- At least as many buckets as the elements need. -/
def reserve (load : Load) (count : Nat) : Load :=
  { load with buckets := max load.buckets ⌈(count : ℚ) / load.factor⌉₊ }

theorem add_iterate_elements (load : Load) (m : Nat) : (add^[m] load).elements = load.elements + m := by
  induction m with
  | zero => rfl
  | succ m ih =>
    rw [Function.iterate_succ_apply', add, ih]
    rfl

theorem add_iterate_factor (load : Load) (m : Nat) : (add^[m] load).factor = load.factor := by
  induction m with
  | zero => rfl
  | succ m ih =>
    rw [Function.iterate_succ_apply']
    exact ih

theorem Allows.mono {load : Load} {few many : Nat} (hallows : load.Allows many) (hle : few ≤ many) :
    load.Allows few :=
  le_trans (Nat.cast_le.mpr hle) hallows

/-- As long as the buckets suffice they stay as they are. -/
theorem add_iterate_buckets {load : Load} {n : Nat} (hallows : load.Allows n) {m : Nat}
    (hle : load.elements + m ≤ n) : (add^[m] load).buckets = load.buckets := by
  induction m with
  | zero => rfl
  | succ m ih =>
    have hbuckets := ih (by omega)
    have hroom : (add^[m] load).Allows ((add^[m] load).elements + 1) := by
      rw [Allows, add_iterate_factor, hbuckets, add_iterate_elements]
      exact hallows.mono (by omega)
    rw [Function.iterate_succ_apply', add, if_pos hroom]
    exact hbuckets

theorem add_iterate_bounded {load : Load} {n : Nat} (hallows : load.Allows n) {m : Nat}
    (hle : load.elements + m ≤ n) : (add^[m] load).Bounded := by
  rw [Bounded, Allows, add_iterate_factor, add_iterate_buckets hallows hle, add_iterate_elements]
  exact hallows.mono hle

/-- One doubling is enough once there is an element. -/
theorem Bounded.add {load : Load} (hbounded : load.Bounded) (hsome : 0 < load.elements) : load.add.Bounded := by
  unfold Bounded Load.add
  by_cases hroom : load.Allows (load.elements + 1)
  · rw [if_pos hroom]
    exact hroom
  · rw [if_neg hroom]
    have hone : (1 : ℚ) ≤ load.elements := by exact_mod_cast hsome
    have hle : (load.elements : ℚ) ≤ load.factor * load.buckets := hbounded
    show ((load.elements + 1 : Nat) : ℚ) ≤ load.factor * (load.buckets * 2 : Nat)
    push_cast
    linarith

theorem Bounded.add_iterate {load : Load} (hbounded : load.Bounded) (hsome : 0 < load.elements) (m : Nat) :
    (Load.add^[m] load).Bounded := by
  induction m with
  | zero => exact hbounded
  | succ m ih =>
    rw [Function.iterate_succ_apply']
    exact ih.add (by rw [add_iterate_elements]; omega)

/-- The doublings of `m` insertions into an empty table catch up with the elements somewhere
among them. -/
def CatchesUp (load : Load) (m : Nat) : Prop :=
  ∃ i, 1 ≤ i ∧ i ≤ m ∧ (i : ℚ) ≤ load.factor * load.buckets * 2 ^ i

theorem catches_up_succ (load : Load) (m : Nat) :
    load.CatchesUp (m + 1) ↔
      load.CatchesUp m ∨ ((m + 1 : Nat) : ℚ) ≤ load.factor * load.buckets * 2 ^ (m + 1) := by
  constructor
  · rintro ⟨i, hone, hi, hle⟩
    rcases Nat.lt_or_eq_of_le hi with hlt | rfl
    · exact .inl ⟨i, hone, by omega, hle⟩
    · exact .inr hle
  · rintro (⟨i, hone, hi, hle⟩ | hle)
    · exact ⟨i, hone, by omega, hle⟩
    · exact ⟨m + 1, by omega, le_rfl, hle⟩

/-- An insertion that has to double, after `m` that did. -/
private theorem add_doubled {load doubled : Load} {m : Nat} (hfactor : doubled.factor = load.factor)
    (helements : doubled.elements = m) (hbuckets : doubled.buckets = load.buckets * 2 ^ m)
    (hfull : ¬doubled.Allows (m + 1)) :
    doubled.add.buckets = load.buckets * 2 ^ (m + 1) ∧
      (doubled.add.Bounded ↔ ((m + 1 : Nat) : ℚ) ≤ load.factor * load.buckets * 2 ^ (m + 1)) := by
  have hdouble : doubled.add.buckets = load.buckets * 2 ^ (m + 1) := by
    rw [add, helements, if_neg hfull, hbuckets, pow_succ, mul_assoc]
  refine ⟨hdouble, ?_⟩
  have hcast : (doubled.add.buckets : ℚ) = load.buckets * 2 ^ (m + 1) := by rw [hdouble]; push_cast; rfl
  have hsame : doubled.add.factor = load.factor := hfactor
  have hmore : doubled.add.elements = m + 1 := congrArg (· + 1) helements
  rw [Bounded, Allows, hsame, hmore, hcast, mul_assoc]

/-- Until the doublings catch up every insertion doubles, and from then on the bound holds. -/
theorem add_iterate_empty {load : Load} (hempty : load.elements = 0) {m : Nat} (hm : 0 < m) :
    load.CatchesUp m ∧ (add^[m] load).Bounded ∨
      ¬load.CatchesUp m ∧ ¬(add^[m] load).Bounded ∧ (add^[m] load).buckets = load.buckets * 2 ^ m := by
  -- Either way the next insertion has to double, or there is an element already.
  have hnext : ∀ m, ¬load.CatchesUp m → (add^[m] load).buckets = load.buckets * 2 ^ m →
      ¬(add^[m] load).Allows (m + 1) →
      load.CatchesUp (m + 1) ∧ (add (add^[m] load)).Bounded ∨
        ¬load.CatchesUp (m + 1) ∧ ¬(add (add^[m] load)).Bounded ∧
          (add (add^[m] load)).buckets = load.buckets * 2 ^ (m + 1) := by
    intro m hbehind hbuckets hfull
    have helements : (add^[m] load).elements = m := by rw [add_iterate_elements, hempty, Nat.zero_add]
    obtain ⟨hdouble, hiff⟩ := add_doubled (add_iterate_factor load m) helements hbuckets hfull
    rw [catches_up_succ, or_iff_right hbehind, hiff]
    by_cases hle : ((m + 1 : Nat) : ℚ) ≤ load.factor * load.buckets * 2 ^ (m + 1)
    · exact .inl ⟨hle, hle⟩
    · exact .inr ⟨hle, hle, hdouble⟩
  induction m with
  | zero => omega
  | succ m ih =>
    rw [Function.iterate_succ_apply']
    rcases Nat.eq_zero_or_pos m with rfl | hpos
    · have hbehind : ¬load.CatchesUp 0 := fun ⟨i, hone, hi, _⟩ => by omega
      by_cases hroom : load.Allows 1
      · have hone : (1 : ℚ) ≤ load.factor * load.buckets := by simpa [Allows] using hroom
        refine .inl ⟨⟨1, le_rfl, le_rfl, ?_⟩, add_iterate_bounded (m := 1) hroom (by omega)⟩
        push_cast
        linarith
      · exact hnext 0 hbehind (by simp) hroom
    · rcases ih hpos with ⟨hcaught, hbounded⟩ | ⟨hbehind, hunbounded, hbuckets⟩
      · have hsome : 0 < (add^[m] load).elements := by rw [add_iterate_elements]; omega
        exact .inl ⟨(catches_up_succ load m).mpr (.inl hcaught), hbounded.add hsome⟩
      · have helements : (add^[m] load).elements = m := by rw [add_iterate_elements, hempty, Nat.zero_add]
        refine hnext m hbehind hbuckets fun hroom => hunbounded ?_
        rw [Bounded, helements]
        exact hroom.mono (Nat.le_succ m)

theorem reserve_allows {load : Load} (hfactor : 0 < load.factor) (count : Nat) : (load.reserve count).Allows count := by
  have hceil : ⌈(count : ℚ) / load.factor⌉₊ ≤ (load.reserve count).buckets := le_max_right _ _
  have hquotient := Nat.ceil_le.mp hceil
  rw [div_le_iff₀ hfactor, mul_comm] at hquotient
  exact hquotient

theorem Allows.reserve {load : Load} (hfactor : 0 < load.factor) {n : Nat} (hallows : load.Allows n) (count : Nat) :
    (load.reserve count).Allows n := by
  have hmore : load.buckets ≤ (load.reserve count).buckets := le_max_left _ _
  exact le_trans hallows (mul_le_mul_of_nonneg_left (Nat.cast_le.mpr hmore) hfactor.le)

/-- A reservation that the buckets already meet changes nothing. -/
theorem reserve_eq_of_allows {load : Load} (hfactor : 0 < load.factor) {count : Nat} (hallows : load.Allows count) :
    load.reserve count = load := by
  have hceil : ⌈(count : ℚ) / load.factor⌉₊ ≤ load.buckets := by
    rw [Nat.ceil_le, div_le_iff₀ hfactor, mul_comm]
    exact hallows
  rw [reserve, max_eq_left hceil]

end Load

namespace Raw

variable {Key Value : Type}

def load (self : Raw Key Value ℚ) : Load := ⟨self.num_elements, self.buckets.length, self.max_load_factor⟩

theorem load_rehash (hash : Key → Nat) (self : Raw Key Value ℚ) (new_capacity : Nat) :
    (self.rehash hash new_capacity).load = { self.load with buckets := new_capacity } := by
  have hlength : ∀ (moved : List (Key × Value)) (start : List (List (Key × Value))),
      (moved.foldl (fun new_buckets entry => new_buckets.modify (hash entry.1 % new_capacity) (· ++ [entry]))
        start).length = start.length := by
    intro moved
    induction moved with
    | nil => exact fun _ => rfl
    | cons entry moved ih => exact fun start => (ih _).trans (List.length_modify _ _ _)
  have hbuckets : (self.rehash hash new_capacity).buckets.length = new_capacity :=
    (hlength _ _).trans List.length_replicate
  rw [load, hbuckets]
  rfl

theorem exceeded_iff {elements buckets : Nat} (hbuckets : 0 < buckets) (factor : ℚ) :
    LoadFactor.exceeded elements buckets factor = true ↔ ¬(elements : ℚ) ≤ factor * buckets := by
  have hpos : (0 : ℚ) < buckets := Nat.cast_pos.mpr hbuckets
  show decide ((elements : ℚ) / buckets > factor) = true ↔ _
  rw [decide_eq_true_eq, gt_iff_lt, lt_div_iff₀ hpos, not_le]

/-- The growth check and the insertion it precedes. -/
theorem load_safe_insert (hash : Key → Nat) {self : Raw Key Value ℚ} (hbuckets : 0 < self.buckets.length)
    (key : Key) (value : Value) : (self.safe_insert hash key value).load = self.load.add := by
  have hgrown : (self.grow hash).load =
      { self.load with
        buckets := if self.load.Allows (self.num_elements + 1) then self.buckets.length
          else self.buckets.length * 2 } := by
    unfold grow
    have hcheck : LoadFactor.exceeded (self.num_elements + 1) self.buckets.length self.max_load_factor = true ↔
        ¬self.load.Allows (self.num_elements + 1) := exceeded_iff hbuckets self.max_load_factor
    by_cases hroom : self.load.Allows (self.num_elements + 1)
    · rw [if_neg (fun hexceeded => hcheck.mp hexceeded hroom), if_pos hroom]
      rfl
    · rw [if_pos (hcheck.mpr hroom), if_neg hroom, load_rehash]
  have hinserted : (self.safe_insert hash key value).load =
      { (self.grow hash).load with elements := (self.grow hash).load.elements + 1 } := by
    simp only [load, safe_insert, List.length_modify]
  rw [hinserted, hgrown]
  rfl

theorem load_reserve (hash : Key → Nat) (self : Raw Key Value ℚ) (count : Nat) :
    (self.reserve hash count).load = self.load.reserve count := by
  have hrequired : LoadFactor.required count self.max_load_factor = ⌈(count : ℚ) / self.max_load_factor⌉₊ := rfl
  unfold reserve Load.reserve
  dsimp only
  rw [hrequired]
  split
  · rename_i hmore
    rw [load_rehash]
    exact congrArg (Load.mk _ · _) (max_eq_right hmore.le).symm
  · rename_i henough
    exact congrArg (Load.mk _ · _) (max_eq_left (not_lt.mp henough)).symm

variable [DecidableEq Key]

theorem load_insert (hash : Key → Nat) {self : Raw Key Value ℚ} (hbuckets : 0 < self.buckets.length) (key : Key)
    (value : Value) :
    (self.insert hash key value).2.load =
      if (self.find_entry hash key).isSome then self.load else self.load.add := by
  unfold insert
  cases self.find_entry hash key with
  | none => exact load_safe_insert hash hbuckets key value
  | some entry => rfl

theorem load_replace (hash : Key → Nat) (self : Raw Key Value ℚ) (key : Key) (value : Value) :
    (self.replace hash key value).2.load = self.load := by
  unfold replace
  cases self.find_entry hash key with
  | none => rfl
  | some entry => simp only [load, List.length_modify]

/-- The two other ways to insert a key grow the table like `insert`. -/
theorem load_insert_or_assign (hash : Key → Nat) {self : Raw Key Value ℚ} (hbuckets : 0 < self.buckets.length)
    (key : Key) (value : Value) :
    (self.insert_or_assign hash key value).2.load = (self.insert hash key value).2.load := by
  rw [load_insert hash hbuckets]
  have hreplaced := load_replace hash self key value
  unfold insert_or_assign
  unfold replace at hreplaced ⊢
  cases hfind : self.find_entry hash key with
  | none => exact load_safe_insert hash hbuckets key value
  | some entry =>
    rw [hfind] at hreplaced
    exact hreplaced

theorem load_subscript (hash : Key → Nat) {self : Raw Key Value ℚ} (hbuckets : 0 < self.buckets.length) (key : Key)
    (dflt value : Value) :
    ((self.subscript hash key dflt).replace hash key value).2.load = (self.insert hash key value).2.load := by
  rw [load_replace, load_insert hash hbuckets]
  unfold subscript
  cases self.find_entry hash key with
  | none => exact load_safe_insert hash hbuckets key dflt
  | some entry => rfl

theorem load_erase (hash : Key → Nat) (self : Raw Key Value ℚ) (key : Key) :
    ∃ elements ≤ self.num_elements, (self.erase hash key).2.load = { self.load with elements } := by
  unfold erase
  cases self.find_entry hash key with
  | none => exact ⟨self.num_elements, le_rfl, rfl⟩
  | some entry =>
    refine ⟨self.num_elements - 1, Nat.sub_le _ _, ?_⟩
    simp only [load, List.length_modify]

/-- Inserting pair by pair adds as many elements as there are new keys among them. -/
theorem load_insert_each {hash : Key → Nat} {self : Raw Key Value ℚ} (hvalid : self.Valid hash)
    (pairs : List (Key × Value)) :
    ∃ m ≤ pairs.length, (self.insert_each hash pairs).load = Load.add^[m] self.load := by
  induction pairs generalizing self with
  | nil => exact ⟨0, le_rfl, rfl⟩
  | cons pair pairs ih =>
    obtain ⟨m, hm, hload⟩ := ih (hvalid.insert pair.1 pair.2).1
    have hfirst := load_insert hash hvalid.nonempty pair.1 pair.2
    have hsplit : self.insert_each hash (pair :: pairs) = (self.insert hash pair.1 pair.2).2.insert_each hash pairs := rfl
    rw [hsplit, hload, hfirst]
    split
    · exact ⟨m, hm.trans (Nat.le_succ _), rfl⟩
    · exact ⟨m + 1, Nat.succ_le_succ hm, (Function.iterate_succ_apply _ _ _).symm⟩

end Raw

end HashMap

end treenity.data_structures

import Treenity.DataStructures.HashMap.Refinement

open treenity.foundation

namespace treenity.data_structures

/-- The quotient that `load_factor` answers with. -/
class LoadRatio (F : Type) where
  ratio : Nat → Nat → F

instance : LoadRatio ℚ where
  ratio elements buckets := elements / buckets

instance : LoadRatio Float32 where
  ratio elements buckets := Float32.ofNat elements / Float32.ofNat buckets

namespace HashMap.Raw

section Observations

variable {Key Value F : Type}

def load_factor [LoadRatio F] (self : Raw Key Value F) : F :=
  LoadRatio.ratio self.num_elements self.buckets.length

/-- What the members of a map that change nothing answer. -/
structure Observation (Key Value F : Type) where
  find : Key → Option Value
  size : Nat
  contents : List (Key × Value)
  bucket_count : Nat
  load_factor : F
  max_load_factor : F

variable [DecidableEq Key]

def observe [LoadRatio F] (hash : Key → Nat) (self : Raw Key Value F) : Observation Key Value F where
  find := self.find hash
  size := self.size
  contents := self.entries
  bucket_count := self.bucket_count
  load_factor := self.load_factor
  max_load_factor := self.max_load_factor

variable [LoadFactor F] [Inhabited Value]

/-- Whatever is done to both of them, they answer alike and look alike after it. -/
def Alike [LoadRatio F] (hash : Key → Nat) (table other : Raw Key Value F) : Prop :=
  ∀ es : List (Edit Key Value),
    (answers (edit hash) table es).1 = (answers (edit hash) other es).1 ∧
      (answers (edit hash) table es).2.observe hash = (answers (edit hash) other es).2.observe hash

/-- Whatever is done to it, it answers as the empty map would, and there is a bucket for every key. -/
def BehavesEmpty (hash : Key → Nat) (table : Raw Key Value F) : Prop :=
  ∀ es : List (Edit Key Value),
    let reached := (answers (edit hash) table es).2
    let map := (answers Meaning.edit (∅ : Meaning Key Value) es).2
    (answers (edit hash) table es).1 = (answers Meaning.edit (∅ : Meaning Key Value) es).1 ∧
      (∀ key, reached.find hash key = map.lookup key) ∧ reached.size = map.keys.card ∧
      (reached.entries.map Prod.fst).toFinset = map.keys ∧ (reached.entries.map Prod.fst).Nodup ∧
      ∀ key, reached.get_index hash key < reached.bucket_count

theorem moved_from_behaves_empty (hash : Key → Nat) (table : Raw Key Value F) :
    BehavesEmpty hash table.moved_from := by
  intro es
  obtain ⟨hanswers, hrep⟩ := answers_agree (R := Represents hash)
    (fun table map e hrep => Represents.edit hrep e) (Represents.moved_from table) es
  exact ⟨hanswers, hrep.find_eq, hrep.size_eq, hrep.keys_eq, hrep.valid.nodup,
    fun key => Nat.mod_lt _ hrep.valid.nonempty⟩

/-- A target that takes over the buckets and the count is the source if it has its factor, and
only then like it. -/
theorem move_assign_alike_iff [LoadRatio F] (hash : Key → Nat) (self other : Raw Key Value F) :
    Alike hash (self.move_assign other) other ↔ self.max_load_factor = other.max_load_factor := by
  constructor
  · intro halike
    exact congrArg Observation.max_load_factor (halike []).2
  · intro hfactor es
    have hsame : self.move_assign other = other := by
      rw [move_assign, hfactor]
    rw [hsame]
    exact ⟨rfl, rfl⟩

end Observations

section Moves

variable {ι Key Value F : Type} [DecidableEq ι] [DecidableEq Key] [LoadFactor F] [LoadRatio F] [Inhabited Value]

/-- What a move from `source` to `target` should do: the target is from then on what the source
was, and the source is an empty map. -/
def Moves (hash : Key → Nat) (source : Raw Key Value F) (target left : Raw Key Value F) : Prop :=
  Alike hash target source ∧ BehavesEmpty hash left

/-- A move construction moves. A move assignment leaves the load factor of its target alone, and
moves exactly when the source had the same one. -/
theorem moves_iff (hash : Key → Nat) (ops : List (Op ι Key Value F)) {x y : ι} (hne : x ≠ y) :
    let objects := objects_after hash ops
    let constructed := (step hash objects (.move_construct x y hne)).2
    let assigned := (step hash objects (.move_assign x y)).2
    Moves hash (objects y) (constructed x) (constructed y) ∧
      (Moves hash (objects y) (assigned x) (assigned y) ↔
        (objects x).max_load_factor = (objects y).max_load_factor) := by
  intro objects constructed assigned
  have hconstructed : constructed x = objects y ∧ constructed y = (objects y).moved_from := by
    simp only [constructed, step, Function.update_self, Function.update_of_ne hne, and_self]
  have hassigned : assigned x = (objects x).move_assign (objects y) ∧ assigned y = (objects y).moved_from := by
    simp only [assigned, step, hne, if_false, Function.update_self, Function.update_of_ne hne, and_self]
  rw [hconstructed.1, hconstructed.2, hassigned.1, hassigned.2]
  have hempty := moved_from_behaves_empty hash (objects y)
  refine ⟨⟨fun es => ⟨rfl, rfl⟩, hempty⟩, ?_⟩
  rw [Moves, and_iff_left hempty]
  exact move_assign_alike_iff hash (objects x) (objects y)

/-- Assigned from a map of the default factor 3/4, a map made with the factor 1 keeps the 1. -/
theorem move_assign_keeps_factor :
    ¬∀ (hash : Nat → Nat) (ops : List (Op Nat Nat Nat ℚ)) (x y : Nat), x ≠ y →
      Moves hash (objects_after hash ops y) ((step hash (objects_after hash ops) (.move_assign x y)).2 x)
        ((step hash (objects_after hash ops) (.move_assign x y)).2 y) := by
  intro hall
  have halike := (hall id [.construct 0 16 1] 0 1 (by decide)).1 []
  exact absurd (congrArg Observation.max_load_factor halike.2) (by decide +kernel)

/-- Two maps of the default factor. -/
theorem moves_default :
    let ops : List (Op Nat Nat Nat ℚ) := [.edit 1 (.insert 7 7)]
    let objects := objects_after id ops
    Moves id (objects 1) ((step id objects (.move_assign 0 1)).2 0) ((step id objects (.move_assign 0 1)).2 1) :=
  (moves_iff id _ (by decide)).2.mpr (by decide +kernel)

end Moves

end HashMap.Raw

end treenity.data_structures

import Treenity.DataStructures.HashMap.Refinement
import Treenity.DataStructures.PrefixTree.Tree

open treenity.foundation treenity.protocol

namespace treenity.data_structures

namespace PrefixTree

namespace Node

/-- What a move leaves behind: no subscribers, and the child map after its own move. -/
def moved_from (other : Node) : Node := mk [] other.children.moved_from

/-- `operator=(Node&&)`, which moves member by member. -/
def move_assign (self other : Node) : Node := mk other.subscribers (self.children.move_assign other.children)

theorem moved_from_find (hash : UInt8 → Nat) (other : Node) (ch : UInt8) :
    other.children.moved_from.find hash ch = none :=
  (HashMap.Raw.Represents.moved_from other.children).find_eq ch

theorem moved_from_valid (hash : UInt8 → Nat) (other : Node) : other.moved_from.Valid hash := by
  refine .mk (HashMap.Raw.Represents.moved_from other.children).valid ?_
  intro ch child hfind
  rw [moved_from_find] at hfind
  cases hfind

theorem moved_from_clients_at (hash : UInt8 → Nat) (other : Node) (path : Bytes) :
    other.moved_from.clients_at hash path = [] := by
  cases path with
  | nil => rfl
  | cons ch rest => rw [moved_from, clients_at, moved_from_find]

theorem Valid.move_assign {hash : UInt8 → Nat} {other : Node} (hvalid : other.Valid hash) (self : Node) :
    (self.move_assign other).Valid hash := by
  obtain ⟨hchildren, hchild⟩ := hvalid
  exact .mk ⟨hchildren.nonempty, hchildren.placed, hchildren.nodup, hchildren.counted⟩ hchild

/-- The bucket vector decides the lookups, so the moved children are found as before. -/
theorem move_assign_clients_at (hash : UInt8 → Nat) (self other : Node) (path : Bytes) :
    (self.move_assign other).clients_at hash path = other.clients_at hash path := by
  cases other
  cases path with
  | nil => rfl
  | cons ch rest => rfl

end Node

variable {hash : UInt8 → Nat}

/-- The state of `other` after its contents were moved into a new tree or an old one. -/
def moved_from (other : PrefixTree hash) : PrefixTree hash :=
  ⟨other.root.moved_from, 0, other.root.moved_from_valid hash⟩

/-- `operator=(PrefixTree&&)` from another tree. -/
def move_assign (self other : PrefixTree hash) : PrefixTree hash :=
  ⟨self.root.move_assign other.root, other.subscriber_count, other.valid.move_assign self.root⟩

@[simp] theorem clients_at_moved_from (other : PrefixTree hash) (path : Bytes) :
    other.moved_from.clients_at path = [] :=
  other.root.moved_from_clients_at hash path

@[simp] theorem clients_at_move_assign (self other : PrefixTree hash) (path : Bytes) :
    (self.move_assign other).clients_at path = other.clients_at path :=
  self.root.move_assign_clients_at hash other.root path

/-- `remove` answers whether the client was registered under the prefix. -/
theorem remove_fst (self : PrefixTree hash) (path client_id : Bytes) :
    (self.remove path client_id).1 = decide (client_id ∈ self.clients_at path) := by
  have hnone := Node.remove_eq_none_iff hash self.root path client_id
  unfold remove
  split
  · rename_i habsent
    exact (decide_eq_false (hnone.mp habsent)).symm
  · rename_i left hremove
    refine (decide_eq_true ?_).symm
    by_contra habsent
    rw [hnone.mpr habsent] at hremove
    cases hremove

/-- What a tree is for: the list of clients of every prefix. -/
abbrev Clients := Bytes → List Bytes

namespace Clients

def insert (clients : Clients) (path client_id : Bytes) : Clients :=
  Function.update clients path (clients path ++ [client_id])

def remove (clients : Clients) (path client_id : Bytes) : Bool × Clients :=
  if (clients path).contains client_id then
    (true, Function.update clients path ((clients path).erase client_id))
  else (false, clients)

/-- The lists of the prefixes of a key, the shortest prefix first. -/
def matching (clients : Clients) (message_key : Bytes) : List Bytes := message_key.inits.flatMap clients

end Clients

/-- The operations of a program on its `PrefixTree` objects. A tree is constructed by move
from another one; a move assignment may name the same tree twice. -/
inductive Op (ι : Type) where
  | construct (x : ι)
  | insert (x : ι) (path client_id : Bytes)
  | remove (x : ι) (path client_id : Bytes)
  | clear (x : ι)
  | move_construct (x y : ι) (hne : x ≠ y)
  | move_assign (x y : ι)

variable {ι : Type} [DecidableEq ι]

/-- The `bool` an operation returns, if it does, and the trees after it. -/
def step (trees : ι → PrefixTree hash) : Op ι → Option Bool × (ι → PrefixTree hash)
  | .construct x => (none, Function.update trees x new)
  | .insert x path client_id => (none, Function.update trees x ((trees x).insert path client_id))
  | .remove x path client_id =>
    (some ((trees x).remove path client_id).1, Function.update trees x ((trees x).remove path client_id).2)
  | .clear x => (none, Function.update trees x (trees x).clear)
  | .move_construct x y _ => (none, Function.update (Function.update trees x (trees y)) y (trees y).moved_from)
  | .move_assign x y =>
    (none,
      if x = y then trees
      else Function.update (Function.update trees x ((trees x).move_assign (trees y))) y (trees y).moved_from)

/-- The same operations on the lists of clients. -/
def Clients.step (lists : ι → Clients) : Op ι → Option Bool × (ι → Clients)
  | .construct x => (none, Function.update lists x fun _ => [])
  | .insert x path client_id => (none, Function.update lists x ((lists x).insert path client_id))
  | .remove x path client_id =>
    (some ((lists x).remove path client_id).1, Function.update lists x ((lists x).remove path client_id).2)
  | .clear x => (none, Function.update lists x fun _ => [])
  | .move_construct x y _ => (none, Function.update (Function.update lists x (lists y)) y fun _ => [])
  | .move_assign x y =>
    (none, if x = y then lists else Function.update (Function.update lists x (lists y)) y fun _ => [])

theorem insert_clients (self : PrefixTree hash) (path client_id : Bytes) :
    (self.insert path client_id).clients_at = Clients.insert self.clients_at path client_id := by
  funext other
  rw [clients_at_insert, Clients.insert, Function.update_apply]

theorem remove_clients (self : PrefixTree hash) (path client_id : Bytes) :
    (self.remove path client_id).1 = (Clients.remove self.clients_at path client_id).1 ∧
      (self.remove path client_id).2.clients_at = (Clients.remove self.clients_at path client_id).2 := by
  simp only [remove_fst, Clients.remove, List.contains_iff_mem]
  by_cases hin : client_id ∈ self.clients_at path
  · rw [if_pos hin]
    refine ⟨decide_eq_true hin, ?_⟩
    funext other
    dsimp only
    rw [clients_at_remove, Function.update_apply]
  · rw [if_neg hin]
    refine ⟨decide_eq_false hin, ?_⟩
    funext other
    rw [clients_at_remove, List.erase_of_not_mem hin]
    by_cases hother : other = path
    · rw [if_pos hother, hother]
    · rw [if_neg hother]

/-- A tree holds exactly these lists. -/
def Holds (self : PrefixTree hash) (clients : Clients) : Prop := self.clients_at = clients

theorem holds_new : (new : PrefixTree hash).Holds fun _ => [] := funext clients_at_new

/-- One operation on trees that hold the lists of clients. -/
theorem step_holds (trees : ι → PrefixTree hash) (lists : ι → Clients) (op : Op ι)
    (hlists : ∀ x, (trees x).Holds (lists x)) :
    (step trees op).1 = (Clients.step lists op).1 ∧
      ∀ x, ((step trees op).2 x).Holds ((Clients.step lists op).2 x) := by
  have hmoved : ∀ x, (trees x).moved_from.Holds fun _ => [] :=
    fun x => funext (clients_at_moved_from (trees x))
  cases op with
  | construct x =>
    exact ⟨rfl, related_update hlists x holds_new⟩
  | insert x path client_id =>
    have hinserted := insert_clients (trees x) path client_id
    rw [hlists x] at hinserted
    exact ⟨rfl, related_update hlists x hinserted⟩
  | remove x path client_id =>
    obtain ⟨hanswer, hleft⟩ := remove_clients (trees x) path client_id
    rw [hlists x] at hanswer hleft
    exact ⟨congrArg some hanswer, related_update hlists x hleft⟩
  | clear x =>
    have hcleared : (trees x).clear.Holds fun _ => [] := funext (clients_at_clear (trees x))
    exact ⟨rfl, related_update hlists x hcleared⟩
  | move_construct x y hne =>
    exact ⟨rfl, related_update (related_update hlists x (hlists y)) y (hmoved y)⟩
  | move_assign x y =>
    refine ⟨rfl, ?_⟩
    by_cases hxy : x = y
    · simpa [step, Clients.step, hxy] using hlists
    · have htarget : ((trees x).move_assign (trees y)).Holds (lists y) :=
        (funext (clients_at_move_assign (trees x) (trees y))).trans (hlists y)
      simp only [step, Clients.step, hxy, if_false]
      exact related_update (related_update hlists x htarget) y (hmoved y)

/-- Any program on `PrefixTree` objects gets from them what it would get from functions of
prefixes to lists of clients: the answers of `remove`, and from `match` the lists of
all prefixes of the key. -/
theorem refines_lists_of_clients (ops : List (Op ι)) :
    let trees := answers step (fun _ : ι => (new : PrefixTree hash)) ops
    let lists := answers Clients.step (fun _ => fun _ => []) ops
    trees.1 = lists.1 ∧ ∀ x key, (trees.2 x).matching_clients key = (lists.2 x).matching key := by
  have hagree := answers_agree
    (R := fun (trees : ι → PrefixTree hash) (lists : ι → Clients) => ∀ x, (trees x).Holds (lists x))
    step_holds (fun _ => holds_new) ops
  refine ⟨hagree.1, fun x key => ?_⟩
  have hlists : (answers step (fun _ : ι => (new : PrefixTree hash)) ops).2 x |>.Holds _ := hagree.2 x
  rw [matching_clients_eq, Clients.matching, hlists]

end PrefixTree

end treenity.data_structures

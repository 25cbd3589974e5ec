import Mathlib.Data.List.Infix
import Treenity.DataStructures.HashMap.Table
import Treenity.Protocol.Wire

open treenity.protocol

namespace treenity.data_structures

/-- `PrefixTree::Node`. A child pointer is never null once `insert` returns, so
the map holds the child itself. -/
inductive PrefixTree.Node where
  | mk (subscribers : List Bytes) (children : HashMap.Raw UInt8 PrefixTree.Node)

namespace PrefixTree.Node

def subscribers : Node → List Bytes
  | mk subscribers _ => subscribers

def children : Node → HashMap.Raw UInt8 Node
  | mk _ children => children

/-- `std::make_unique<Node>()`. -/
def empty : Node := mk [] (HashMap.Raw.new 16 (3 / 4))

/-- The condition under which `remove` deletes a node from its parent. -/
def is_dead (self : Node) : Bool := self.subscribers.isEmpty && self.children.size == 0

/-- Descends along the characters of the prefix, creating the missing nodes. -/
def insert (hash : UInt8 → Nat) : Node → Bytes → Bytes → Node
  | mk subscribers children, [], client_id => mk (subscribers ++ [client_id]) children
  | mk subscribers children, ch :: rest, client_id =>
    let made := children.subscript hash ch empty
    let child := (made.find hash ch).getD empty
    mk subscribers (made.replace hash ch (insert hash child rest client_id)).2

/-- The first occurrence of the client leaves the node of the prefix, and the
nodes of the branch that are left dead leave their parents, bottom-up. A parent
that keeps a child is not dead, so the loop of the source stops there. `none` is
the result `false`, which changes nothing. -/
def remove (hash : UInt8 → Nat) : Node → Bytes → Bytes → Option Node
  | mk subscribers children, [], client_id =>
    if client_id ∈ subscribers then some (mk (subscribers.erase client_id) children) else none
  | mk subscribers children, ch :: rest, client_id =>
    match children.find hash ch with
    | none => none
    | some child =>
      match remove hash child rest client_id with
      | none => none
      | some left =>
        if left.is_dead then some (mk subscribers (children.erase hash ch).2)
        else some (mk subscribers (children.replace hash ch left).2)

/-- `match`: the subscribers of every node on the way down the key, root first. -/
def matching_clients (hash : UInt8 → Nat) : Node → Bytes → List Bytes
  | mk subscribers _, [] => subscribers
  | mk subscribers children, ch :: rest =>
    match children.find hash ch with
    | none => subscribers
    | some child => subscribers ++ matching_clients hash child rest

/-- The clients registered under exactly this prefix. -/
def clients_at (hash : UInt8 → Nat) : Node → Bytes → List Bytes
  | mk subscribers _, [] => subscribers
  | mk _ children, ch :: rest =>
    match children.find hash ch with
    | none => []
    | some child => clients_at hash child rest

/-- Every child map of the tree meets its representation invariant. -/
inductive Valid (hash : UInt8 → Nat) : Node → Prop
  | mk {subscribers : List Bytes} {children : HashMap.Raw UInt8 Node}
      (hchildren : children.Valid hash)
      (hchild : ∀ ch child, children.find hash ch = some child → Valid hash child) :
      Valid hash (.mk subscribers children)

theorem empty_find (hash : UInt8 → Nat) (ch : UInt8) : empty.children.find hash ch = none :=
  show (HashMap.new : HashMap UInt8 Node hash).find ch = none from HashMap.find_new ch

theorem empty_valid (hash : UInt8 → Nat) : empty.Valid hash := by
  refine .mk (HashMap.Raw.new_valid hash 16 (3 / 4)) ?_
  intro ch child hfind
  have hnone := empty_find hash ch
  rw [empty, children] at hnone
  rw [hnone] at hfind
  cases hfind

theorem empty_clients_at (hash : UInt8 → Nat) (path : Bytes) : empty.clients_at hash path = [] := by
  cases path with
  | nil => rfl
  | cons ch rest =>
    have hnone := empty_find hash ch
    rw [empty, children] at hnone
    rw [empty, clients_at, hnone]

theorem clients_at_cons (hash : UInt8 → Nat) (self : Node) (ch : UInt8) (rest : Bytes) :
    self.clients_at hash (ch :: rest) =
      ((self.children.find hash ch).getD empty).clients_at hash rest := by
  obtain ⟨subscribers, children⟩ := self
  rw [clients_at, Node.children]
  cases children.find hash ch with
  | none => simp [empty_clients_at]
  | some child => rfl

/-- A dead node has no client at any prefix. -/
theorem is_dead_clients_at {hash : UInt8 → Nat} {self : Node} (hvalid : self.Valid hash)
    (hdead : self.is_dead = true) (path : Bytes) : self.clients_at hash path = [] := by
  obtain ⟨hchildren, hchild⟩ := hvalid
  rename_i subscribers children
  simp only [is_dead, Node.subscribers, Node.children, Bool.and_eq_true, beq_iff_eq,
    List.isEmpty_iff, HashMap.Raw.size, hchildren.counted, List.length_eq_zero_iff] at hdead
  obtain ⟨hsubscribers, hentries⟩ := hdead
  cases path with
  | nil => exact hsubscribers
  | cons ch rest =>
    have hnone : children.find hash ch = none := by
      apply Option.eq_none_iff_forall_ne_some.mpr
      intro child hfind
      have hmem := (hchildren.find_eq_some_iff ch child).mp hfind
      rw [hentries] at hmem
      cases hmem
    rw [clients_at, hnone]

/-- A step down of an insertion puts the longer branch in the place of the child, which is
made if it is missing. -/
theorem insert_cons {hash : UInt8 → Nat} {children : HashMap.Raw UInt8 Node} (hchildren : children.Valid hash)
    (subscribers : List Bytes) (ch : UInt8) (rest client_id : Bytes) :
    ∃ grown, (mk subscribers children).insert hash (ch :: rest) client_id = mk subscribers grown ∧
      grown.Valid hash ∧ ∀ other, grown.find hash other =
        if other = ch then some (((children.find hash ch).getD empty).insert hash rest client_id)
        else children.find hash other := by
  obtain ⟨hmade, hmadeFind⟩ := hchildren.subscript ch empty
  have hcurrent : ((children.subscript hash ch empty).find hash ch).getD empty =
      (children.find hash ch).getD empty := by
    rw [hmadeFind]
    simp
  obtain ⟨hreplaced, _, hreplacedFind⟩ := hmade.replace ch
    ((((children.subscript hash ch empty).find hash ch).getD empty).insert hash rest client_id)
  refine ⟨_, rfl, hreplaced, ?_⟩
  intro other
  rw [hreplacedFind, hcurrent, hmadeFind, hmadeFind]
  by_cases hother : other = ch <;> simp [hother]

/-- A child that is missing is made valid. -/
theorem child_valid {hash : UInt8 → Nat} {children : HashMap.Raw UInt8 Node}
    (hchild : ∀ ch child, children.find hash ch = some child → Valid hash child) (ch : UInt8) :
    ((children.find hash ch).getD empty).Valid hash := by
  cases hfind : children.find hash ch with
  | none => exact empty_valid hash
  | some child => exact hchild ch child hfind

/-- Insertion appends the client at its own prefix and touches no other. -/
theorem Valid.insert {hash : UInt8 → Nat} {self : Node} (hvalid : self.Valid hash)
    (path client_id : Bytes) :
    (self.insert hash path client_id).Valid hash ∧
      ∀ other, (self.insert hash path client_id).clients_at hash other =
        if other = path then self.clients_at hash path ++ [client_id] else self.clients_at hash other := by
  induction path generalizing self with
  | nil =>
    obtain ⟨hchildren, hchild⟩ := hvalid
    refine ⟨.mk hchildren hchild, fun other => ?_⟩
    cases other with
    | nil => rfl
    | cons ch rest => rfl
  | cons ch rest ih =>
    obtain ⟨hchildren, hchild⟩ := hvalid
    rename_i subscribers children
    obtain ⟨grown, hinsert, hgrown, hfind⟩ := insert_cons hchildren subscribers ch rest client_id
    obtain ⟨hnextValid, hnextAt⟩ := ih (child_valid hchild ch)
    rw [hinsert]
    refine ⟨.mk hgrown ?_, ?_⟩
    · intro other child hother
      rw [hfind] at hother
      split at hother
      · cases hother
        exact hnextValid
      · exact hchild other child hother
    · intro other
      cases other with
      | nil => rfl
      | cons c tail =>
        rw [clients_at_cons, clients_at_cons, clients_at_cons, Node.children, Node.children, hfind]
        by_cases hc : c = ch
        · subst hc
          simp only [if_true, Option.getD_some, hnextAt, List.cons.injEq, true_and]
        · simp [hc]

end PrefixTree.Node

end treenity.data_structures

import Treenity.DataStructures.PrefixTree.Node

open treenity.protocol

namespace treenity.data_structures

namespace PrefixTree.Node

/-- A removal below a node removes below one child, which stays unless that leaves it dead. -/
theorem remove_cons {hash : UInt8 → Nat} {children : HashMap.Raw UInt8 Node} (hchildren : children.Valid hash)
    {subscribers : List Bytes} {ch : UInt8} {rest client_id : Bytes} {left : Node}
    (hremove : (mk subscribers children).remove hash (ch :: rest) client_id = some left) :
    ∃ child shrunk kept, children.find hash ch = some child ∧ child.remove hash rest client_id = some shrunk ∧
      left = mk subscribers kept ∧ kept.Valid hash ∧ ∀ other, kept.find hash other =
        if other = ch then (if shrunk.is_dead then none else some shrunk) else children.find hash other := by
  rw [Node.remove] at hremove
  cases hfind : children.find hash ch with
  | none =>
    rw [hfind] at hremove
    cases hremove
  | some child =>
    rw [hfind] at hremove
    cases hrest : child.remove hash rest client_id with
    | none => simp [hrest] at hremove
    | some shrunk =>
      simp only [hrest] at hremove
      split at hremove
      · rename_i hdead
        obtain ⟨herased, _, herasedFind⟩ := hchildren.erase ch
        cases hremove
        refine ⟨child, shrunk, _, rfl, hrest, rfl, herased, fun other => ?_⟩
        rw [herasedFind, if_pos hdead]
      · rename_i halive
        obtain ⟨hreplaced, _, hreplacedFind⟩ := hchildren.replace ch shrunk
        cases hremove
        refine ⟨child, shrunk, _, rfl, hrest, rfl, hreplaced, fun other => ?_⟩
        rw [hreplacedFind, hfind, if_neg halive]
        simp

/-- A child after a removal is the shrunk one, which is not dead, or one of those before. -/
theorem child_of_kept {hash : UInt8 → Nat} {children kept : HashMap.Raw UInt8 Node} {ch : UInt8} {shrunk : Node}
    (hkept : ∀ other, kept.find hash other =
      if other = ch then (if shrunk.is_dead then none else some shrunk) else children.find hash other)
    {other : UInt8} {found : Node} (hfound : kept.find hash other = some found) :
    found = shrunk ∧ shrunk.is_dead = false ∨ children.find hash other = some found := by
  rw [hkept] at hfound
  split at hfound
  · split at hfound
    · cases hfound
    · rename_i halive
      cases hfound
      exact .inl ⟨rfl, Bool.eq_false_iff.mpr halive⟩
  · exact .inr hfound

/-- A successful removal takes the first occurrence of the client from its own
prefix; pruning takes nothing from any other prefix, shorter or longer. -/
theorem Valid.remove {hash : UInt8 → Nat} {self left : Node} (hvalid : self.Valid hash)
    {path client_id : Bytes} (hremove : self.remove hash path client_id = some left) :
    left.Valid hash ∧
      ∀ other, left.clients_at hash other =
        if other = path then (self.clients_at hash path).erase client_id
        else self.clients_at hash other := by
  induction path generalizing self left with
  | nil =>
    obtain ⟨hchildren, hchild⟩ := hvalid
    simp only [Node.remove] at hremove
    split at hremove
    · cases hremove
      refine ⟨.mk hchildren hchild, fun other => ?_⟩
      cases other with
      | nil => rfl
      | cons ch rest => rfl
    · cases hremove
  | cons ch rest ih =>
    obtain ⟨hchildren, hchild⟩ := hvalid
    rename_i subscribers children
    obtain ⟨child, shrunk, kept, hfind, hrest, rfl, hkept, hkeptFind⟩ := remove_cons hchildren hremove
    obtain ⟨hshrunk, hshrunkAt⟩ := ih (hchild ch child hfind) hrest
    refine ⟨.mk hkept ?_, ?_⟩
    · intro other found hfound
      obtain ⟨rfl, _⟩ | hbefore := child_of_kept hkeptFind hfound
      · exact hshrunk
      · exact hchild other found hbefore
    · -- A child that was left dead has no clients, so its lookups agree with those of no child.
      have hplace : ∀ tail, ((if shrunk.is_dead then none else some shrunk).getD empty).clients_at hash tail =
          shrunk.clients_at hash tail := by
        intro tail
        split
        · rename_i hdead
          rw [Option.getD_none, empty_clients_at, is_dead_clients_at hshrunk hdead]
        · rfl
      intro other
      cases other with
      | nil => rfl
      | cons c tail =>
        rw [clients_at_cons, clients_at_cons, clients_at_cons, Node.children, Node.children, hkeptFind]
        by_cases hc : c = ch
        · subst hc
          simp [hplace, hfind, hshrunkAt]
        · simp [hc]

/-- Removal fails exactly when the client is not registered under the prefix. -/
theorem remove_eq_none_iff (hash : UInt8 → Nat) (self : Node) (path client_id : Bytes) :
    self.remove hash path client_id = none ↔ client_id ∉ self.clients_at hash path := by
  induction path generalizing self with
  | nil =>
    obtain ⟨subscribers, children⟩ := self
    simp [Node.remove, clients_at]
  | cons ch rest ih =>
    obtain ⟨subscribers, children⟩ := self
    rw [Node.remove, clients_at]
    cases hfind : children.find hash ch with
    | none => simp
    | some child =>
      have hchild := ih child
      cases hrest : child.remove hash rest client_id with
      | none => simpa [hrest] using hchild
      | some shrunk =>
        have hin : client_id ∈ child.clients_at hash rest := by
          by_contra habsent
          rw [hchild.mpr habsent] at hrest
          cases hrest
        by_cases hdead : shrunk.is_dead = true <;> simp [hrest, hdead, hin]

/-- Matching collects the lists of all prefixes of the key, shortest first. -/
theorem matching_clients_eq (hash : UInt8 → Nat) (self : Node) (key : Bytes) :
    self.matching_clients hash key = key.inits.flatMap (self.clients_at hash) := by
  induction key generalizing self with
  | nil =>
    obtain ⟨subscribers, children⟩ := self
    simp [matching_clients, clients_at]
  | cons ch rest ih =>
    obtain ⟨subscribers, children⟩ := self
    rw [matching_clients, List.inits_cons, List.flatMap_cons, List.flatMap_map]
    cases hfind : children.find hash ch with
    | none => simp [clients_at, hfind]
    | some child => simp [clients_at, hfind, ih]

theorem Valid.children {hash : UInt8 → Nat} {self : Node} (hvalid : self.Valid hash) :
    self.children.Valid hash := by
  cases hvalid with
  | mk hchildren _ => exact hchildren

theorem Valid.find_children_clear {hash : UInt8 → Nat} {self : Node} (hvalid : self.Valid hash)
    (ch : UInt8) : self.children.clear.find hash ch = none :=
  HashMap.find_clear ⟨self.children, hvalid.children⟩ ch

end PrefixTree.Node

/-- The tree with its counter. The field `valid` keeps malformed child maps out. -/
structure PrefixTree (hash : UInt8 → Nat) where
  root : PrefixTree.Node
  subscriber_count : Nat
  valid : root.Valid hash

namespace PrefixTree

variable {hash : UInt8 → Nat}

def new : PrefixTree hash := ⟨Node.empty, 0, Node.empty_valid hash⟩

def insert (self : PrefixTree hash) (path client_id : Bytes) : PrefixTree hash :=
  ⟨self.root.insert hash path client_id, self.subscriber_count + 1, (self.valid.insert path client_id).1⟩

def remove (self : PrefixTree hash) (path client_id : Bytes) : Bool × PrefixTree hash :=
  match hremove : self.root.remove hash path client_id with
  | none => (false, self)
  | some left => (true, ⟨left, self.subscriber_count - 1, (self.valid.remove hremove).1⟩)

def matching_clients (self : PrefixTree hash) (message_key : Bytes) : List Bytes :=
  self.root.matching_clients hash message_key

/-- `clear` empties the child map of the root in place. -/
def clear (self : PrefixTree hash) : PrefixTree hash where
  root := .mk [] self.root.children.clear
  subscriber_count := 0
  valid := by
    refine .mk self.valid.children.clear.1 ?_
    intro ch child hfind
    rw [self.valid.find_children_clear] at hfind
    cases hfind

/-- The clients registered under exactly this prefix, in order. -/
def clients_at (self : PrefixTree hash) (path : Bytes) : List Bytes := self.root.clients_at hash path

@[simp] theorem clients_at_new (path : Bytes) : (new : PrefixTree hash).clients_at path = [] :=
  Node.empty_clients_at hash path

@[simp] theorem clients_at_insert (self : PrefixTree hash) (path client_id other : Bytes) :
    (self.insert path client_id).clients_at other =
      if other = path then self.clients_at path ++ [client_id] else self.clients_at other :=
  (self.valid.insert path client_id).2 other

/-- Whatever `remove` answers, the list at the prefix has lost its first
occurrence of the client, if it had one, and the other lists are unchanged. -/
@[simp] theorem clients_at_remove (self : PrefixTree hash) (path client_id other : Bytes) :
    (self.remove path client_id).2.clients_at other =
      if other = path then (self.clients_at path).erase client_id else self.clients_at other := by
  unfold remove
  split
  · rename_i hnone
    have habsent := (Node.remove_eq_none_iff hash self.root path client_id).mp hnone
    by_cases hother : other = path
    · rw [if_pos hother, hother]
      exact (List.erase_of_not_mem habsent).symm
    · rw [if_neg hother]
  · rename_i left hsome
    exact (self.valid.remove hsome).2 other

theorem clients_at_clear (self : PrefixTree hash) (path : Bytes) : self.clear.clients_at path = [] := by
  cases path with
  | nil => rfl
  | cons ch rest =>
    show Node.clients_at hash (.mk [] self.root.children.clear) (ch :: rest) = []
    rw [Node.clients_at_cons, Node.children, self.valid.find_children_clear]
    exact Node.empty_clients_at hash rest

theorem matching_clients_eq (self : PrefixTree hash) (message_key : Bytes) :
    self.matching_clients message_key = message_key.inits.flatMap self.clients_at :=
  Node.matching_clients_eq hash self.root message_key

/-- A client is matched exactly when it is registered under a prefix of the key. -/
theorem mem_matching_clients_iff (self : PrefixTree hash) (message_key client_id : Bytes) :
    client_id ∈ self.matching_clients message_key ↔
      ∃ path, path <+: message_key ∧ client_id ∈ self.clients_at path := by
  rw [matching_clients_eq, List.mem_flatMap]
  simp only [List.mem_inits]

end PrefixTree

end treenity.data_structures

import Treenity.DataStructures.PrefixTree.Refinement

open treenity.foundation treenity.protocol

namespace treenity.data_structures

/-- The pairs of two tables that agree away from one key are the same but for that key. -/
theorem HashMap.Raw.Valid.entries_perm {Key Value F : Type} [DecidableEq Key] {hash : Key → Nat}
    {self other : HashMap.Raw Key Value F} (hself : self.Valid hash) (hother : other.Valid hash) (key : Key)
    (hagree : ∀ k, k ≠ key → other.find hash k = self.find hash k) :
    ∃ rest, self.entries.Perm (((self.find hash key).map (Prod.mk key)).toList ++ rest) ∧
      other.entries.Perm (((other.find hash key).map (Prod.mk key)).toList ++ rest) := by
  have hsplit : ∀ table : HashMap.Raw Key Value F, table.Valid hash →
      (∀ k, k ≠ key → table.find hash k = self.find hash k) →
      table.entries.Perm (((table.find hash key).map (Prod.mk key)).toList ++
        self.entries.filter fun entry => entry.1 ≠ key) := by
    intro table htable hsame
    refine (List.perm_ext_iff_of_nodup (.of_map _ htable.nodup) ?_).mpr ?_
    · refine List.nodup_append'.mpr ⟨?_, (List.Nodup.of_map _ hself.nodup).filter _, ?_⟩
      · cases table.find hash key <;> simp
      · rintro ⟨k, value⟩ hfirst hrest
        obtain ⟨v, _, hpair⟩ := Option.map_eq_some_iff.mp (Option.mem_toList.mp hfirst)
        have hne := (List.mem_filter.mp hrest).2
        rw [← hpair] at hne
        simp at hne
    · rintro ⟨k, value⟩
      rw [← htable.find_eq_some_iff, List.mem_append, List.mem_filter, ← hself.find_eq_some_iff, Option.mem_toList,
        Option.map_eq_some_iff]
      by_cases hk : k = key
      · simp [hk]
      · have hk' : ¬ key = k := fun h => hk h.symm
        simp [hk, hk', hsame k hk]
  exact ⟨_, hsplit self hself fun _ _ => rfl, hsplit other hother hagree⟩

namespace PrefixTree

namespace Node

mutual

/-- The subscribers stored in the node and in all nodes below it. -/
def total : Node → Nat
  | mk subscribers children => subscribers.length + total_children children

def total_children : HashMap.Raw UInt8 Node → Nat
  | ⟨buckets, _, _⟩ => total_buckets buckets

def total_buckets : List (List (UInt8 × Node)) → Nat
  | [] => 0
  | row :: rest => total_row row + total_buckets rest

def total_row : List (UInt8 × Node) → Nat
  | [] => 0
  | (_, child) :: rest => total child + total_row rest

end

theorem total_row_eq (row : List (UInt8 × Node)) : total_row row = (row.map fun entry => entry.2.total).sum := by
  induction row with
  | nil => rfl
  | cons entry rest ih =>
    obtain ⟨ch, child⟩ := entry
    rw [total_row, ih, List.map_cons, List.sum_cons]

theorem total_buckets_eq (buckets : List (List (UInt8 × Node))) :
    total_buckets buckets = (buckets.flatten.map fun entry => entry.2.total).sum := by
  induction buckets with
  | nil => rfl
  | cons row rest ih =>
    rw [total_buckets, total_row_eq, ih, List.flatten_cons, List.map_append, List.sum_append]

/-- What the children store is the sum over the pairs of the child map. -/
theorem total_eq (subscribers : List Bytes) (children : HashMap.Raw UInt8 Node) :
    (mk subscribers children).total = subscribers.length + (children.entries.map fun entry => entry.2.total).sum := by
  obtain ⟨buckets, num_elements, max_load_factor⟩ := children
  rw [total, total_children, total_buckets_eq]
  rfl

/-- No node below this one is dead. -/
inductive Pruned : Node → Prop
  | mk {subscribers : List Bytes} {children : HashMap.Raw UInt8 Node}
      (halive : ∀ entry ∈ children.entries, entry.2.is_dead = false)
      (hchild : ∀ entry ∈ children.entries, Pruned entry.2) : Pruned (.mk subscribers children)

/-- Changing one child changes the total by the change of that child. -/
theorem total_children_change {hash : UInt8 → Nat} (subscribers : List Bytes) {before after : HashMap.Raw UInt8 Node}
    (hbefore : before.Valid hash) (hafter : after.Valid hash) (ch : UInt8)
    (hagree : ∀ k, k ≠ ch → after.find hash k = before.find hash k) :
    (mk subscribers after).total + ((before.find hash ch).map total).getD 0 =
      (mk subscribers before).total + ((after.find hash ch).map total).getD 0 := by
  obtain ⟨rest, hold, hnew⟩ := hbefore.entries_perm hafter ch hagree
  have hsum : ∀ found : Option Node,
      ((((found.map (Prod.mk ch)).toList ++ rest).map fun entry => entry.2.total).sum =
        (found.map total).getD 0 + (rest.map fun entry => entry.2.total).sum) := by
    intro found
    cases found <;> simp
  rw [total_eq, total_eq, (hold.map _).sum_eq, (hnew.map _).sum_eq, hsum, hsum]
  omega

/-- The children of a pruned node, by their characters. -/
theorem pruned_iff {hash : UInt8 → Nat} {subscribers : List Bytes} {children : HashMap.Raw UInt8 Node}
    (hchildren : children.Valid hash) : (mk subscribers children).Pruned ↔
      ∀ ch child, children.find hash ch = some child → child.is_dead = false ∧ child.Pruned := by
  constructor
  · rintro ⟨halive, hchild⟩ ch child hfind
    have hentry := (hchildren.find_eq_some_iff ch child).mp hfind
    exact ⟨halive _ hentry, hchild _ hentry⟩
  · intro hall
    refine .mk ?_ ?_
    · rintro ⟨ch, child⟩ hentry
      exact (hall ch child ((hchildren.find_eq_some_iff ch child).mpr hentry)).1
    · rintro ⟨ch, child⟩ hentry
      exact (hall ch child ((hchildren.find_eq_some_iff ch child).mpr hentry)).2

theorem pruned_of_no_entries {subscribers : List Bytes} {children : HashMap.Raw UInt8 Node}
    (hentries : children.entries = []) : (mk subscribers children).Pruned :=
  .mk (by simp [hentries]) (by simp [hentries])

theorem total_of_no_entries {subscribers : List Bytes} {children : HashMap.Raw UInt8 Node}
    (hentries : children.entries = []) : (mk subscribers children).total = subscribers.length := by
  rw [total_eq, hentries]
  rfl

/-- A node is dead exactly if it has neither subscribers nor children. -/
theorem is_dead_iff {hash : UInt8 → Nat} {subscribers : List Bytes} {children : HashMap.Raw UInt8 Node}
    (hchildren : children.Valid hash) :
    (mk subscribers children).is_dead = true ↔ subscribers = [] ∧ children.entries = [] := by
  simp [is_dead, Node.subscribers, Node.children, HashMap.Raw.size, hchildren.counted]

theorem is_dead_total {hash : UInt8 → Nat} {self : Node} (hvalid : self.Valid hash) (hdead : self.is_dead = true) :
    self.total = 0 := by
  obtain ⟨hchildren, _⟩ := hvalid
  obtain ⟨hsubscribers, hentries⟩ := (is_dead_iff hchildren).mp hdead
  rw [total_of_no_entries hentries, hsubscribers]
  rfl

theorem empty_entries : empty.children.entries = [] := by
  simp [empty, Node.children, HashMap.Raw.new, HashMap.Raw.entries]

theorem empty_pruned : empty.Pruned := pruned_of_no_entries empty_entries

theorem empty_total : empty.total = 0 := total_of_no_entries empty_entries

/-- Insertion adds one subscriber, and no node on the way is left without a purpose. -/
theorem Pruned.insert {hash : UInt8 → Nat} {self : Node} (hvalid : self.Valid hash) (hpruned : self.Pruned)
    (path client_id : Bytes) :
    (self.insert hash path client_id).Pruned ∧ (self.insert hash path client_id).is_dead = false ∧
      (self.insert hash path client_id).total = self.total + 1 := by
  induction path generalizing self with
  | nil =>
    obtain ⟨halive, hchild⟩ := hpruned
    refine ⟨.mk halive hchild, ?_, ?_⟩
    · simp [Node.insert, is_dead, Node.subscribers]
    · rw [Node.insert, total_eq, total_eq, List.length_append, List.length_singleton]
      omega
  | cons ch rest ih =>
    obtain ⟨hchildren, hchild⟩ := hvalid
    rename_i subscribers children
    obtain ⟨grown, hinsert, hgrown, hfind⟩ := insert_cons hchildren subscribers ch rest client_id
    have hbelow := (pruned_iff hchildren).mp hpruned
    have hcurrent : ((children.find hash ch).getD empty).Pruned := by
      cases hold : children.find hash ch with
      | none => exact empty_pruned
      | some child => exact (hbelow ch child hold).2
    obtain ⟨hnext, hnextAlive, hnextTotal⟩ := ih (child_valid hchild ch) hcurrent
    rw [hinsert]
    refine ⟨(pruned_iff hgrown).mpr ?_, ?_, ?_⟩
    · intro other child hother
      rw [hfind] at hother
      split at hother
      · cases hother
        exact ⟨hnextAlive, hnext⟩
      · exact hbelow other child hother
    · rw [Bool.eq_false_iff, ne_eq, is_dead_iff hgrown]
      rintro ⟨_, hentries⟩
      have hmem := (hgrown.find_eq_some_iff ch _).mp ((hfind ch).trans (if_pos rfl))
      rw [hentries] at hmem
      cases hmem
    · have hchange := total_children_change subscribers hchildren hgrown ch
        (fun k hk => by rw [hfind, if_neg hk])
      have hstart : ((children.find hash ch).map total).getD 0 = ((children.find hash ch).getD empty).total := by
        cases children.find hash ch with
        | none => exact empty_total.symm
        | some child => rfl
      rw [hfind, if_pos rfl, Option.map_some, Option.getD_some, hnextTotal, hstart] at hchange
      omega

/-- A removal takes one subscriber away and leaves no dead node below the top. -/
theorem Pruned.remove {hash : UInt8 → Nat} {self left : Node} (hvalid : self.Valid hash) (hpruned : self.Pruned)
    {path client_id : Bytes} (hremove : self.remove hash path client_id = some left) :
    left.Pruned ∧ left.total + 1 = self.total := by
  induction path generalizing self left with
  | nil =>
    obtain ⟨halive, hchild⟩ := hpruned
    rw [Node.remove] at hremove
    split at hremove
    · rename_i hmem
      cases hremove
      refine ⟨.mk halive hchild, ?_⟩
      have hlength := List.length_erase_of_mem hmem
      have hpos := List.length_pos_of_mem hmem
      rw [total_eq, total_eq]
      omega
    · cases hremove
  | cons ch rest ih =>
    obtain ⟨hchildren, hchild⟩ := hvalid
    rename_i subscribers children
    obtain ⟨child, shrunk, kept, hfind, hrest, rfl, hkept, hkeptFind⟩ := remove_cons hchildren hremove
    have hbelow := (pruned_iff hchildren).mp hpruned
    obtain ⟨hshrunk, hshrunkTotal⟩ := ih (hchild ch child hfind) (hbelow ch child hfind).2 hrest
    refine ⟨(pruned_iff hkept).mpr ?_, ?_⟩
    · intro other found hfound
      obtain ⟨rfl, halive⟩ | hbefore := child_of_kept hkeptFind hfound
      · exact ⟨halive, hshrunk⟩
      · exact hbelow other found hbefore
    · have hchange := total_children_change subscribers hchildren hkept ch
        (fun k hk => by rw [hkeptFind, if_neg hk])
      have hlast : (((if shrunk.is_dead then none else some shrunk).map total).getD 0) = shrunk.total := by
        split
        · rename_i hdead
          rw [is_dead_total ((hchild ch child hfind).remove hrest).1 hdead]
          rfl
        · rfl
      rw [hkeptFind, if_pos rfl, hlast, hfind, Option.map_some, Option.getD_some] at hchange
      omega

/-- The nodes below move with the buckets that hold them. -/
theorem Pruned.move_assign {other : Node} (hpruned : other.Pruned) (self : Node) : (self.move_assign other).Pruned := by
  obtain ⟨halive, hchild⟩ := hpruned
  exact .mk halive hchild

theorem move_assign_total (self other : Node) : (self.move_assign other).total = other.total := by
  cases other
  rw [Node.move_assign, total_eq, total_eq]
  rfl

/-- A pruned node that is not dead has a client somewhere. -/
theorem Pruned.has_client {hash : UInt8 → Nat} {self : Node} (hpruned : self.Pruned) (hvalid : self.Valid hash)
    (halive : self.is_dead = false) : ∃ path, self.clients_at hash path ≠ [] := by
  induction hpruned with
  | @mk subscribers children hbelow _ ih =>
    obtain ⟨hchildren, hchild⟩ := hvalid
    by_cases hsubscribers : subscribers = []
    · cases hentries : children.entries with
      | nil =>
        rw [(is_dead_iff hchildren).mpr ⟨hsubscribers, hentries⟩] at halive
        cases halive
      | cons entry rest =>
        obtain ⟨ch, child⟩ := entry
        have hentry : (ch, child) ∈ children.entries := hentries ▸ List.mem_cons_self
        have hfind := (hchildren.find_eq_some_iff ch child).mpr hentry
        obtain ⟨path, hpath⟩ := ih _ hentry (hchild ch child hfind) (hbelow _ hentry)
        refine ⟨ch :: path, ?_⟩
        rw [clients_at_cons, Node.children, hfind]
        exact hpath
    · exact ⟨[], hsubscribers⟩

end Node

variable {hash : UInt8 → Nat}

/-- No node but the root may be dead, and the counter counts the subscribers of all nodes. -/
structure Tidy (tree : PrefixTree hash) : Prop where
  pruned : tree.root.Pruned
  counted : tree.subscriber_count = tree.root.total

theorem new_tidy : (new : PrefixTree hash).Tidy := ⟨Node.empty_pruned, Node.empty_total.symm⟩

theorem Tidy.insert {self : PrefixTree hash} (htidy : self.Tidy) (path client_id : Bytes) :
    (self.insert path client_id).Tidy := by
  obtain ⟨hpruned, _, htotal⟩ := htidy.pruned.insert self.valid path client_id
  refine ⟨hpruned, ?_⟩
  rw [PrefixTree.insert, htotal, htidy.counted]

/-- A removal that fails changes nothing, and one that succeeds finds the counter above zero. -/
theorem Tidy.remove {self : PrefixTree hash} (htidy : self.Tidy) (path client_id : Bytes) :
    (self.remove path client_id).2.Tidy := by
  unfold PrefixTree.remove
  split
  · exact htidy
  · rename_i left hremove
    obtain ⟨hpruned, htotal⟩ := htidy.pruned.remove self.valid hremove
    refine ⟨hpruned, ?_⟩
    rw [htidy.counted, ← htotal]
    rfl

/-- A tree whose root has neither subscribers nor children. -/
theorem tidy_of_bare {tree : PrefixTree hash} {children : HashMap.Raw UInt8 Node} (hroot : tree.root = .mk [] children)
    (hentries : children.entries = []) (hcount : tree.subscriber_count = 0) : tree.Tidy := by
  refine ⟨?_, ?_⟩
  · rw [hroot]
    exact Node.pruned_of_no_entries hentries
  · rw [hroot, hcount, Node.total_of_no_entries hentries]
    rfl

theorem clear_tidy (self : PrefixTree hash) : self.clear.Tidy :=
  tidy_of_bare rfl self.valid.children.clear.2 rfl

theorem moved_from_tidy (other : PrefixTree hash) : other.moved_from.Tidy := tidy_of_bare rfl rfl rfl

theorem Tidy.move_assign {other : PrefixTree hash} (htidy : other.Tidy) (self : PrefixTree hash) :
    (self.move_assign other).Tidy := by
  refine ⟨htidy.pruned.move_assign self.root, ?_⟩
  rw [PrefixTree.move_assign, Node.move_assign_total, htidy.counted]

variable {ι : Type} [DecidableEq ι]

theorem step_tidy (trees : ι → PrefixTree hash) (op : Op ι) (htidy : ∀ x, (trees x).Tidy) :
    ∀ x, ((step trees op).2 x).Tidy := by
  have hupdate : ∀ (objects : ι → PrefixTree hash) (x : ι) (object : PrefixTree hash), (∀ y, (objects y).Tidy) →
      object.Tidy → ∀ y, (Function.update objects x object y).Tidy := by
    intro objects x object hobjects hobject y
    by_cases hy : y = x
    · rw [hy, Function.update_self]
      exact hobject
    · rw [Function.update_of_ne hy]
      exact hobjects y
  cases op with
  | construct x => exact hupdate _ x _ htidy new_tidy
  | insert x path client_id => exact hupdate _ x _ htidy ((htidy x).insert path client_id)
  | remove x path client_id => exact hupdate _ x _ htidy ((htidy x).remove path client_id)
  | clear x => exact hupdate _ x _ htidy (trees x).clear_tidy
  | move_construct x y _ => exact hupdate _ y _ (hupdate _ x _ htidy (htidy y)) (trees y).moved_from_tidy
  | move_assign x y =>
    simp only [step]
    split
    · exact htidy
    · exact hupdate _ y _ (hupdate _ x _ htidy ((htidy y).move_assign (trees x))) (trees y).moved_from_tidy

theorem answers_tidy (trees : ι → PrefixTree hash) (ops : List (Op ι)) (htidy : ∀ x, (trees x).Tidy) :
    ∀ x, ((answers step trees ops).2 x).Tidy := by
  induction ops generalizing trees with
  | nil => exact htidy
  | cons op ops ih => exact ih _ (step_tidy trees op htidy)

/-- A tidy tree is its root alone exactly if no prefix has a client. -/
theorem Tidy.root_alone_iff {self : PrefixTree hash} (htidy : self.Tidy) :
    self.root.subscribers = [] ∧ self.root.children.entries = [] ↔ ∀ path, self.clients_at path = [] := by
  obtain ⟨⟨subscribers, children⟩, subscriber_count, hvalid⟩ := self
  have hchildren : children.Valid hash := hvalid.children
  constructor
  · rintro ⟨hsubscribers, hentries⟩
    exact Node.is_dead_clients_at hvalid ((Node.is_dead_iff hchildren).mpr ⟨hsubscribers, hentries⟩)
  · intro hnone
    apply (Node.is_dead_iff hchildren).mp
    by_contra halive
    obtain ⟨path, hpath⟩ := htidy.pruned.has_client hvalid (Bool.eq_false_iff.mpr halive)
    exact hpath (hnone path)

/-- Whatever a program does with its trees, no node but the root is ever without both
subscribers and children, the counter is the number of subscribers of all nodes, and a tree
is its root alone exactly if all that was inserted has been removed or cleared. -/
theorem pruned_and_counted (ops : List (Op ι)) (x : ι) :
    let tree := (answers step (fun _ : ι => (new : PrefixTree hash)) ops).2 x
    let clients := (answers Clients.step (fun _ => fun _ => []) ops).2 x
    tree.root.Pruned ∧ tree.subscriber_count = tree.root.total ∧
      (tree.root.subscribers = [] ∧ tree.root.children.entries = [] ↔ ∀ path, clients path = []) := by
  have htidy := answers_tidy (fun _ : ι => (new : PrefixTree hash)) ops (fun _ => new_tidy) x
  have hclients := (answers_agree
    (R := fun (trees : ι → PrefixTree hash) (lists : ι → Clients) => ∀ x, (trees x).Holds (lists x))
    step_holds (fun _ => holds_new) ops).2 x
  refine ⟨htidy.pruned, htidy.counted, ?_⟩
  rw [htidy.root_alone_iff, hclients]

end PrefixTree

end treenity.data_structures

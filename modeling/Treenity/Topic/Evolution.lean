import Mathlib.Logic.Relation
import Treenity.Topic.Shutdown

open treenity.protocol treenity.data_structures

namespace treenity.server.Topic

variable {H : StdHash}

/-- All that happens to a topic: registrations whose FIFO opens or does not, removals, new
messages, the turns of delivery passes with any answers of the kernel, and shutdown. -/
inductive Evolves : Topic H → Topic H → Prop
  | add_subscriber (self : Topic H) (client_id pref fifo_path : Bytes) (start_offset : UInt32) (opened : Option Fd) :
      Evolves self (self.add_subscriber client_id pref fifo_path start_offset opened).2.1
  | remove_subscriber (self : Topic H) (client_id : Bytes) : Evolves self (self.remove_subscriber client_id).2.1
  | append_message (self : Topic H) (key value : Bytes) : Evolves self (self.append_message key value)
  | deliver_next {self next : Topic H} {client_id : Bytes} {taken : Bool} {calls : List Syscall}
      (hdeliver : self.deliver_next client_id taken = some (next, calls)) : Evolves self next
  | shutdown (self : Topic H) (taken : Fd → Bool) : Evolves self (self.shutdown taken).1

/-- A pass that ends is a sequence of its turns. -/
theorem run_pass_evolves {self next : Topic H} {fuel : Nat} {outcomes : List Bool} {calls : List Syscall}
    (hpass : self.run_pass fuel outcomes = some (next, calls)) : Relation.ReflTransGen Evolves self next :=
  run_pass_induction (P := fun _ topic => Relation.ReflTransGen Evolves self topic)
    (fun _ _ _ _ _ _ hbefore hdeliver => hbefore.tail (.deliver_next hdeliver)) [] .refl hpass

theorem Synced.evolves {self next : Topic H} (hsync : self.Synced) (hstep : Evolves self next) : next.Synced := by
  cases hstep with
  | add_subscriber client_id pref fifo_path start_offset opened =>
    exact hsync.add_subscriber client_id pref fifo_path start_offset opened
  | remove_subscriber client_id =>
    rw [remove_subscriber_eq]
    exact hsync.drop_subscriber client_id
  | append_message key value => exact hsync.append_message key value
  | deliver_next hdeliver => exact hsync.deliver_next hdeliver
  | shutdown taken => exact hsync.shutdown taken

theorem Synced.reached {self next : Topic H} (hsync : self.Synced) (hreach : Relation.ReflTransGen Evolves self next) :
    next.Synced := by
  induction hreach with
  | refl => exact hsync
  | tail _ hstep ih => exact ih.evolves hstep

/-- The prefix and the client of every entry of the table. -/
def registrations (self : Topic H) : List (Bytes × Bytes) :=
  self.subscribers.entries.map fun entry => (entry.2.pref, entry.2.client_id)

/-- Each entry is stored under its client. -/
theorem Synced.entry_ids {self : Topic H} (hsync : self.Synced) :
    ∀ entry ∈ self.subscribers.entries, entry.2.client_id = entry.1 := by
  rintro ⟨id, sub⟩ hentry
  exact hsync.ids id sub (HashMap.find_of_mem_entries hentry)

theorem Synced.registrations_nodup {self : Topic H} (hsync : self.Synced) : self.registrations.Nodup := by
  apply List.Nodup.of_map Prod.snd
  have hkeys : self.registrations.map Prod.snd = self.subscribers.keys := by
    rw [registrations, List.map_map]
    exact List.map_congr_left hsync.entry_ids
  rw [hkeys]
  exact self.subscribers.keys_nodup

theorem Synced.mem_registrations_iff {self : Topic H} (hsync : self.Synced) (path id : Bytes) :
    (path, id) ∈ self.registrations ↔ (self.subscribers.find id).any (fun sub => sub.pref == path) = true := by
  rw [registrations, List.mem_map, Option.any_eq_true]
  constructor
  · rintro ⟨⟨key, sub⟩, hentry, hsame⟩
    obtain ⟨rfl, rfl⟩ := Prod.mk.inj hsame
    have hfind := HashMap.find_of_mem_entries hentry
    rw [← hsync.ids key sub hfind] at hfind
    exact ⟨sub, hfind, beq_self_eq_true _⟩
  · rintro ⟨sub, hfind, hpath⟩
    refine ⟨(id, sub), HashMap.mem_entries_of_find hfind, ?_⟩
    rw [hsync.ids id sub hfind, beq_iff_eq.mp hpath]

/-- The tree holds each registration of the table once and nothing else. -/
theorem Synced.count_registrations {self : Topic H} (hsync : self.Synced) (path id : Bytes) :
    (self.prefix_tree.clients_at path).count id = self.registrations.count (path, id) := by
  rw [hsync.clients, hsync.registrations_nodup.count]
  simp only [hsync.mem_registrations_iff]

/-- Whatever has happened to a topic, its tree holds the prefix and the client of each entry
of the table, each once, and nothing else, and each entry is stored under its client.
So the worker finds a client among the matches of a key exactly if its prefix starts the key. -/
theorem matches_registered (topic_name : Bytes) {self : Topic H}
    (hreach : Relation.ReflTransGen Evolves (new topic_name) self) :
    (∀ path id, (self.prefix_tree.clients_at path).count id = self.registrations.count (path, id)) ∧
    self.registrations.Nodup ∧
    (∀ entry ∈ self.subscribers.entries, entry.2.client_id = entry.1) ∧
    ∀ entry ∈ self.subscribers.entries, ∀ key,
      (self.prefix_tree.matching_clients key).contains entry.2.client_id = true ↔ entry.2.pref <+: key := by
  have hsync := (new_synced topic_name).reached hreach
  refine ⟨hsync.count_registrations, hsync.registrations_nodup, hsync.entry_ids, ?_⟩
  rintro ⟨id, sub⟩ hentry key
  have hid : sub.client_id = id := hsync.entry_ids _ hentry
  rw [List.contains_iff_mem, hid]
  exact hsync.is_matched_iff (HashMap.find_of_mem_entries hentry) key

/-- A client that comes back under another prefix, and whose next FIFO does not open. -/
theorem matches_registered_again :
    let first : Topic ⟨List.length, UInt8.toNat, UInt32.toNat⟩ :=
      ((new [116]).add_subscriber [99] [97] [47] 0 (some 3)).2.1
    let second := (first.add_subscriber [99] [98] [47] 0 (some 4)).2.1
    second.registrations = [([98], [99])] ∧ (second.prefix_tree.clients_at [97]).count [99] = 0 ∧
      ((second.add_subscriber [99] [98] [47] 0 none).2.1.prefix_tree.clients_at [98]).count [99] = 0 := by
  intro first second
  have hsecond : Relation.ReflTransGen Evolves (new [116]) second :=
    (Relation.ReflTransGen.single (.add_subscriber _ _ _ _ _ _)).tail (.add_subscriber _ _ _ _ _ _)
  have hlast := hsecond.tail (.add_subscriber second [99] [98] [47] 0 none)
  refine ⟨by decide +kernel, ?_, ?_⟩
  · rw [(matches_registered [116] hsecond).1]
    decide +kernel
  · rw [(matches_registered [116] hlast).1]
    decide +kernel

end treenity.server.Topic

import Ns3Noc.NdiscMessages

/-!
# Entries of the neighbour discovery cache

A property of all entries, and the changes of the cache that keep it.
-/
namespace Ns3Noc.Ndisc

open Ipv6 KeyedTables

variable {Packet : Type} {cache : NdiscCache Packet} {entry entry' : Entry Packet}
  {dst : Ipv6Address} {P : Entry Packet → Prop}

/-- The reachable timer is running whether it was or not. -/
def Entry.restartReachableTimer (entry : Entry Packet) : Entry Packet :=
  { entry with reachableTimer := true }

@[simp] theorem Entry.startReachableTimer_stop (entry : Entry Packet) :
    entry.stopReachableTimer.startReachableTimer = some entry.restartReachableTimer := rfl

/-- All entries have the property, and are under different addresses, each under its own. -/
structure AllEntries (P : Entry Packet → Prop) (cache : NdiscCache Packet) : Prop where
  keys : (cache.map Prod.fst).Nodup
  all : ∀ p ∈ cache, P p.2
  address : ∀ p ∈ cache, p.2.ipv6Address = p.1

namespace AllEntries

theorem nil : AllEntries P ([] : NdiscCache Packet) :=
  ⟨List.nodup_nil, fun _ h => absurd h List.not_mem_nil, fun _ h => absurd h List.not_mem_nil⟩

theorem of_find (h : AllEntries P cache) (hentry : find cache dst = some entry) : P entry :=
  h.all _ (mem_of_find hentry)

theorem address_of_find (h : AllEntries P cache) (hentry : find cache dst = some entry) :
    entry.ipv6Address = dst :=
  h.address _ (mem_of_find hentry)

theorem putEntry (h : AllEntries P cache) (hentry : P entry) :
    AllEntries P (cache.putEntry entry) where
  keys := by
    rw [NdiscCache.putEntry, keys_put]
    exact h.keys
  all p hp := by
    rcases mem_put hp with rfl | ⟨hp, -⟩
    · exact hentry
    · exact h.all p hp
  address p hp := by
    rcases mem_put hp with rfl | ⟨hp, -⟩
    · rfl
    · exact h.address p hp

theorem remove (h : AllEntries P cache) (address : Ipv6Address) :
    AllEntries P (KeyedTables.remove cache address) where
  keys := keys_remove_nodup h.keys address
  all p hp := h.all p (mem_remove hp)
  address p hp := h.address p (mem_remove hp)

theorem cons (h : AllEntries P cache) (hnone : find cache dst = none) (hentry : P entry)
    (haddress : entry.ipv6Address = dst) : AllEntries P ((dst, entry) :: cache) where
  keys := List.nodup_cons.mpr ⟨find_eq_none hnone, h.keys⟩
  all p hp := by
    rcases List.mem_cons.mp hp with rfl | hp
    · exact hentry
    · exact h.all p hp
  address p hp := by
    rcases List.mem_cons.mp hp with rfl | hp
    · exact haddress
    · exact h.address p hp

theorem modify (h : AllEntries P cache) {f : Entry Packet → Entry Packet}
    (hf : ∀ entry, find cache dst = some entry → P (f entry))
    (haddress : ∀ entry, (f entry).ipv6Address = entry.ipv6Address) :
    AllEntries P (KeyedTables.modify cache dst f) where
  keys := by
    rw [keys_modify]
    exact h.keys
  all p hp := by
    rcases mem_modify hp with ⟨e, he, rfl⟩ | hp
    · exact hf e (find_of_mem h.keys he)
    · exact h.all p hp
  address p hp := by
    rcases mem_modify hp with ⟨e, he, rfl⟩ | hp
    · exact (haddress e).trans (h.address _ he)
    · exact h.address p hp

/-- An entry that has been replaced is found. -/
theorem find_putEntry (h : AllEntries P cache) (hold : find cache dst = some entry')
    (haddress : entry.ipv6Address = dst) : find (cache.putEntry entry) dst = some entry := by
  rw [NdiscCache.putEntry, haddress]
  exact find_put_self h.keys hold entry

end AllEntries

theorem putEntry_putEntry (haddress : entry'.ipv6Address = entry.ipv6Address) :
    (cache.putEntry entry).putEntry entry' = cache.putEntry entry' := by
  rw [NdiscCache.putEntry, NdiscCache.putEntry, NdiscCache.putEntry, haddress, put_put]

theorem modify_putEntry {f : Entry Packet → Entry Packet} (haddress : entry.ipv6Address = dst)
    (hf : (f entry).ipv6Address = entry.ipv6Address) :
    modify (cache.putEntry entry) dst f = cache.putEntry (f entry) := by
  rw [NdiscCache.putEntry, NdiscCache.putEntry, hf, haddress, modify_put]

end Ns3Noc.Ndisc

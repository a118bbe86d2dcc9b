import Ns3Noc.ArpCache
import Ns3Noc.PartialRuns
import Mathlib.Algebra.Order.Group.Multiset
import Mathlib.Tactic.Abel

/-!
# Runs of the ARP cache

Packets that are looked up, messages that are received, flushes and the timer, at any times that
respect the timer.
-/
namespace Ns3Noc.Arp

open KeyedTables PartialRuns

variable {Packet : Type} {attributes : Attributes} {now : ℤ} {cache : ArpCache Packet}
  {entry : Entry Packet} {packet : Packet} {destination : Ipv4Address}

/-- All packets that wait for a reply. -/
def ArpCache.pendings (cache : ArpCache Packet) : List Packet :=
  cache.arpCache.flatMap (·.2.pending)

/-- What holds between events: a waiting entry was seen at most one timeout before the timer runs
out, and no other entry holds a packet. -/
structure Consistent (attributes : Attributes) (now : ℤ) (cache : ArpCache Packet) : Prop where
  keys : (cache.arpCache.map Prod.fst).Nodup
  address : ∀ p ∈ cache.arpCache, p.2.ipv4Address = p.1
  timer : ∀ expiry ∈ cache.waitReplyTimer,
    now ≤ expiry ∧ expiry ≤ now + attributes.waitReplyTimeout
  waiting : ∀ p ∈ cache.arpCache, p.2.state = .waitReply →
    ∃ expiry ∈ cache.waitReplyTimer, expiry ≤ p.2.lastSeen + attributes.waitReplyTimeout
  idle : ∀ p ∈ cache.arpCache, p.2.state ≠ .waitReply → p.2.pending = []

theorem consistent_empty (attributes : Attributes) (now : ℤ) :
    Consistent attributes now ({} : ArpCache Packet) where
  keys := List.nodup_nil
  address _ h := absurd h List.not_mem_nil
  timer _ h := absurd h (Option.not_mem_none _)
  waiting _ h := absurd h List.not_mem_nil
  idle _ h := absurd h List.not_mem_nil

/-- What a lookup does to the queued packets. -/
def Accounts (answer : Answer) (packet : Packet) (before after : List Packet) : Prop :=
  match answer with
  | .queued => after.Perm (packet :: before)
  | _ => after.Perm before

namespace Consistent

/-- Time passes up to the expiry of the timer. -/
theorem wait (h : Consistent attributes now cache) {time : ℤ} (hle : now ≤ time)
    (htimer : ∀ expiry ∈ cache.waitReplyTimer, time ≤ expiry) :
    Consistent attributes time cache where
  keys := h.keys
  address := h.address
  timer expiry he := by
    have := h.timer expiry he
    exact ⟨htimer expiry he, by omega⟩
  waiting := h.waiting
  idle := h.idle

theorem lookup_address (h : Consistent attributes now cache)
    (hentry : cache.lookup destination = some entry) : entry.ipv4Address = destination :=
  h.address _ (mem_of_find hentry)

/-- An entry is replaced by one that is as consistent. -/
theorem putEntry (h : Consistent attributes now cache) (entry' : Entry Packet)
    (hwaiting : entry'.state = .waitReply → ∃ expiry ∈ cache.waitReplyTimer,
      expiry ≤ entry'.lastSeen + attributes.waitReplyTimeout)
    (hidle : entry'.state ≠ .waitReply → entry'.pending = []) :
    Consistent attributes now (cache.putEntry entry') where
  keys := by
    rw [ArpCache.putEntry, keys_put]
    exact h.keys
  address p hp := by
    rcases mem_put hp with rfl | ⟨hp, -⟩
    · rfl
    · exact h.address p hp
  timer := h.timer
  waiting p hp hstate := by
    rcases mem_put hp with rfl | ⟨hp, -⟩
    · exact hwaiting hstate
    · exact h.waiting p hp hstate
  idle p hp hstate := by
    rcases mem_put hp with rfl | ⟨hp, -⟩
    · exact hidle hstate
    · exact h.idle p hp hstate

/-- The timer runs out before the reply to a waiting packet could time out. -/
theorem not_isExpired (h : Consistent attributes now cache)
    (hentry : cache.lookup destination = some entry) (hstate : entry.state = .waitReply) :
    entry.isExpired attributes now = false := by
  obtain ⟨expiry, hexpiry, hle⟩ := h.waiting _ (mem_of_find hentry) hstate
  have hnow := (h.timer expiry hexpiry).1
  dsimp only at hle
  rw [Entry.isExpired, Entry.getTimeout, hstate, decide_eq_false_iff_not]
  dsimp only
  omega

theorem pendings_putEntry (h : Consistent attributes now cache)
    (hentry : cache.lookup destination = some entry) (entry' : Entry Packet)
    (haddress : entry'.ipv4Address = destination) :
    ∃ rest, cache.pendings.Perm (entry.pending ++ rest) ∧
      (cache.putEntry entry').pendings.Perm (entry'.pending ++ rest) := by
  obtain ⟨rest, hcache, hput, -⟩ := perm_of_find h.keys hentry
  refine ⟨rest.flatMap fun p : Ipv4Address × Entry Packet => p.2.pending,
    hcache.flatMap_right _, ?_⟩
  rw [ArpCache.pendings, ArpCache.putEntry, haddress]
  exact (hput entry').flatMap_right _

/-- An entry that starts to wait has the packet queued, and the timer running. -/
theorem markWaitReply (h : Consistent attributes now cache)
    (hentry : cache.lookup destination = some entry) (hstate : entry.state ≠ .waitReply)
    (packet : Packet) :
    ∃ cache', Arp.markWaitReply cache attributes now entry packet = some cache' ∧
      Consistent attributes now cache' ∧ cache'.pendings.Perm (packet :: cache.pendings) := by
  have hidle : entry.pending = [] := h.idle _ (mem_of_find hentry) hstate
  have haddress : entry.ipv4Address = destination := h.lookup_address hentry
  have hassert : (entry.state = .alive ∨ entry.state = .dead) ∧ entry.pending = [] := by
    refine ⟨?_, hidle⟩
    cases hs : entry.state with
    | alive => exact .inl rfl
    | waitReply => exact absurd hs hstate
    | dead => exact .inr rfl
  obtain ⟨rest, hcache, hput⟩ := h.pendings_putEntry hentry
    ({ entry with state := .waitReply, pending := entry.pending ++ [packet] }.updateSeen now)
    haddress
  have hperm : (cache.putEntry ({ entry with
      state := .waitReply
      pending := entry.pending ++ [packet] }.updateSeen now)).pendings.Perm
        (packet :: cache.pendings) := by
    refine hput.trans ?_
    rw [hidle] at hcache ⊢
    exact hcache.symm.cons packet
  have hpos := attributes.waitReply_pos
  rw [Arp.markWaitReply, Entry.markWaitReply, if_pos hassert, Option.map_some,
    ArpCache.startWaitReplyTimer]
  refine ⟨_, rfl, ?_, ?_⟩
  · split
    · next hrunning =>
      obtain ⟨expiry, hexpiry⟩ := Option.isSome_iff_exists.mp hrunning
      exact h.putEntry _ (fun _ => ⟨expiry, hexpiry, (h.timer expiry hexpiry).2⟩)
        fun hne => absurd rfl hne
    · next hstopped =>
      have hnone : cache.waitReplyTimer = none := Option.not_isSome_iff_eq_none.mp hstopped
      -- no other entry waits, since the timer was not running
      have hstart : Consistent attributes now
          { cache with waitReplyTimer := some (now + attributes.waitReplyTimeout) } := {
        keys := h.keys
        address := h.address
        timer := fun expiry he => by
          obtain rfl := Option.some.inj he
          omega
        waiting := fun p hp hw => by
          obtain ⟨expiry, hexpiry, -⟩ := h.waiting p hp hw
          rw [hnone] at hexpiry
          cases hexpiry
        idle := h.idle }
      exact hstart.putEntry _ (fun _ => ⟨_, rfl, le_rfl⟩) fun hne => absurd rfl hne
  · split
    · exact hperm
    · exact hperm

/-- A new entry is alive and holds no packet. -/
theorem add (h : Consistent attributes now cache) (hentry : cache.lookup destination = none) :
    ∃ cache' entry', cache.add destination = some (cache', entry') ∧
      Consistent attributes now cache' ∧ cache'.lookup destination = some entry' ∧
      entry'.state ≠ .waitReply ∧ cache'.pendings = cache.pendings := by
  rw [ArpCache.add, hentry]
  refine ⟨_, _, rfl, ?_, ?_, EntryState.noConfusion, rfl⟩
  · exact {
      keys := List.nodup_cons.mpr ⟨find_eq_none hentry, h.keys⟩
      address := fun p hp => by
        rcases List.mem_cons.mp hp with rfl | hp
        · rfl
        · exact h.address p hp
      timer := h.timer
      waiting := fun p hp hw => by
        rcases List.mem_cons.mp hp with rfl | hp
        · cases hw
        · exact h.waiting p hp hw
      idle := fun p hp hw => by
        rcases List.mem_cons.mp hp with rfl | hp
        · rfl
        · exact h.idle p hp hw }
  · rw [ArpCache.lookup, find]
    simp

/-- A lookup does not fail. -/
theorem lookup (h : Consistent attributes now cache) (packet : Packet)
    (destination : Ipv4Address) :
    ∃ cache' answer requests,
      Arp.lookup cache attributes now packet destination = some (cache', answer, requests) ∧
      Consistent attributes now cache' ∧
      Accounts answer packet cache.pendings cache'.pendings := by
  rw [Arp.lookup]
  cases hentry : cache.lookup destination with
  | none =>
    obtain ⟨cache₁, entry, hadd, h₁, hentry₁, hstate, hpend⟩ := h.add hentry
    obtain ⟨cache₂, hmark, h₂, hperm⟩ := h₁.markWaitReply hentry₁ hstate packet
    dsimp only
    rw [hadd, Option.bind_some]
    dsimp only
    rw [hmark]
    exact ⟨cache₂, .queued, [destination], rfl, h₂, hpend ▸ hperm⟩
  | some entry =>
    dsimp only
    cases hstate : entry.state with
    | waitReply =>
      rw [h.not_isExpired hentry hstate, if_neg Bool.false_ne_true]
      dsimp only
      rw [Entry.updateWaitReply, if_pos hstate]
      have haddress : entry.ipv4Address = destination := h.lookup_address hentry
      obtain ⟨expiry, hexpiry, hle⟩ := h.waiting _ (mem_of_find hentry) hstate
      split
      · have hsame : cache.putEntry entry = cache := by
          rw [ArpCache.putEntry, haddress, put_find h.keys hentry]
        refine ⟨cache, .dropped, [], ?_, h, List.Perm.refl _⟩
        rw [Option.map_some, hsame]
        rfl
      · obtain ⟨rest, hcache, hput⟩ := h.pendings_putEntry hentry
          { entry with pending := entry.pending ++ [packet] } haddress
        refine ⟨_, .queued, [], rfl, ?_, ?_⟩
        · exact h.putEntry _ (fun _ => ⟨expiry, hexpiry, hle⟩) fun hne => absurd hstate hne
        · refine hput.trans ?_
          have hmiddle : (entry.pending ++ [packet] ++ rest).Perm
              (packet :: (entry.pending ++ rest)) := by
            rw [List.append_assoc]
            exact List.perm_middle
          exact hmiddle.trans (hcache.symm.cons packet)
    | alive =>
      have hne : entry.state ≠ .waitReply := by rw [hstate]; exact EntryState.noConfusion
      split
      · rw [if_neg (by rw [Entry.isWaitReply, hstate]; decide)]
        obtain ⟨cache', hmark, h', hperm⟩ := h.markWaitReply hentry hne packet
        rw [hmark]
        exact ⟨cache', .queued, [destination], rfl, h', hperm⟩
      · rw [Entry.getMacAddress, if_pos hstate]
        exact ⟨cache, _, [], rfl, h, List.Perm.refl _⟩
    | dead =>
      have hne : entry.state ≠ .waitReply := by rw [hstate]; exact EntryState.noConfusion
      split
      · rw [if_neg (by rw [Entry.isWaitReply, hstate]; decide)]
        obtain ⟨cache', hmark, h', hperm⟩ := h.markWaitReply hentry hne packet
        rw [hmark]
        exact ⟨cache', .queued, [destination], rfl, h', hperm⟩
      · exact ⟨cache, .dropped, [], rfl, h, List.Perm.refl _⟩

/-- A packet for an entry that has just become alive is resolved, and the cache stays. -/
theorem lookup_alive (attributes : Attributes) (hentry : cache.lookup destination = some entry)
    (hstate : entry.state = .alive) (hseen : entry.lastSeen = now) (packet : Packet) :
    Arp.lookup cache attributes now packet destination =
      some (cache, .resolved entry.macAddress, []) := by
  have hfresh : entry.isExpired attributes now = false := by
    have hpos := attributes.alive_pos
    rw [Entry.isExpired, Entry.getTimeout, hstate, decide_eq_false_iff_not, hseen]
    dsimp only
    omega
  rw [Arp.lookup, hentry]
  dsimp only
  rw [hfresh, if_neg Bool.false_ne_true, hstate]
  dsimp only
  rw [Entry.getMacAddress, if_pos hstate]
  rfl

/-- All packets that wait for the entry are sent. -/
theorem sendPending_eq (attributes : Attributes) (hkeys : (cache.arpCache.map Prod.fst).Nodup)
    (hentry : cache.lookup destination = some entry) (haddress : entry.ipv4Address = destination)
    (hstate : entry.state = .alive) (hseen : entry.lastSeen = now) {fuel : ℕ}
    (hfuel : entry.pending.length < fuel) :
    sendPending attributes now destination fuel cache =
      some (cache.putEntry { entry with pending := [] }, entry.pending) := by
  induction fuel generalizing cache entry with
  | zero => exact absurd hfuel (Nat.not_lt_zero _)
  | succ fuel ih =>
    rw [sendPending, hentry, Option.bind_some]
    cases hpending : entry.pending with
    | nil =>
      have hself : { entry with pending := [] } = entry := by rw [← hpending]
      dsimp only
      rw [hself, ArpCache.putEntry, haddress, put_find hkeys hentry]
    | cons packet pending =>
      rw [hpending] at hfuel
      have hput : (cache.putEntry { entry with pending }).lookup destination =
          some { entry with pending } := by
        rw [ArpCache.lookup, ArpCache.putEntry, haddress]
        exact find_put_self hkeys hentry _
      have hkeys' : ((cache.putEntry { entry with pending }).arpCache.map Prod.fst).Nodup := by
        rw [ArpCache.putEntry, keys_put]
        exact hkeys
      have hlookup := lookup_alive attributes hput hstate hseen
      have hrest := ih hkeys' hput haddress hstate hseen (Nat.lt_of_succ_lt_succ hfuel)
      dsimp only
      rw [hlookup, Option.bind_some, hrest, Option.map_some]
      dsimp only
      rw [ArpCache.putEntry, ArpCache.putEntry, put_put]
      rfl

/-- A reply for a waiting entry sends what waits for it. -/
theorem handleReply (h : Consistent attributes now cache) (arp : ArpHeader) :
    ∃ cache' sent, Arp.handleReply cache attributes now arp = some (cache', sent) ∧
      Consistent attributes now cache' ∧ cache.pendings.Perm (sent ++ cache'.pendings) := by
  rw [Arp.handleReply]
  cases hentry : cache.lookup arp.sourceIpv4Address with
  | none => exact ⟨cache, [], rfl, h, List.Perm.refl _⟩
  | some entry =>
    dsimp only
    split
    · next hwaits =>
      have hstate : entry.state = .waitReply := of_decide_eq_true hwaits
      have haddress : entry.ipv4Address = arp.sourceIpv4Address := h.lookup_address hentry
      rw [Entry.markAlive, if_pos hstate, Option.bind_some]
      have hkeys : ∀ entry' : Entry Packet,
          ((cache.putEntry entry').arpCache.map Prod.fst).Nodup := by
        intro entry'
        rw [ArpCache.putEntry, keys_put]
        exact h.keys
      let alive : Entry Packet :=
        { entry with macAddress := arp.sourceHardwareAddress, state := .alive, retries := 0, lastSeen := now }
      have halive : (cache.putEntry alive).lookup arp.sourceIpv4Address = some alive := by
        have haddress' : alive.ipv4Address = arp.sourceIpv4Address := haddress
        rw [ArpCache.lookup, ArpCache.putEntry, haddress']
        exact find_put_self h.keys hentry _
      have hsend := sendPending_eq attributes (hkeys alive) halive haddress rfl rfl
        (Nat.lt_succ_self _)
      refine ⟨_, _, hsend, ?_, ?_⟩
      · rw [ArpCache.putEntry, ArpCache.putEntry, put_put]
        exact h.putEntry { alive with pending := [] } (fun hw => EntryState.noConfusion hw)
          fun _ => rfl
      · obtain ⟨rest, hcache, hrest⟩ :=
          h.pendings_putEntry hentry { alive with pending := [] } haddress
        rw [ArpCache.putEntry, ArpCache.putEntry, put_put]
        exact hcache.trans (hrest.symm.append_left entry.pending)
    · exact ⟨cache, [], rfl, h, List.Perm.refl _⟩

theorem receive (h : Consistent attributes now cache) (arp : ArpHeader) (device : Address)
    (addresses : List Ipv4Address) :
    ∃ cache' sent, Arp.receive cache attributes now arp device addresses = some (cache', sent) ∧
      Consistent attributes now cache' ∧ cache.pendings.Perm (sent ++ cache'.pendings) := by
  induction addresses with
  | nil => exact ⟨cache, [], rfl, h, List.Perm.refl _⟩
  | cons address addresses ih =>
    rw [Arp.receive]
    split
    · exact ⟨cache, [], rfl, h, List.Perm.refl _⟩
    · split
      · exact h.handleReply arp
      · exact ih

/-! ## The timer -/

theorem perm_handleWaitReplyTimeout (entry : Entry Packet) :
    entry.pending.Perm ((entry.handleWaitReplyTimeout attributes now).2.2 ++
      (entry.handleWaitReplyTimeout attributes now).1.pending) := by
  rw [Entry.handleWaitReplyTimeout]
  split
  · split
    · exact List.Perm.refl _
    · rw [List.append_nil]
  · exact List.Perm.refl _

/-- An entry that still waits has been asked for again. -/
theorem handleWaitReplyTimeout_waiting
    (hstate : (entry.handleWaitReplyTimeout attributes now).1.state = .waitReply) :
    (entry.handleWaitReplyTimeout attributes now).1.lastSeen = now ∧
      (entry.handleWaitReplyTimeout attributes now).2.1 = [entry.ipv4Address] := by
  rw [Entry.handleWaitReplyTimeout] at hstate ⊢
  split at hstate
  · split at hstate
    · next hwaits hretries =>
      rw [if_pos hwaits, if_pos hretries]
      exact ⟨rfl, rfl⟩
    · cases hstate
  · next hwaits => exact absurd (decide_eq_true hstate) hwaits

theorem handleWaitReplyTimeout_idle (hidle : entry.state ≠ .waitReply → entry.pending = [])
    (hstate : (entry.handleWaitReplyTimeout attributes now).1.state ≠ .waitReply) :
    (entry.handleWaitReplyTimeout attributes now).1.pending = [] := by
  rw [Entry.handleWaitReplyTimeout] at hstate ⊢
  split at hstate
  · next hwaits =>
    split at hstate
    · exact absurd (of_decide_eq_true hwaits) hstate
    · next hretries => rw [if_pos hwaits, if_neg hretries]
  · next hwaits =>
    rw [if_neg hwaits]
    exact hidle hstate

theorem handleWaitReplyTimeout_address :
    (entry.handleWaitReplyTimeout attributes now).1.ipv4Address = entry.ipv4Address := by
  rw [Entry.handleWaitReplyTimeout]
  split
  · split <;> rfl
  · rfl

/-- The timer has run out: entries are asked for again, or give up their packets. -/
theorem handleWaitReplyTimeout (h : Consistent attributes now cache) :
    Consistent attributes now (cache.handleWaitReplyTimeout attributes now).1 ∧
      cache.pendings.Perm ((cache.handleWaitReplyTimeout attributes now).2.2 ++
        (cache.handleWaitReplyTimeout attributes now).1.pendings) := by
  have hentries : (cache.handleWaitReplyTimeout attributes now).1.arpCache =
      cache.arpCache.map fun p => (p.1, (p.2.handleWaitReplyTimeout attributes now).1) := by
    rw [ArpCache.handleWaitReplyTimeout, List.map_map]
    rfl
  have hmem : ∀ p ∈ (cache.handleWaitReplyTimeout attributes now).1.arpCache,
      ∃ q ∈ cache.arpCache, p = (q.1, (q.2.handleWaitReplyTimeout attributes now).1) := by
    intro p hp
    rw [hentries] at hp
    obtain ⟨q, hq, rfl⟩ := List.mem_map.mp hp
    exact ⟨q, hq, rfl⟩
  have hpos := attributes.waitReply_pos
  refine ⟨⟨?_, fun p hp => ?_, fun expiry he => ?_, fun p hp hstate => ?_, fun p hp hstate => ?_⟩, ?_⟩
  · rw [hentries, List.map_map]
    exact h.keys
  · obtain ⟨q, hq, rfl⟩ := hmem p hp
    exact handleWaitReplyTimeout_address.trans (h.address q hq)
  · rw [ArpCache.handleWaitReplyTimeout] at he
    dsimp only at he
    split at he
    · cases he
    · obtain rfl := Option.some.inj he
      omega
  · obtain ⟨q, hq, rfl⟩ := hmem p hp
    obtain ⟨hseen, hrequest⟩ := handleWaitReplyTimeout_waiting hstate
    have hsome : (cache.handleWaitReplyTimeout attributes now).2.1 ≠ [] := by
      rw [ArpCache.handleWaitReplyTimeout, List.flatMap_map]
      intro hnil
      have hnone := List.flatMap_eq_nil_iff.mp hnil q hq
      rw [hrequest] at hnone
      cases hnone
    refine ⟨now + attributes.waitReplyTimeout, if_neg hsome, ?_⟩
    dsimp only
    rw [hseen]
  · obtain ⟨q, hq, rfl⟩ := hmem p hp
    exact handleWaitReplyTimeout_idle (h.idle q hq) hstate
  · have hdropped : (cache.handleWaitReplyTimeout attributes now).2.2 =
        cache.arpCache.flatMap fun p => (p.2.handleWaitReplyTimeout attributes now).2.2 := by
      rw [ArpCache.handleWaitReplyTimeout, List.flatMap_map, List.flatMap_map]
    rw [ArpCache.pendings, ArpCache.pendings, hentries, hdropped, List.flatMap_map]
    refine List.Perm.trans ?_ (List.flatMap_append_perm _ _ _).symm
    exact List.Perm.flatMap_left _ fun q _ => perm_handleWaitReplyTimeout q.2

end Consistent

/-! ## Runs -/

variable {device : Address} {addresses : List Ipv4Address}

inductive ArpEvent (Packet : Type) where
  | lookup (time : ℤ) (packet : Packet) (destination : Ipv4Address)
  | receive (time : ℤ) (arp : Option ArpHeader)
  | flush (time : ℤ)
  | waitReplyTimer (time : ℤ)

def ArpEvent.time : ArpEvent Packet → ℤ
  | lookup time .. => time
  | receive time _ => time
  | flush time => time
  | waitReplyTimer time => time

/-- The cache, and what has become of the packets given to `Lookup`. -/
structure ArpRun (Packet : Type) where
  now : ℤ := 0
  cache : ArpCache Packet := {}
  given : List Packet := []
  resolved : List Packet := []
  dropped : List Packet := []
  flushed : List Packet := []
  sent : List Packet := []

namespace ArpRun

variable {r r' : ArpRun Packet} {e : ArpEvent Packet}

/-- A header that cannot be read is ignored. -/
def step (attributes : Attributes) (device : Address) (addresses : List Ipv4Address)
    (r : ArpRun Packet) : ArpEvent Packet → Option (ArpRun Packet)
  | .lookup time packet destination =>
    (Arp.lookup r.cache attributes time packet destination).map fun (cache, answer, _) =>
      match answer with
      | .resolved _ => { r with
          now := time, cache, given := packet :: r.given, resolved := packet :: r.resolved }
      | .queued => { r with now := time, cache, given := packet :: r.given }
      | .dropped => { r with
          now := time, cache, given := packet :: r.given, dropped := packet :: r.dropped }
  | .receive time none => some { r with now := time }
  | .receive time (some arp) =>
    (Arp.receive r.cache attributes time arp device addresses).map fun (cache, sent) =>
      { r with now := time, cache, sent := sent ++ r.sent }
  | .flush time =>
    some { r with now := time, cache := r.cache.flush, flushed := r.cache.pendings ++ r.flushed }
  | .waitReplyTimer time =>
    let (cache, _, dropped) := r.cache.handleWaitReplyTimeout attributes time
    some { r with now := time, cache, dropped := dropped ++ r.dropped }

/-- Events do not go back in time, and the timer runs when it runs out. -/
def Legal (r : ArpRun Packet) (e : ArpEvent Packet) : Prop :=
  r.now ≤ e.time ∧ (∀ expiry ∈ r.cache.waitReplyTimer, e.time ≤ expiry) ∧
    match e with
    | .waitReplyTimer time => r.cache.waitReplyTimer = some time
    | _ => True

instance (r : ArpRun Packet) : DecidablePred r.Legal
  | .lookup .. => inferInstanceAs (Decidable (_ ∧ _ ∧ True))
  | .receive .. => inferInstanceAs (Decidable (_ ∧ _ ∧ True))
  | .flush .. => inferInstanceAs (Decidable (_ ∧ _ ∧ True))
  | .waitReplyTimer time =>
    inferInstanceAs (Decidable (_ ∧ _ ∧ r.cache.waitReplyTimer = some time))

/-- Waiting entries have the timer running, others hold no packet, and each packet that was given
to `Lookup` is in exactly one place. -/
structure Good (r : ArpRun Packet) : Prop where
  waiting : ∀ p ∈ r.cache.arpCache, p.2.state = .waitReply → r.cache.waitReplyTimer.isSome = true
  idle : ∀ p ∈ r.cache.arpCache, p.2.state ≠ .waitReply → p.2.pending = []
  accounted : r.given.Perm
    (r.resolved ++ (r.dropped ++ (r.flushed ++ (r.sent ++ r.cache.pendings))))

/-- What holds between events. -/
structure Holds (attributes : Attributes) (r : ArpRun Packet) : Prop where
  consistent : Consistent attributes r.now r.cache
  accounted : r.given.Perm
    (r.resolved ++ (r.dropped ++ (r.flushed ++ (r.sent ++ r.cache.pendings))))

theorem Holds.good (h : r.Holds attributes) : r.Good where
  waiting p hp hstate := by
    obtain ⟨expiry, hexpiry, -⟩ := h.consistent.waiting p hp hstate
    rw [hexpiry]
    rfl
  idle := h.consistent.idle
  accounted := h.accounted

theorem Holds.step (h : r.Holds attributes) (hlegal : r.Legal e) :
    ∃ r', step attributes device addresses r e = some r' ∧ r'.Holds attributes := by
  have hwait := h.consistent.wait hlegal.1 hlegal.2.1
  have hacc := h.accounted
  simp only [← Multiset.coe_eq_coe, ← Multiset.coe_add] at hacc
  cases e with
  | lookup time packet destination =>
    obtain ⟨cache, answer, requests, hlookup, hcons, hperm⟩ := hwait.lookup packet destination
    refine ⟨_, by rw [step]; exact congrArg _ hlookup, ?_⟩
    cases answer with
    | resolved mac =>
      refine ⟨hcons, ?_⟩
      simp only [Accounts, ← Multiset.coe_eq_coe, ← Multiset.coe_add, ← Multiset.cons_coe,
        ← Multiset.singleton_add] at hperm ⊢
      rw [hacc, hperm]
      abel
    | queued =>
      refine ⟨hcons, ?_⟩
      simp only [Accounts, ← Multiset.coe_eq_coe, ← Multiset.coe_add, ← Multiset.cons_coe,
        ← Multiset.singleton_add] at hperm ⊢
      rw [hacc, hperm]
      abel
    | dropped =>
      refine ⟨hcons, ?_⟩
      simp only [Accounts, ← Multiset.coe_eq_coe, ← Multiset.coe_add, ← Multiset.cons_coe,
        ← Multiset.singleton_add] at hperm ⊢
      rw [hacc, hperm]
      abel
  | receive time arp =>
    cases arp with
    | none => exact ⟨_, rfl, hwait, h.accounted⟩
    | some arp =>
      obtain ⟨cache, sent, hreceive, hcons, hperm⟩ := hwait.receive arp device addresses
      refine ⟨_, by rw [step]; exact congrArg _ hreceive, hcons, ?_⟩
      simp only [← Multiset.coe_eq_coe, ← Multiset.coe_add] at hperm ⊢
      rw [hacc, hperm]
      abel
  | flush time =>
    refine ⟨_, rfl, consistent_empty attributes time, ?_⟩
    simp only [← Multiset.coe_eq_coe, ← Multiset.coe_add]
    rw [hacc]
    have hnone : (r.cache.flush.pendings : Multiset Packet) = 0 := rfl
    rw [hnone]
    abel
  | waitReplyTimer time =>
    obtain ⟨hcons, hperm⟩ := hwait.handleWaitReplyTimeout
    refine ⟨_, rfl, hcons, ?_⟩
    simp only [← Multiset.coe_eq_coe, ← Multiset.coe_add] at hperm ⊢
    rw [hacc, hperm]
    abel

/-- No event fails in a run of legal events, and after each of them waiting entries have the timer
running, others hold no packet, and each packet given to `Lookup` is in exactly one place. -/
theorem good_of_legal (attributes : Attributes) (device : Address) (addresses : List Ipv4Address)
    (events : List (ArpEvent Packet))
    (h : Allowed (step attributes device addresses) Legal {} events) :
    ∃ r, run (step attributes device addresses) {} events = some r ∧ r.Good := by
  have hstart : Holds attributes ({} : ArpRun Packet) := ⟨consistent_empty attributes 0, .nil⟩
  rw [← List.append_nil events] at h
  obtain ⟨r, hrun, hr, -⟩ := run_of_allowed (fun r e h hlegal => h.step hlegal) hstart h
  exact ⟨r, hrun, hr.good⟩

def second : ℤ := 1000000000

/-- The attributes of a cache by default. -/
def defaults : Attributes where
  aliveTimeout := 120 * second
  deadTimeout := 100 * second
  waitReplyTimeout := second
  maxRetries := 3
  pendingQueueSize := 3
  alive_pos := by decide
  dead_pos := by decide
  waitReply_pos := by decide

/-- Two packets wait for a reply, which comes after the timer has run out once. -/
theorem good_reply : ∃ r, run (step defaults [1] [10]) {}
    [.lookup 0 (7 : ℕ) 20, .lookup 5 8 20, .waitReplyTimer second,
      .receive (second + 5) (some ⟨.reply, [2], [1], 20, 10⟩)] = some r ∧ r.Good :=
  good_of_legal defaults [1] [10] _ (by decide +kernel)

end ArpRun

end Ns3Noc.Arp

import Mathlib
import Ns3Noc.Ipv4AddressGenerator

/-!
# The range of the address generator

`Reset` shifts the mask before it takes the largest address from it, so the table has the limit of
the next longer mask. The addresses of a network are handed out in order, whatever is called for
other masks, and the lower half of the hosts is all that is handed out.
-/
namespace Ns3Noc
open PartialRuns

/-- The mask with `n` leading ones. -/
def prefixMask (n : ℕ) : ℕ := 2 ^ 32 - 2 ^ (32 - n)

/-- The inverse of the mask with `n` leading ones. -/
def hostMask (n : ℕ) : ℕ := 2 ^ (32 - n) - 1

theorem uint32Not_prefixMask {n : ℕ} : uint32Not (prefixMask n) = hostMask n := by
  have hle : 2 ^ (32 - n) ≤ 2 ^ 32 := Nat.pow_le_pow_right (by omega) (Nat.sub_le _ _)
  have hpos : 0 < 2 ^ (32 - n) := Nat.two_pow_pos _
  rw [uint32Not, prefixMask, hostMask]
  omega

theorem and_hostMask (x n : ℕ) : x &&& hostMask n = x % 2 ^ (32 - n) :=
  Nat.and_two_pow_sub_one_eq_mod x (32 - n)

theorem and_prefixMask {x n : ℕ} (hn : n ≤ 32) (hx : x < 2 ^ 32) :
    x &&& prefixMask n = x / 2 ^ (32 - n) * 2 ^ (32 - n) := by
  have hmask : prefixMask n = (2 ^ n - 1) <<< (32 - n) := by
    rw [prefixMask, Nat.shiftLeft_eq, Nat.sub_mul, ← pow_add, Nat.add_sub_cancel' hn, Nat.one_mul]
  rw [hmask, ← Nat.shiftRight_eq_div_pow, ← Nat.shiftLeft_eq]
  refine Nat.eq_of_testBit_eq fun i => ?_
  rw [Nat.testBit_and, Nat.testBit_shiftLeft, Nat.testBit_shiftLeft, Nat.testBit_shiftRight,
    Nat.testBit_two_pow_sub_one]
  by_cases hs : i ≥ 32 - n
  · have hplace : 32 - n + (i - (32 - n)) = i := by omega
    by_cases hi : i < 32
    · have hbit : i - (32 - n) < n := by omega
      simp [hs, hplace, hbit]
    · have hzero : x.testBit i = false :=
        Nat.testBit_lt_two_pow (hx.trans_le (Nat.pow_le_pow_right Nat.two_pos (by omega)))
      simp [hplace, hzero]
  · simp [hs]

/-- An address has no bit of the mask, if and only if it is the number of a host. -/
theorem and_prefixMask_eq_zero {x n : ℕ} (hn : n ≤ 32) (hx : x < 2 ^ 32) :
    x &&& prefixMask n = 0 ↔ x < 2 ^ (32 - n) := by
  have hpos : 0 < 2 ^ (32 - n) := Nat.two_pow_pos _
  rw [and_prefixMask hn hx, mul_eq_zero_iff_right hpos.ne', Nat.div_eq_zero_iff]
  exact or_iff_right hpos.ne'

/-- A network that is aligned to its mask comes back from its number. -/
theorem network_shifted {net s : ℕ} (hnet : net < 2 ^ 32) (haligned : net % 2 ^ s = 0) :
    uint32 ((net >>> s) <<< s) = net := by
  rw [Nat.shiftRight_eq_div_pow, Nat.shiftLeft_eq,
    Nat.div_mul_cancel (Nat.dvd_of_mod_eq_zero haligned), uint32_of_lt hnet]

namespace Ipv4AddressGenerator
variable {g g' : Ipv4AddressGenerator} {n k net start mask index : ℕ} {s s' : NetworkState}

theorem maskToIndex_prefixMask (hn : 0 < n) (hn' : n < 32) : maskToIndex (prefixMask n) = some n := by
  have hall : ∀ k < 32, 0 < k → maskToIndex (prefixMask k) = some k := by decide +kernel
  exact hall n hn' hn

/-- The shifts and the limits of the table. -/
structure Limits (g : Ipv4AddressGenerator) : Prop where
  length : g.netTable.length = 32
  shift : ∀ n s, g.netTable[n]? = some s → s.shift = 32 - n
  addrMax : ∀ n s, g.netTable[n]? = some s → s.addrMax = 2 ^ (31 - n) - 1

theorem reset_limits : reset.Limits := by
  have hall : ∀ n < 32, ∀ s ∈ reset.netTable[n]?, s.shift = 32 - n ∧ s.addrMax = 2 ^ (31 - n) - 1 := by
    decide +kernel
  have hlt {n : ℕ} {s : NetworkState} (hs : reset.netTable[n]? = some s) : n < 32 :=
    (List.getElem?_eq_some_iff.mp hs).1
  exact ⟨rfl, fun n s hs => (hall n (hlt hs) s hs).1, fun n s hs => (hall n (hlt hs) s hs).2⟩

theorem netState_eq_some (h : g.netState mask = some (index, s)) :
    maskToIndex mask = some index ∧ g.netTable[index]? = some s := by
  obtain ⟨i, hi, h⟩ := Option.bind_eq_some_iff.mp h
  obtain ⟨t, ht, h⟩ := Option.bind_eq_some_iff.mp h
  obtain ⟨rfl, rfl⟩ := Prod.mk.inj (Option.some.inj h)
  exact ⟨hi, ht⟩

theorem netState_prefixMask (hn : 0 < n) (hn' : n < 32) (hs : g.netTable[n]? = some s) :
    g.netState (prefixMask n) = some (n, s) := by
  rw [netState, maskToIndex_prefixMask hn hn']
  show (g.netTable[n]?).bind _ = _
  rw [hs]
  rfl

theorem Limits.setNetState (h : g.Limits) (hs : g.netTable[index]? = some s)
    (hshift : s'.shift = s.shift) (hmax : s'.addrMax = s.addrMax) :
    (g.setNetState index s').Limits := by
  have hcases (n : ℕ) (t : NetworkState) (ht : (g.netTable.set index s')[n]? = some t) :
      g.netTable[n]? = some t ∨ n = index ∧ t = s' := by
    rw [List.getElem?_set] at ht
    split at ht
    · rename_i heq
      split at ht
      · exact .inr ⟨heq.symm, (Option.some.inj ht).symm⟩
      · cases ht
    · exact .inl ht
  refine ⟨(List.length_set ..).trans h.length, fun n t ht => ?_, fun n t ht => ?_⟩
  · rcases hcases n t ht with ht | ⟨rfl, rfl⟩
    · exact h.shift n t ht
    · exact hshift.trans (h.shift n s hs)
  · rcases hcases n t ht with ht | ⟨rfl, rfl⟩
    · exact h.addrMax n t ht
    · exact hmax.trans (h.addrMax n s hs)

theorem netTable_of_addAllocated {addr : ℕ} {added : Bool}
    (h : g.addAllocated addr = some (added, g')) : g'.netTable = g.netTable := by
  rw [addAllocated] at h
  split at h
  · obtain ⟨r, -, h⟩ := Option.map_eq_some_iff.mp h
    rw [← (Prod.mk.inj h).2]
  · cases h

/-- What a call of `NextAddress` returns and leaves in the table. -/
theorem nextAddress_eq_some {addr : ℕ} (h : g.nextAddress mask = some (addr, g')) :
    ∃ index s, g.netState mask = some (index, s) ∧ s.addr ≤ s.addrMax ∧
      addr = uint32 (s.network <<< s.shift) ||| s.addr ∧
      g'.netTable = g.netTable.set index { s with addr := uint32 (s.addr + 1) } := by
  obtain ⟨⟨index, s⟩, hs, h⟩ := Option.bind_eq_some_iff.mp h
  dsimp only at h
  split at h
  · rename_i hle
    obtain ⟨⟨added, g₁⟩, hadd, h⟩ := Option.bind_eq_some_iff.mp h
    obtain ⟨rfl, rfl⟩ := Prod.mk.inj (Option.some.inj h)
    exact ⟨index, s, hs, hle, rfl, netTable_of_addAllocated hadd⟩
  · cases h

/-- What `Init` leaves in the table. -/
theorem init_eq_some {addr : ℕ} (h : g.init net mask addr = some g') :
    ∃ index s, g.netState mask = some (index, s) ∧ addr ≤ s.addrMax ∧
      g' = g.setNetState index { s with network := net >>> s.shift, addr := addr } := by
  rw [init] at h
  split at h
  · obtain ⟨⟨index, s⟩, hs, h⟩ := Option.bind_eq_some_iff.mp h
    dsimp only at h
    split at h
    · rename_i hle
      exact ⟨index, s, hs, hle, (Option.some.inj h).symm⟩
    · cases h
  · cases h

inductive Call where
  | init (net mask addr : ℕ)
  | nextNetwork (mask : ℕ)
  | initAddress (addr mask : ℕ)
  | nextAddress (mask : ℕ)
  | addAllocated (addr : ℕ)
  | testMode
  | reset
  deriving DecidableEq

/-- The generator after a call, with the address that `NextAddress` returned. -/
def call (g : Ipv4AddressGenerator) : Call → Option (Option ℕ × Ipv4AddressGenerator)
  | .init net mask addr => (g.init net mask addr).map (none, ·)
  | .nextNetwork mask => (g.nextNetwork mask).map fun (_, g) => (none, g)
  | .initAddress addr mask => (g.initAddress addr mask).map (none, ·)
  | .nextAddress mask => (g.nextAddress mask).map fun (addr, g) => (some addr, g)
  | .addAllocated addr => (g.addAllocated addr).map fun (_, g) => (none, g)
  | .testMode => some (none, g.testMode)
  | .reset => some (none, Ipv4AddressGenerator.reset)

def step (g : Ipv4AddressGenerator) (c : Call) : Option Ipv4AddressGenerator :=
  (g.call c).map Prod.snd

/-- The mask whose entry of the table a call is about. -/
def Call.maskOf : Call → Option ℕ
  | .init _ mask _ => some mask
  | .nextNetwork mask => some mask
  | .initAddress _ mask => some mask
  | .nextAddress mask => some mask
  | .addAllocated _ => none
  | .testMode => none
  | .reset => none

/-- A call changes at most the entry of its mask, and its network and address only. -/
theorem call_cases {c : Call} {a : Option ℕ} (h : g.call c = some (a, g')) (hc : c ≠ .reset) :
    g'.netTable = g.netTable ∨ ∃ mask index s network addr, c.maskOf = some mask ∧
      g.netState mask = some (index, s) ∧
      g'.netTable = g.netTable.set index { s with network := network, addr := addr } := by
  cases c with
  | init net mask addr =>
    obtain ⟨g₁, hinit, h⟩ := Option.map_eq_some_iff.mp h
    obtain ⟨index, s, hs, -, hg⟩ := init_eq_some hinit
    rw [← (Prod.mk.inj h).2, hg]
    exact .inr ⟨mask, index, s, _, _, rfl, hs, rfl⟩
  | nextNetwork mask =>
    obtain ⟨⟨addr, g₁⟩, hnext, h⟩ := Option.map_eq_some_iff.mp h
    obtain ⟨⟨index, s⟩, hs, hnext⟩ := Option.bind_eq_some_iff.mp hnext
    rw [← (Prod.mk.inj h).2, ← (Prod.mk.inj (Option.some.inj hnext)).2]
    exact .inr ⟨mask, index, s, _, s.addr, rfl, hs, rfl⟩
  | initAddress addr mask =>
    obtain ⟨g₁, hinit, h⟩ := Option.map_eq_some_iff.mp h
    obtain ⟨⟨index, s⟩, hs, hinit⟩ := Option.bind_eq_some_iff.mp hinit
    dsimp only at hinit
    split at hinit
    · rw [← (Prod.mk.inj h).2, ← Option.some.inj hinit]
      exact .inr ⟨mask, index, s, s.network, _, rfl, hs, rfl⟩
    · cases hinit
  | nextAddress mask =>
    obtain ⟨⟨addr, g₁⟩, hnext, h⟩ := Option.map_eq_some_iff.mp h
    obtain ⟨index, s, hs, -, -, htable⟩ := nextAddress_eq_some hnext
    rw [← (Prod.mk.inj h).2, htable]
    exact .inr ⟨mask, index, s, s.network, _, rfl, hs, rfl⟩
  | addAllocated addr =>
    obtain ⟨⟨added, g₁⟩, hadd, h⟩ := Option.map_eq_some_iff.mp h
    rw [← (Prod.mk.inj h).2]
    exact .inl (netTable_of_addAllocated hadd)
  | testMode =>
    rw [← (Prod.mk.inj (Option.some.inj h)).2]
    exact .inl rfl
  | reset => exact absurd rfl hc

theorem Limits.of_netTable (h : g.Limits) (heq : g'.netTable = g.netTable) : g'.Limits :=
  ⟨heq ▸ h.length, fun n s hs => h.shift n s (heq ▸ hs), fun n s hs => h.addrMax n s (heq ▸ hs)⟩

theorem Limits.call {c : Call} {a : Option ℕ} (h : g.Limits) (hcall : g.call c = some (a, g')) :
    g'.Limits := by
  by_cases hc : c = .reset
  · subst hc
    rw [← (Prod.mk.inj (Option.some.inj hcall)).2]
    exact reset_limits
  · rcases call_cases hcall hc with htable | ⟨mask, index, s, network, addr, -, hs, htable⟩
    · exact h.of_netTable htable
    · have hset : (g.setNetState index { s with network := network, addr := addr }).Limits :=
        h.setNetState (netState_eq_some hs).2 rfl rfl
      exact hset.of_netTable htable

/-- The generator after any calls. -/
theorem limits_of_run {calls : List Call} (h : run step reset calls = some g) : g.Limits := by
  refine invariant (fun g c g' (hg : g.Limits) hstep => ?_) reset_limits h
  obtain ⟨⟨a, g₁⟩, hcall, rfl⟩ := Option.map_eq_some_iff.mp hstep
  exact hg.call hcall

/-- The entry of the masks with `n` leading ones is at the address `addr` of the network. -/
structure At (g : Ipv4AddressGenerator) (n net addr : ℕ) : Prop where
  limits : g.Limits
  entry : ∃ s, g.netTable[n]? = some s ∧ s.network = net >>> (32 - n) ∧ s.addr = addr

theorem at_of_init (h : g.Limits) (hn : 0 < n) (hn' : n < 32)
    (hinit : g.init net (prefixMask n) start = some g') :
    g'.At n net start ∧ start < 2 ^ (31 - n) := by
  obtain ⟨index, s, hs, hle, rfl⟩ := init_eq_some hinit
  obtain ⟨hindex, hget⟩ := netState_eq_some hs
  obtain rfl := Option.some.inj ((maskToIndex_prefixMask hn hn').symm.trans hindex)
  have hpos : 0 < 2 ^ (31 - n) := Nat.two_pow_pos _
  rw [h.addrMax n s hget] at hle
  refine ⟨⟨h.setNetState hget rfl rfl, { s with network := net >>> s.shift, addr := start }, ?_,
    congrArg (net >>> ·) (h.shift n s hget), rfl⟩, by omega⟩
  rw [Ipv4AddressGenerator.setNetState, List.getElem?_set_self (h.length ▸ hn')]

/-- `NextAddress` for the mask hands out the address the entry is at. -/
theorem At.nextAddress {a addr : ℕ} (h : g.At n net a) (hn : 0 < n) (hn' : n < 32)
    (hnet : net < 2 ^ 32) (haligned : net % 2 ^ (32 - n) = 0)
    (hnext : g.nextAddress (prefixMask n) = some (addr, g')) :
    addr = net ||| a ∧ a < 2 ^ (31 - n) ∧ g'.At n net (a + 1) := by
  obtain ⟨hlimits, t, ht, hnetwork, rfl⟩ := h
  obtain ⟨index, s, hs, hle, haddr, htable⟩ := nextAddress_eq_some hnext
  obtain ⟨hindex, hget⟩ := netState_eq_some hs
  obtain rfl := Option.some.inj ((maskToIndex_prefixMask hn hn').symm.trans hindex)
  obtain rfl := Option.some.inj (ht.symm.trans hget)
  have hpos : 0 < 2 ^ (31 - n) := Nat.two_pow_pos _
  have hmax : 2 ^ (31 - n) ≤ 2 ^ 31 := Nat.pow_le_pow_right Nat.two_pos (Nat.sub_le _ _)
  have hlt : t.addr + 1 < 2 ^ 32 := by
    rw [hlimits.addrMax n t ht] at hle
    omega
  rw [hlimits.addrMax n t ht] at hle
  rw [hnetwork, hlimits.shift n t ht, network_shifted hnet haligned] at haddr
  have hset : (g.setNetState n { t with addr := uint32 (t.addr + 1) }).Limits :=
    hlimits.setNetState ht rfl rfl
  refine ⟨haddr, by omega, ⟨hset.of_netTable htable, { t with addr := uint32 (t.addr + 1) }, ?_,
    hnetwork, uint32_of_lt hlt⟩⟩
  rw [htable, List.getElem?_set_self (hlimits.length ▸ hn')]

/-- Calls for other masks leave the entry where it is. -/
theorem At.elsewhere {c : Call} {a : ℕ} {r : Option ℕ} (h : g.At n net a) (hc : c ≠ .reset)
    (hmask : ∀ mask ∈ c.maskOf, maskToIndex mask ≠ some n) (hcall : g.call c = some (r, g')) :
    g'.At n net a := by
  obtain ⟨hlimits, s, hs, hentry⟩ := h
  refine ⟨hlimits.call hcall, s, ?_, hentry⟩
  rcases call_cases hcall hc with htable | ⟨mask, index, t, network, addr, hm, ht, htable⟩
  · rw [htable, hs]
  · have hne : index ≠ n := by
      rintro rfl
      exact hmask mask hm (netState_eq_some ht).1
    rw [htable, List.getElem?_set_ne hne, hs]

/-- The addresses that calls of `NextAddress` for one mask return, with what is left of the generator. -/
structure HandOut where
  generator : Ipv4AddressGenerator
  addrs : List ℕ

/-- A call, which adds to the addresses if it is `NextAddress` for the mask. -/
def HandOut.step (mask : ℕ) (r : HandOut) (c : Call) : Option HandOut :=
  (r.generator.call c).map fun (a, g) =>
    ⟨g, if c = .nextAddress mask then r.addrs ++ a.toList else r.addrs⟩

/-- The call is `NextAddress` for the mask of `n` leading ones, or it is about other masks. -/
def Call.Apart (n : ℕ) (c : Call) : Prop :=
  c = .nextAddress (prefixMask n) ∨ c ≠ .reset ∧ ∀ mask ∈ c.maskOf, maskToIndex mask ≠ some n

/-- After `Init`, whatever is called for other masks, the addresses follow each other from the first
one on, and are in the lower half of the network. -/
theorem handOut_of_init {g₀ : Ipv4AddressGenerator} {calls : List Call} {r : HandOut}
    (h : g.Limits) (hn : 0 < n) (hn' : n < 32) (hnet : net < 2 ^ 32)
    (haligned : net % 2 ^ (32 - n) = 0) (hinit : g.init net (prefixMask n) start = some g₀)
    (hcalls : ∀ c ∈ calls, c.Apart n)
    (hrun : run (HandOut.step (prefixMask n)) ⟨g₀, []⟩ calls = some r) :
    r.addrs = (List.range r.addrs.length).map (fun k => net ||| (start + k)) ∧
      start + r.addrs.length ≤ 2 ^ (31 - n) := by
  obtain ⟨hat, hlt⟩ := at_of_init h hn hn' hinit
  suffices hinv : ∀ r₀ : HandOut, r₀.generator.At n net (start + r₀.addrs.length) →
      r₀.addrs = (List.range r₀.addrs.length).map (fun k => net ||| (start + k)) →
      start + r₀.addrs.length ≤ 2 ^ (31 - n) →
      run (HandOut.step (prefixMask n)) r₀ calls = some r →
      r.addrs = (List.range r.addrs.length).map (fun k => net ||| (start + k)) ∧
        start + r.addrs.length ≤ 2 ^ (31 - n) from
    hinv ⟨g₀, []⟩ hat rfl hlt.le hrun
  clear hrun
  induction calls with
  | nil =>
    intro r₀ _ haddrs hle hr
    obtain rfl := Option.some.inj hr
    exact ⟨haddrs, hle⟩
  | cons c calls ih =>
    intro r₀ hat₀ haddrs hle hr
    obtain ⟨r₁, hstep, hr⟩ := Option.bind_eq_some_iff.mp hr
    obtain ⟨⟨a, g₁⟩, hcall, rfl⟩ := Option.map_eq_some_iff.mp hstep
    have hrest (c' : Call) (hc' : c' ∈ calls) : c'.Apart n := hcalls c' (List.mem_cons_of_mem _ hc')
    by_cases hc : c = .nextAddress (prefixMask n)
    · subst hc
      obtain ⟨⟨addr, g₂⟩, hnext, heq⟩ := Option.map_eq_some_iff.mp hcall
      obtain ⟨rfl, rfl⟩ := Prod.mk.inj heq
      obtain ⟨rfl, hbound, hat₁⟩ := hat₀.nextAddress hn hn' hnet haligned hnext
      simp only [if_true, Option.toList_some] at hr
      refine ih hrest _ ?_ ?_ ?_ hr
      · simpa [Nat.add_assoc] using hat₁
      · simp only [List.length_append, List.length_singleton, List.range_succ, List.map_append,
          List.map_singleton]
        rw [← haddrs]
      · simp only [List.length_append, List.length_singleton]
        omega
    · obtain ⟨hreset, hmask⟩ := (hcalls c List.mem_cons_self).resolve_left hc
      dsimp only at hr
      rw [if_neg hc] at hr
      exact ih hrest ⟨g₁, r₀.addrs⟩ (hat₀.elsewhere hreset hmask hcall) haddrs hle hr

/-- `Init` succeeds, and the next calls of `NextAddress` return the addresses of the network from
`start` to `last`. -/
def HandsOut (g : Ipv4AddressGenerator) (mask net start last : ℕ) : Prop :=
  ∃ g₀, g.init net mask start = some g₀ ∧
    (run (HandOut.step mask) ⟨g₀, []⟩ (List.replicate (last + 1 - start) (.nextAddress mask))).map
      HandOut.addrs = some ((List.range (last + 1 - start)).map fun k => net ||| (start + k))

theorem addEntry_test (addr : ℕ) (entries : List Entry) :
    (addEntry true addr entries).isSome = true := by
  induction entries with
  | nil => rfl
  | cons e es ih =>
    simp only [addEntry, collision, if_true]
    split
    · rfl
    split
    · rfl
    split
    · split <;> rfl
    split
    · rfl
    · rw [Option.isSome_map]
      exact ih

/-- In test mode `NextAddress` does not abort up to the limit, but for the address zero. -/
theorem At.nextAddress_test {a : ℕ} (h : g.At n net a) (hn : 0 < n) (hn' : n < 32)
    (hnet : net < 2 ^ 32) (haligned : net % 2 ^ (32 - n) = 0) (ha : a < 2 ^ (31 - n))
    (hzero : net ||| a ≠ 0) (htest : g.test = true) :
    ∃ g', g.nextAddress (prefixMask n) = some (net ||| a, g') ∧ g'.test = true := by
  obtain ⟨hlimits, s, hs, hnetwork, rfl⟩ := h
  have hle : s.addr ≤ s.addrMax := by
    rw [hlimits.addrMax n s hs]
    omega
  have haddr : uint32 (s.network <<< s.shift) = net := by
    rw [hnetwork, hlimits.shift n s hs, network_shifted hnet haligned]
  obtain ⟨⟨added, entries⟩, hadd⟩ := Option.isSome_iff_exists.mp
    (addEntry_test (net ||| s.addr) g.entries)
  rw [← htest] at hadd
  refine ⟨{ g.setNetState n { s with addr := uint32 (s.addr + 1) } with entries := entries }, ?_,
    htest⟩
  rw [Ipv4AddressGenerator.nextAddress, netState_prefixMask hn hn' hs]
  simp only [Option.bind_eq_bind, Option.bind_some, if_pos hle, haddr, addAllocated,
    Ipv4AddressGenerator.setNetState, if_pos hzero, hadd, Option.map_some]

theorem Limits.init (h : g.Limits) (hn : 0 < n) (hn' : n < 32)
    (haligned : net % 2 ^ (32 - n) = 0) (hstart : start < 2 ^ (31 - n)) :
    ∃ g', g.init net (prefixMask n) start = some g' ∧ g'.test = g.test := by
  have hhalf : 2 ^ (31 - n) ≤ 2 ^ (32 - n) := Nat.pow_le_pow_right Nat.two_pos (by omega)
  have hmax : 2 ^ (32 - n) ≤ 2 ^ 32 := Nat.pow_le_pow_right Nat.two_pos (Nat.sub_le _ _)
  have hbits : net &&& uint32Not (prefixMask n) = 0 ∧ start &&& prefixMask n = 0 := by
    rw [uint32Not_prefixMask, and_hostMask, and_prefixMask_eq_zero hn'.le (by omega)]
    exact ⟨haligned, by omega⟩
  obtain ⟨s, hs⟩ : ∃ s, g.netTable[n]? = some s := ⟨_, List.getElem?_eq_getElem (h.length ▸ hn')⟩
  have hle : start ≤ s.addrMax := by
    rw [h.addrMax n s hs]
    omega
  refine ⟨g.setNetState n { s with network := net >>> s.shift, addr := start }, ?_, rfl⟩
  rw [Ipv4AddressGenerator.init, if_pos hbits, netState_prefixMask hn hn' hs]
  simp only [Option.bind_eq_bind, Option.bind_some, if_pos hle]

/-- Up to the limit, the calls of `NextAddress` in test mode return one address after the other. -/
theorem At.run_nextAddress (h : g.At n net start) (hn : 0 < n) (hn' : n < 32) (hnet : net < 2 ^ 32)
    (haligned : net % 2 ^ (32 - n) = 0) (hzero : net ||| start ≠ 0) (htest : g.test = true)
    (hk : start + k ≤ 2 ^ (31 - n)) :
    ∃ r, run (HandOut.step (prefixMask n)) ⟨g, []⟩
        (List.replicate k (.nextAddress (prefixMask n))) = some r ∧
      r.generator.At n net (start + k) ∧ r.generator.test = true ∧
      r.addrs = (List.range k).map fun k => net ||| (start + k) := by
  induction k with
  | zero => exact ⟨⟨g, []⟩, rfl, h, htest, rfl⟩
  | succ k ih =>
    obtain ⟨r, hr, hat, htest', haddrs⟩ := ih (by omega)
    have hne : net ||| (start + k) ≠ 0 := by
      rw [Ne, Nat.or_eq_zero_iff] at hzero ⊢
      omega
    obtain ⟨g', hnext, htest''⟩ := hat.nextAddress_test hn hn' hnet haligned (by omega) hne htest'
    refine ⟨⟨g', r.addrs ++ [net ||| (start + k)]⟩, ?_,
      (hat.nextAddress hn hn' hnet haligned hnext).2.2, htest'', ?_⟩
    · rw [List.replicate_succ', run_append, hr, Option.bind_some, run_cons, HandOut.step, call, hnext]
      simp
    · rw [haddrs, List.range_succ, List.map_append, List.map_singleton]

/-- In test mode the lower half of the hosts is handed out, from any of them on. -/
theorem handsOut_iff {last : ℕ} (h : g.Limits) (htest : g.test = true) (hn : 0 < n) (hn' : n < 32)
    (hnet : net < 2 ^ 32) (haligned : net % 2 ^ (32 - n) = 0) (hstart : start ≤ last)
    (hzero : net ||| start ≠ 0) :
    g.HandsOut (prefixMask n) net start last ↔ last < 2 ^ (31 - n) := by
  constructor
  · rintro ⟨g₀, hinit, hrun⟩
    obtain ⟨r, hr, haddrs⟩ := Option.map_eq_some_iff.mp hrun
    have hlength := congrArg List.length haddrs
    rw [List.length_map, List.length_range] at hlength
    obtain ⟨-, hle⟩ := handOut_of_init h hn hn' hnet haligned hinit
      (fun c hc => .inl (List.eq_of_mem_replicate hc)) hr
    omega
  · intro hlast
    obtain ⟨g₀, hinit, htest₀⟩ := h.init hn hn' haligned (by omega : start < 2 ^ (31 - n))
    obtain ⟨r, hr, -, -, haddrs⟩ := (at_of_init h hn hn' hinit).1.run_nextAddress
      (k := last + 1 - start) hn hn' hnet haligned hzero (htest₀.trans htest) (by omega)
    exact ⟨g₀, hinit, by rw [hr, Option.map_some, haddrs]⟩

/-- No network is handed out to its last host. -/
theorem not_handsOut_hosts {calls : List Call} (hcalls : run step reset calls = some g)
    (hn : 0 < n) (hn' : n < 32) (hnet : net < 2 ^ 32) (haligned : net % 2 ^ (32 - n) = 0)
    (hstart : start < 2 ^ (32 - n)) : ¬g.HandsOut (prefixMask n) net start (hostMask n) := by
  rintro ⟨g₀, hinit, hrun⟩
  obtain ⟨r, hr, haddrs⟩ := Option.map_eq_some_iff.mp hrun
  have hlength := congrArg List.length haddrs
  rw [List.length_map, List.length_range] at hlength
  obtain ⟨-, hle⟩ := handOut_of_init (limits_of_run hcalls) hn hn' hnet haligned hinit
    (fun c hc => .inl (List.eq_of_mem_replicate hc)) hr
  have hdouble : 2 ^ (32 - n) = 2 * 2 ^ (31 - n) := by
    rw [← Nat.pow_succ']
    congr 1
    omega
  have hpos : 0 < 2 ^ (31 - n) := Nat.two_pow_pos _
  rw [hlength, hostMask] at hle
  omega

theorem not_handsOut_hosts_24 : ¬reset.HandsOut (prefixMask 24) 0x0a010100 1 (hostMask 24) :=
  not_handsOut_hosts (show run step reset [] = some reset from rfl) (by decide) (by decide)
    (by decide) (by decide) (by decide)

/-- `Init` aborts for the address 128 in a network of 256 addresses. -/
theorem hosts_lost : ¬∀ (calls : List Call) (g : Ipv4AddressGenerator) (n net start : ℕ),
    run step reset calls = some g → 0 < n → n < 32 → net < 2 ^ 32 → net % 2 ^ (32 - n) = 0 →
      start < 2 ^ (32 - n) → g.HandsOut (prefixMask n) net start (hostMask n) := by
  intro h
  obtain ⟨g₀, hinit, -⟩ := h [] reset 24 0x0a010100 128 rfl (by decide) (by decide) (by decide)
    (by decide) (by decide)
  have hnone : reset.init 0x0a010100 (prefixMask 24) 128 = none := by decide +kernel
  rw [hnone] at hinit
  cases hinit

end Ipv4AddressGenerator

end Ns3Noc

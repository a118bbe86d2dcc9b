import Mathlib
import Ns3Noc.StaticRouting

/-!
# Static route lookup

One pass over the routes keeps the longest mask seen and the least metric seen for it. The route it
ends with is the best one of those that match, and of equally good ones the last.
-/
namespace Ns3Noc.StaticRouting

structure Ipv4Route where
  destination : Ipv4Address
  source : Ipv4Address
  gateway : Ipv4Address
  outputDevice : ℕ
  deriving DecidableEq

/-- The addresses after the first one that `SourceAddressSelection` prefers. -/
def onLink (dest : Ipv4Address) (test : Ipv4InterfaceAddress) : Bool :=
  combineMask test.localAddress test.mask = combineMask dest test.mask ∧ test.secondary = false

def sourceAddressSelection (ipv4 : Ipv4) (interfaceIdx : ℕ) (dest : Ipv4Address) :
    Option Ipv4Address := do
  let interface ← ipv4.interfaces[interfaceIdx]?
  let candidate ← ipv4.getAddress interfaceIdx 0
  if interface.addresses.length = 1 then some candidate.localAddress
  else some ((interface.addresses.find? (onLink dest)).getD candidate).localAddress

/-- The route that is returned for an entry of the table. -/
def createRoute (ipv4 : Ipv4) (route : Ipv4RoutingTableEntry) : Option Ipv4Route := do
  let source ← sourceAddressSelection ipv4 route.interface route.dest
  let device ← ipv4.getNetDevice route.interface
  some ⟨route.dest, source, route.gateway, device⟩

/-- The variables of `LookupStatic`. -/
structure Lookup where
  rtentry : Option Ipv4Route
  longestMask : ℕ
  shortestMetric : ℕ

/-- The route is on the requested device, if there is one. -/
def onDevice (ipv4 : Ipv4) (oif : Option ℕ) (route : Ipv4RoutingTableEntry) : Option Bool :=
  match oif with
  | none => some true
  | some device => (ipv4.getNetDevice route.interface).map (fun d => decide (device = d))

/-- One route of the loop. -/
def lookupRoute (ipv4 : Ipv4) (dest : Ipv4Address) (oif : Option ℕ) (s : Lookup)
    (i : NetworkRoute) : Option Lookup :=
  let masklen := i.entry.destNetworkMask.getPrefixLength
  if i.entry.destNetworkMask.isMatch dest i.entry.dest then do
    let requested ← onDevice ipv4 oif i.entry
    if requested = false then some s
    else if masklen < s.longestMask then some s
    else
      let shortestMetric := if masklen > s.longestMask then 0xffffffff else s.shortestMetric
      if i.metric > shortestMetric then some ⟨s.rtentry, masklen, shortestMetric⟩
      else do
        let rtentry ← createRoute ipv4 i.entry
        some ⟨some rtentry, masklen, i.metric⟩
  else some s

def lookupLoop (ipv4 : Ipv4) (dest : Ipv4Address) (oif : Option ℕ) :
    NetworkRoutes → Lookup → Option Lookup
  | [], s => some s
  | i :: routes, s => do lookupLoop ipv4 dest oif routes (← lookupRoute ipv4 dest oif s i)

def lookupStatic (ipv4 : Ipv4) (routes : NetworkRoutes) (dest : Ipv4Address) (oif : Option ℕ) :
    Option (Option Ipv4Route) :=
  if isLocalMulticast dest then do
    let device ← oif
    let address ← ipv4.getAddress (ipv4.getIfIndex device) 0
    some (some ⟨dest, address.localAddress, 0, device⟩)
  else do
    let s ← lookupLoop ipv4 dest oif routes ⟨none, 0, 0xffffffff⟩
    some s.rtentry

/-- The mask with ones in its first `length` bits. -/
def Ipv4Mask.ofLength (length : ℕ) : Ipv4Mask := Ipv4Mask.getOnes <<< (32 - length)

theorem Ipv4Mask.getPrefixLength_ofLength {length : ℕ} (h : length ≤ 32) :
    (Ipv4Mask.ofLength length).getPrefixLength = length := by
  have hall : ∀ length ≤ 32, (Ipv4Mask.ofLength length).getPrefixLength = length := by decide +kernel
  exact hall length h

/-- The route matches the destination and the device. -/
def Matches (ipv4 : Ipv4) (dest : Ipv4Address) (oif : Option ℕ) (i : NetworkRoute) : Prop :=
  i.entry.destNetworkMask.isMatch dest i.entry.dest = true ∧
    onDevice ipv4 oif i.entry = some true

/-- The interfaces that a lookup asks for are there: that of a route to the destination, with an
address if the route is on the device. -/
def Served (ipv4 : Ipv4) (dest : Ipv4Address) (oif : Option ℕ) (i : NetworkRoute) : Prop :=
  i.entry.destNetworkMask.isMatch dest i.entry.dest = true →
    ∃ interface, ipv4.interfaces[i.entry.interface]? = some interface ∧
      (onDevice ipv4 oif i.entry = some true → interface.addresses ≠ [])

/-- At least as good: a longer mask, or the same with a metric that is no greater. -/
def AtLeast (length : Ipv4Mask → ℕ) (i j : NetworkRoute) : Prop :=
  length j.entry.destNetworkMask < length i.entry.destNetworkMask ∨
    length j.entry.destNetworkMask = length i.entry.destNetworkMask ∧ i.metric ≤ j.metric

/-- Better: a longer mask, or the same with a lower metric. -/
def Better (length : Ipv4Mask → ℕ) (i j : NetworkRoute) : Prop :=
  length j.entry.destNetworkMask < length i.entry.destNetworkMask ∨
    length j.entry.destNetworkMask = length i.entry.destNetworkMask ∧ i.metric < j.metric

/-- The route has the longest mask of those with the property, the least metric among these, and is
the last added among these. -/
def IsBest (length : Ipv4Mask → ℕ) (p : NetworkRoute → Prop) (routes : NetworkRoutes)
    (i : NetworkRoute) : Prop :=
  p i ∧ ∃ before after, routes = before ++ i :: after ∧
    (∀ j ∈ before, p j → AtLeast length i j) ∧ ∀ j ∈ after, p j → Better length i j

variable {ipv4 : Ipv4} {dest : Ipv4Address} {oif : Option ℕ} {length : Ipv4Mask → ℕ}
  {done routes : NetworkRoutes} {i : NetworkRoute} {s : Lookup}

theorem IsBest.matched {p : NetworkRoute → Prop} (h : IsBest length p routes i) : p i := h.1

theorem IsBest.mem {p : NetworkRoute → Prop} (h : IsBest length p routes i) : i ∈ routes := by
  obtain ⟨-, before, after, rfl, -, -⟩ := h
  simp

theorem Better.atLeast {j : NetworkRoute} (h : Better length i j) : AtLeast length i j := by
  rcases h with hlt | ⟨heq, hlt⟩
  · exact Or.inl hlt
  · exact Or.inr ⟨heq, hlt.le⟩

theorem AtLeast.refl (i : NetworkRoute) : AtLeast length i i := Or.inr ⟨rfl, le_rfl⟩

theorem AtLeast.trans {j k : NetworkRoute} (h : AtLeast length i j) (h' : AtLeast length j k) :
    AtLeast length i k := by
  rcases h with h | ⟨h, hm⟩
  · rcases h' with h' | ⟨h', hm'⟩
    · exact Or.inl (h'.trans h)
    · exact Or.inl (h'.trans_lt h)
  · rcases h' with h' | ⟨h', hm'⟩
    · exact Or.inl (h'.trans_eq h)
    · exact Or.inr ⟨h'.trans h, hm.trans hm'⟩

theorem IsBest.atLeast {p : NetworkRoute → Prop} (h : IsBest length p routes i) :
    ∀ j ∈ routes, p j → AtLeast length i j := by
  obtain ⟨-, before, after, rfl, hbefore, hafter⟩ := h
  intro j hj hp
  rcases List.mem_append.mp hj with hj | hj
  · exact hbefore j hj hp
  · rcases List.mem_cons.mp hj with rfl | hj
    · exact AtLeast.refl j
    · exact (hafter j hj hp).atLeast

/-- Another route that is not as good. -/
theorem IsBest.keep {p : NetworkRoute → Prop} (h : IsBest length p done i) {j : NetworkRoute}
    (hj : p j → Better length i j) : IsBest length p (done ++ [j]) i := by
  obtain ⟨hp, before, after, rfl, hbefore, hafter⟩ := h
  refine ⟨hp, before, after ++ [j], by simp, hbefore, fun k hk hpk => ?_⟩
  rcases List.mem_append.mp hk with hk | hk
  · exact hafter k hk hpk
  · obtain rfl := List.mem_singleton.mp hk
    exact hj hpk

/-- Another route that is as good. -/
theorem IsBest.replace {p : NetworkRoute → Prop} {j : NetworkRoute} (hp : p j)
    (h : ∀ k ∈ done, p k → AtLeast length j k) : IsBest length p (done ++ [j]) j :=
  ⟨hp, done, [], rfl, h, fun _ hk => absurd hk List.not_mem_nil⟩

/-- What the loop has found among the routes that it has passed. -/
def Scanned (ipv4 : Ipv4) (dest : Ipv4Address) (oif : Option ℕ) (length : Ipv4Mask → ℕ)
    (done : NetworkRoutes) (s : Lookup) : Prop :=
  (∀ j ∈ done, ¬Matches ipv4 dest oif j) ∧ s = ⟨none, 0, 0xffffffff⟩ ∨
    ∃ i rtentry, IsBest length (Matches ipv4 dest oif) done i ∧
      createRoute ipv4 i.entry = some rtentry ∧
      s = ⟨some rtentry, length i.entry.destNetworkMask, i.metric⟩

theorem createRoute_isSome {interface : Ipv4Interface} {route : Ipv4RoutingTableEntry}
    (h : ipv4.interfaces[route.interface]? = some interface) (haddress : interface.addresses ≠ []) :
    ∃ rtentry, createRoute ipv4 route = some rtentry := by
  obtain ⟨first, rest, hcons⟩ := List.exists_cons_of_ne_nil haddress
  have hfirst : ipv4.getAddress route.interface 0 = some first := by
    simp [Ipv4.getAddress, h, hcons]
  have hdevice : ipv4.getNetDevice route.interface = some interface.device := by
    simp [Ipv4.getNetDevice, h]
  have hsource : ∃ source, sourceAddressSelection ipv4 route.interface route.dest = some source := by
    rw [sourceAddressSelection, h, hfirst]
    simp only [Option.bind_eq_bind, Option.bind_some]
    split
    · exact ⟨_, rfl⟩
    · exact ⟨_, rfl⟩
  obtain ⟨source, hsource⟩ := hsource
  exact ⟨⟨route.dest, source, route.gateway, interface.device⟩, by
    rw [createRoute, hsource, hdevice]; rfl⟩

/-- A route that does not match changes nothing. -/
theorem Scanned.skip (h : Scanned ipv4 dest oif length done s) (hno : ¬Matches ipv4 dest oif i) :
    Scanned ipv4 dest oif length (done ++ [i]) s := by
  rcases h with ⟨hnone, hs⟩ | ⟨j, rtentry, hbest, hcreate, hs⟩
  · refine Or.inl ⟨fun j hj => ?_, hs⟩
    rcases List.mem_append.mp hj with hj | hj
    · exact hnone j hj
    · rwa [List.mem_singleton.mp hj]
  · exact Or.inr ⟨j, rtentry, hbest.keep (fun hmatch => absurd hmatch hno), hcreate, hs⟩

theorem lookupRoute_of_not_matches (hserved : Served ipv4 dest oif i)
    (hno : ¬Matches ipv4 dest oif i) : lookupRoute ipv4 dest oif s i = some s := by
  rw [lookupRoute]
  dsimp only
  split
  · rename_i hmatch
    obtain ⟨interface, hinterface, -⟩ := hserved hmatch
    have hdevice : onDevice ipv4 oif i.entry = some false := by
      have hne : onDevice ipv4 oif i.entry ≠ some true := fun heq => hno ⟨hmatch, heq⟩
      cases oif with
      | none => exact absurd rfl hne
      | some device =>
        rw [onDevice, Ipv4.getNetDevice, hinterface] at hne ⊢
        simpa using hne
    rw [hdevice]
    rfl
  · rfl

theorem lookupRoute_of_matches (hmatch : Matches ipv4 dest oif i)
    (hlength : i.entry.destNetworkMask.getPrefixLength = length i.entry.destNetworkMask)
    {rtentry : Ipv4Route} (hcreate : createRoute ipv4 i.entry = some rtentry) :
    lookupRoute ipv4 dest oif s i =
      some (if length i.entry.destNetworkMask < s.longestMask then s
        else if i.metric > (if length i.entry.destNetworkMask > s.longestMask then 0xffffffff
          else s.shortestMetric) then
            ⟨s.rtentry, length i.entry.destNetworkMask,
              if length i.entry.destNetworkMask > s.longestMask then 0xffffffff
              else s.shortestMetric⟩
        else ⟨some rtentry, length i.entry.destNetworkMask, i.metric⟩) := by
  rw [lookupRoute, hlength]
  dsimp only
  rw [if_pos hmatch.1, hmatch.2, hcreate]
  simp only [Option.bind_eq_bind, Option.bind_some]
  generalize (if length i.entry.destNetworkMask > s.longestMask then 0xffffffff
    else s.shortestMetric) = shortestMetric
  rw [if_neg Bool.true_eq_false.mp]
  split
  · rfl
  · split
    · rfl
    · rfl

/-- One route of the loop. -/
theorem Scanned.step (h : Scanned ipv4 dest oif length done s)
    (hserved : Served ipv4 dest oif i)
    (hlength : i.entry.destNetworkMask.getPrefixLength = length i.entry.destNetworkMask) :
    ∃ s', lookupRoute ipv4 dest oif s i = some s' ∧
      Scanned ipv4 dest oif length (done ++ [i]) s' := by
  by_cases hmatch : Matches ipv4 dest oif i
  · obtain ⟨interface, hinterface, haddress⟩ := hserved hmatch.1
    obtain ⟨rtentry, hcreate⟩ := createRoute_isSome hinterface (haddress hmatch.2)
    rw [lookupRoute_of_matches hmatch hlength hcreate]
    refine ⟨_, rfl, ?_⟩
    have hmetric := i.metric_le
    rcases h with ⟨hnone, rfl⟩ | ⟨j, found, hbest, hfound, rfl⟩
    · have hreset : ¬i.metric > (if length i.entry.destNetworkMask > 0 then 0xffffffff
          else 0xffffffff) := by
        rw [ite_self]
        exact not_lt.mpr hmetric
      rw [if_neg (Nat.not_lt_zero _), if_neg hreset]
      exact Or.inr ⟨i, rtentry, IsBest.replace hmatch (fun k hk hp => absurd hp (hnone k hk)),
        hcreate, rfl⟩
    · dsimp only
      rcases lt_trichotomy (length i.entry.destNetworkMask) (length j.entry.destNetworkMask)
        with hlt | heq | hgt
      · rw [if_pos hlt]
        exact Or.inr ⟨j, found, hbest.keep (fun _ => Or.inl hlt), hfound, rfl⟩
      · rw [heq, if_neg (lt_irrefl _), if_neg (lt_irrefl _)]
        by_cases hworse : i.metric > j.metric
        · rw [if_pos hworse]
          exact Or.inr ⟨j, found, hbest.keep (fun _ => Or.inr ⟨heq, hworse⟩), hfound, rfl⟩
        · rw [if_neg hworse]
          have hleast : AtLeast length i j := Or.inr ⟨heq.symm, not_lt.mp hworse⟩
          exact Or.inr ⟨i, rtentry, IsBest.replace hmatch
            (fun k hk hp => hleast.trans (hbest.atLeast k hk hp)), hcreate, by rw [heq]⟩
      · rw [if_neg hgt.not_gt, if_pos hgt, if_neg (not_lt.mpr hmetric)]
        have hleast : AtLeast length i j := Or.inl hgt
        exact Or.inr ⟨i, rtentry, IsBest.replace hmatch
          (fun k hk hp => hleast.trans (hbest.atLeast k hk hp)), hcreate, rfl⟩
  · exact ⟨s, lookupRoute_of_not_matches hserved hmatch, h.skip hmatch⟩

theorem Scanned.loop (h : Scanned ipv4 dest oif length done s)
    (hserved : ∀ i ∈ routes, Served ipv4 dest oif i)
    (hlength : ∀ i ∈ routes,
      i.entry.destNetworkMask.getPrefixLength = length i.entry.destNetworkMask) :
    ∃ s', lookupLoop ipv4 dest oif routes s = some s' ∧
      Scanned ipv4 dest oif length (done ++ routes) s' := by
  induction routes generalizing done s with
  | nil => exact ⟨s, rfl, by rwa [List.append_nil]⟩
  | cons i routes ih =>
    obtain ⟨t, ht, hscanned⟩ := h.step (hserved i List.mem_cons_self)
      (hlength i List.mem_cons_self)
    obtain ⟨s', hs', hall⟩ := ih hscanned (fun j hj => hserved j (List.mem_cons_of_mem i hj))
      (fun j hj => hlength j (List.mem_cons_of_mem i hj))
    refine ⟨s', by rw [lookupLoop, ht]; exact hs', ?_⟩
    rwa [List.append_assoc] at hall

/-- What a lookup promises: a route where there is one that matches, made from the best of them. -/
structure Finds (ipv4 : Ipv4) (length : Ipv4Mask → ℕ) (routes : NetworkRoutes) (dest : Ipv4Address)
    (oif : Option ℕ) (rtentry : Option Ipv4Route) : Prop where
  isSome_iff : rtentry.isSome ↔ ∃ i ∈ routes, Matches ipv4 dest oif i
  best : ∀ route, rtentry = some route → ∃ i,
    IsBest length (Matches ipv4 dest oif) routes i ∧ createRoute ipv4 i.entry = some route

/-- For contiguous masks of these lengths the lookup finds the best of the routes that match. -/
theorem lookupStatic_finds (hdest : isLocalMulticast dest = false)
    (hlength : ∀ i ∈ routes, length i.entry.destNetworkMask ≤ 32 ∧
      i.entry.destNetworkMask = Ipv4Mask.ofLength (length i.entry.destNetworkMask))
    (hserved : ∀ i ∈ routes, Served ipv4 dest oif i) :
    ∃ rtentry, lookupStatic ipv4 routes dest oif = some rtentry ∧
      Finds ipv4 length routes dest oif rtentry := by
  have hprefix (i : NetworkRoute) (hi : i ∈ routes) :
      i.entry.destNetworkMask.getPrefixLength = length i.entry.destNetworkMask := by
    obtain ⟨hle, hmask⟩ := hlength i hi
    rw [hmask]
    rw [Ipv4Mask.getPrefixLength_ofLength hle, ← hmask]
  have hstart : Scanned ipv4 dest oif length [] ⟨none, 0, 0xffffffff⟩ :=
    Or.inl ⟨fun j hj => absurd hj List.not_mem_nil, rfl⟩
  obtain ⟨s, hs, hscanned⟩ := hstart.loop hserved hprefix
  refine ⟨s.rtentry, ?_, ?_⟩
  · rw [lookupStatic, if_neg (by simp [hdest]), hs]
    rfl
  · rcases hscanned with ⟨hnone, rfl⟩ | ⟨i, rtentry, hbest, hcreate, rfl⟩
    · refine ⟨iff_of_false nofun ?_, nofun⟩
      rintro ⟨i, hi, hmatch⟩
      exact hnone i hi hmatch
    · refine ⟨iff_of_true rfl ⟨i, hbest.mem, hbest.matched⟩, ?_⟩
      rintro route ⟨⟩
      exact ⟨i, hbest, hcreate⟩

/-- A default route and two routes to 10.0.0.0/8 of one metric, of which the second is taken. -/
theorem lookupStatic_last : ∃ rtentry,
    lookupStatic ⟨[⟨7, true, [⟨0x0a000001, 0xff000000, false⟩]⟩], fun _ => 0⟩
        [⟨⟨0, 0, 0x0a000009, 0⟩, 1, by decide⟩, ⟨⟨0x0a000000, 0xff000000, 0, 0⟩, 5, by decide⟩,
          ⟨⟨0x0a000000, 0xff000000, 0x0a000002, 0⟩, 5, by decide⟩] 0x0a0b0c0d none = some rtentry ∧
      Finds ⟨[⟨7, true, [⟨0x0a000001, 0xff000000, false⟩]⟩], fun _ => 0⟩ Ipv4Mask.getPrefixLength
        [⟨⟨0, 0, 0x0a000009, 0⟩, 1, by decide⟩, ⟨⟨0x0a000000, 0xff000000, 0, 0⟩, 5, by decide⟩,
          ⟨⟨0x0a000000, 0xff000000, 0x0a000002, 0⟩, 5, by decide⟩] 0x0a0b0c0d none rtentry := by
  apply lookupStatic_finds
  · decide
  · decide
  · intro i hi _
    refine ⟨⟨7, true, [⟨0x0a000001, 0xff000000, false⟩]⟩, ?_, fun _ => List.cons_ne_nil _ _⟩
    have hinterface : i.entry.interface = 0 := by
      revert i
      decide
    rw [hinterface]
    rfl

/-- The only route goes through an interface without an address. -/
theorem not_lookupStatic_finds : ¬∀ (ipv4 : Ipv4) (length : Ipv4Mask → ℕ) (routes : NetworkRoutes)
    (dest : Ipv4Address) (oif : Option ℕ), isLocalMulticast dest = false →
    (∀ i ∈ routes, length i.entry.destNetworkMask ≤ 32 ∧
      i.entry.destNetworkMask = Ipv4Mask.ofLength (length i.entry.destNetworkMask)) →
    ∃ rtentry, lookupStatic ipv4 routes dest oif = some rtentry ∧
      Finds ipv4 length routes dest oif rtentry := by
  intro h
  obtain ⟨rtentry, hlookup, -⟩ := h ⟨[⟨7, true, []⟩], fun _ => 0⟩ Ipv4Mask.getPrefixLength
    [⟨⟨0, 0, 0x0a000009, 0⟩, 1, by decide⟩] 0x0a0b0c0d none (by decide) (by decide)
  have hfails : lookupStatic ⟨[⟨7, true, []⟩], fun _ => 0⟩
      [⟨⟨0, 0, 0x0a000009, 0⟩, 1, by decide⟩] 0x0a0b0c0d none = none := by decide
  rw [hfails] at hlookup
  cases hlookup

end Ns3Noc.StaticRouting

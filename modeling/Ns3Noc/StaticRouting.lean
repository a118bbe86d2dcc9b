import Mathlib

/-!
# Ipv4StaticRouting

The list of network routes with their metrics, in the order in which they were added, and what is
withdrawn from it when an interface goes down or loses an address. A call gives `none` where an
assertion fails or an interface does not exist.
-/
namespace Ns3Noc.StaticRouting

abbrev Ipv4Address : Type := BitVec 32

abbrev Ipv4Mask : Type := BitVec 32

def Ipv4Mask.getOnes : Ipv4Mask := 0xffffffff

def Ipv4Mask.isMatch (mask : Ipv4Mask) (a b : Ipv4Address) : Bool := a &&& mask = b &&& mask

/-- The loop of `GetPrefixLength`, which shifts the mask until nothing is left. -/
def Ipv4Mask.shifts : ℕ → Ipv4Mask → ℕ
  | 0, _ => 0
  | fuel + 1, mask => if mask ≠ 0 then Ipv4Mask.shifts fuel (mask <<< 1) + 1 else 0

/-- A mask has 32 bits. -/
def Ipv4Mask.getPrefixLength (mask : Ipv4Mask) : ℕ := Ipv4Mask.shifts 32 mask

def combineMask (a : Ipv4Address) (mask : Ipv4Mask) : Ipv4Address := a &&& mask

/-- Link-Local multicast address is 224.0.0.0/24 -/
def isLocalMulticast (a : Ipv4Address) : Bool := a &&& 0xffffff00 = (0xe0000000 : Ipv4Address)

structure Ipv4InterfaceAddress where
  localAddress : Ipv4Address
  mask : Ipv4Mask
  secondary : Bool
  deriving DecidableEq

/-- `device` is the address of the `NetDevice`. -/
structure Ipv4Interface where
  device : ℕ
  up : Bool
  addresses : List Ipv4InterfaceAddress
  deriving DecidableEq

/-- The interface table, with the interface index that each device has. -/
structure Ipv4 where
  interfaces : List Ipv4Interface
  getIfIndex : ℕ → ℕ

namespace Ipv4

def getNetDevice (ipv4 : Ipv4) (i : ℕ) : Option ℕ := ipv4.interfaces[i]?.map (·.device)

def isUp (ipv4 : Ipv4) (i : ℕ) : Option Bool := ipv4.interfaces[i]?.map (·.up)

def getAddress (ipv4 : Ipv4) (i addressIndex : ℕ) : Option Ipv4InterfaceAddress :=
  ipv4.interfaces[i]?.bind (·.addresses[addressIndex]?)

end Ipv4

structure Ipv4RoutingTableEntry where
  dest : Ipv4Address
  destNetworkMask : Ipv4Mask
  gateway : Ipv4Address
  interface : ℕ
  deriving DecidableEq

def Ipv4RoutingTableEntry.isHost (route : Ipv4RoutingTableEntry) : Bool :=
  route.destNetworkMask = Ipv4Mask.getOnes

def Ipv4RoutingTableEntry.isNetwork (route : Ipv4RoutingTableEntry) : Bool := !route.isHost

/-- A route with its metric, which is a 32 bit value. -/
structure NetworkRoute where
  entry : Ipv4RoutingTableEntry
  metric : ℕ
  metric_le : metric ≤ 0xffffffff
  deriving DecidableEq

abbrev NetworkRoutes : Type := List NetworkRoute

def removeRoute (routes : NetworkRoutes) (index : ℕ) : NetworkRoutes := routes.eraseIdx index

/-- The loop of `NotifyInterfaceDown` from index `j` on. -/
def interfaceDownFrom (i : ℕ) (routes : NetworkRoutes) (j : ℕ) : NetworkRoutes :=
  if h : j < routes.length then
    if routes[j].entry.interface = i then interfaceDownFrom i (removeRoute routes j) j
    else interfaceDownFrom i routes (j + 1)
  else routes
termination_by routes.length - j
decreasing_by
  · rw [removeRoute, List.length_eraseIdx_of_lt h]
    omega
  · omega

def notifyInterfaceDown (i : ℕ) (routes : NetworkRoutes) : NetworkRoutes :=
  interfaceDownFrom i routes 0

/-- The network routes of an interface to the network of an address. -/
def Withdrawn (interface : ℕ) (address : Ipv4InterfaceAddress) (route : Ipv4RoutingTableEntry) :
    Bool :=
  route.interface = interface ∧ route.isNetwork ∧
    route.dest = combineMask address.localAddress address.mask ∧
    route.destNetworkMask = address.mask

/-- The loop of `NotifyRemoveAddress`, which goes on behind the index of a removed route. -/
def removeAddressFrom (interface : ℕ) (address : Ipv4InterfaceAddress) (routes : NetworkRoutes)
    (j : ℕ) : NetworkRoutes :=
  if h : j < routes.length then
    if Withdrawn interface address routes[j].entry then
      removeAddressFrom interface address (removeRoute routes j) (j + 1)
    else removeAddressFrom interface address routes (j + 1)
  else routes
termination_by routes.length - j
decreasing_by
  · rw [removeRoute, List.length_eraseIdx_of_lt h]
    omega
  · omega

def notifyRemoveAddress (ipv4 : Ipv4) (interface : ℕ) (address : Ipv4InterfaceAddress)
    (routes : NetworkRoutes) : Option NetworkRoutes := do
  let up ← ipv4.isUp interface
  if up = false then some routes
  else some (removeAddressFrom interface address routes 0)

/-- What is left where the element behind a removed one is not looked at. -/
def skipFilter {α : Type*} (p : α → Bool) : List α → List α
  | [] => []
  | [x] => if p x then [] else [x]
  | x :: y :: l => if p x then y :: skipFilter p l else x :: skipFilter p (y :: l)

/-- No two neighbours of the list have the property. -/
def Spread {α : Type*} (p : α → Bool) (l : List α) : Prop :=
  l.IsChain (fun x y => ¬(p x = true ∧ p y = true))

theorem skipFilter_eq_filter_iff {α : Type*} (p : α → Bool) (l : List α) :
    skipFilter p l = l.filter (fun x => !p x) ↔ Spread p l := by
  induction l using skipFilter.induct p with
  | case1 => simp [skipFilter, Spread]
  | case2 x hx => simp [skipFilter, Spread, hx]
  | case3 x hx => simp [skipFilter, Spread, hx]
  | case4 x y l hx ih =>
    rw [skipFilter, if_pos hx]
    cases hy : p y with
    | true =>
      constructor
      · intro heq
        have hmem : y ∈ (x :: y :: l).filter (fun x => !p x) := by
          rw [← heq]
          exact List.mem_cons_self
        simp [hy] at hmem
      · intro hspread
        exact absurd ⟨hx, hy⟩ (List.isChain_cons_cons.mp hspread).1
    | false =>
      have hspread : Spread p (x :: y :: l) ↔ Spread p l := by
        rw [Spread, List.isChain_cons_cons, List.isChain_cons, Spread]
        simp [hy]
      rw [hspread, ← ih]
      simp [hx, hy]
  | case5 x y l hx ih =>
    have hno : p x = false := Bool.eq_false_iff.mpr hx
    have hspread : Spread p (x :: y :: l) ↔ Spread p (y :: l) := by
      rw [Spread, List.isChain_cons_cons, Spread]
      simp [hno]
    rw [skipFilter, if_neg hx, hspread, ← ih, List.filter_cons_of_pos (by simp [hno]),
      List.cons.injEq]
    exact and_iff_right rfl

theorem getElem_length_append {α : Type*} (done rest : List α) (x : α)
    (h : done.length < (done ++ x :: rest).length) : (done ++ x :: rest)[done.length] = x := by
  simp

theorem removeRoute_append (done rest : NetworkRoutes) (x : NetworkRoute) :
    removeRoute (done ++ x :: rest) done.length = done ++ rest := by
  rw [removeRoute, List.eraseIdx_append_of_length_le le_rfl, Nat.sub_self, List.eraseIdx_cons_zero]

theorem interfaceDownFrom_append (i : ℕ) (done rest : NetworkRoutes) :
    interfaceDownFrom i (done ++ rest) done.length =
      done ++ rest.filter (fun r => !decide (r.entry.interface = i)) := by
  induction rest generalizing done with
  | nil =>
    rw [interfaceDownFrom]
    simp
  | cons x rest ih =>
    have hlt : done.length < (done ++ x :: rest).length := by simp
    rw [interfaceDownFrom, dif_pos hlt, getElem_length_append, removeRoute_append]
    split
    · rename_i hx
      rw [ih, List.filter_cons_of_neg (by simp [hx])]
    · rename_i hx
      have hnext := ih (done ++ [x])
      rw [List.length_append, List.length_singleton, List.append_assoc, List.append_assoc] at hnext
      rw [List.filter_cons_of_pos (by simp [hx])]
      exact hnext

theorem removeAddressFrom_append (interface : ℕ) (address : Ipv4InterfaceAddress)
    (done rest : NetworkRoutes) :
    removeAddressFrom interface address (done ++ rest) done.length =
      done ++ skipFilter (fun r => Withdrawn interface address r.entry) rest := by
  induction rest using skipFilter.induct (fun r : NetworkRoute => Withdrawn interface address r.entry)
    generalizing done with
  | case1 =>
    rw [removeAddressFrom]
    simp [skipFilter]
  | case2 x hx =>
    have hlt : done.length < (done ++ [x]).length := by simp
    rw [removeAddressFrom, dif_pos hlt, getElem_length_append, removeRoute_append, if_pos hx,
      removeAddressFrom, skipFilter, if_pos hx]
    simp
  | case3 x hx =>
    have hlt : done.length < (done ++ [x]).length := by simp
    rw [removeAddressFrom, dif_pos hlt, getElem_length_append, if_neg hx, removeAddressFrom,
      skipFilter, if_neg hx]
    simp
  | case4 x y rest hx ih =>
    have hlt : done.length < (done ++ x :: y :: rest).length := by simp
    have hnext := ih (done ++ [y])
    rw [List.length_append, List.length_singleton, List.append_assoc, List.append_assoc] at hnext
    rw [removeAddressFrom, dif_pos hlt, getElem_length_append, removeRoute_append, if_pos hx,
      skipFilter, if_pos hx]
    exact hnext
  | case5 x y rest hx ih =>
    have hlt : done.length < (done ++ x :: y :: rest).length := by simp
    have hnext := ih (done ++ [x])
    rw [List.length_append, List.length_singleton, List.append_assoc, List.append_assoc] at hnext
    rw [removeAddressFrom, dif_pos hlt, getElem_length_append, if_neg hx, skipFilter, if_neg hx]
    exact hnext

theorem notifyInterfaceDown_eq (i : ℕ) (routes : NetworkRoutes) : notifyInterfaceDown i routes =
    routes.filter (fun r => !decide (r.entry.interface = i)) :=
  interfaceDownFrom_append i [] routes

theorem notifyRemoveAddress_eq {ipv4 : Ipv4} {i : ℕ} (hup : ipv4.isUp i = some true)
    (address : Ipv4InterfaceAddress) (routes : NetworkRoutes) :
    notifyRemoveAddress ipv4 i address routes =
      some (skipFilter (fun r => Withdrawn i address r.entry) routes) := by
  have hloop : removeAddressFrom i address routes 0 = _ := removeAddressFrom_append i address [] routes
  rw [notifyRemoveAddress, hup, hloop]
  rfl

/-- Exactly the routes of the interface, and exactly its routes to the network of the address, are
gone. -/
structure Withdraws (ipv4 : Ipv4) (i : ℕ) (address : Ipv4InterfaceAddress)
    (routes : NetworkRoutes) : Prop where
  interfaceDown : notifyInterfaceDown i routes =
    routes.filter (fun r => !decide (r.entry.interface = i))
  removeAddress : ipv4.isUp i = some true → notifyRemoveAddress ipv4 i address routes =
    some (routes.filter (fun r => !Withdrawn i address r.entry))

/-- An address takes its routes with it where no two of them are neighbours in the list. -/
theorem withdraws_iff (ipv4 : Ipv4) (i : ℕ) (address : Ipv4InterfaceAddress)
    (routes : NetworkRoutes) : Withdraws ipv4 i address routes ↔
      (ipv4.isUp i = some true → Spread (fun r => Withdrawn i address r.entry) routes) := by
  constructor
  · intro h hup
    have heq := h.removeAddress hup
    rw [notifyRemoveAddress_eq hup, Option.some.injEq] at heq
    exact (skipFilter_eq_filter_iff _ _).mp heq
  · intro h
    refine ⟨notifyInterfaceDown_eq i routes, fun hup => ?_⟩
    rw [notifyRemoveAddress_eq hup, (skipFilter_eq_filter_iff _ _).mpr (h hup)]

/-- Of two routes to the network 10.0.0.0/8 the second one stays when the address goes. -/
theorem not_withdraws : ¬∀ (ipv4 : Ipv4) (i : ℕ) (address : Ipv4InterfaceAddress)
    (routes : NetworkRoutes), Withdraws ipv4 i address routes := by
  intro h
  let route : NetworkRoute := ⟨⟨0x0a000000, 0xff000000, 0, 1⟩, 0, by decide⟩
  let address : Ipv4InterfaceAddress := ⟨0x0a000001, 0xff000000, false⟩
  let ipv4 : Ipv4 := ⟨[⟨0, true, []⟩, ⟨1, true, [address]⟩], fun _ => 0⟩
  have heq := (h ipv4 1 address [route, route]).removeAddress rfl
  rw [notifyRemoveAddress_eq rfl, Option.some.injEq] at heq
  exact absurd heq (by decide)

end Ns3Noc.StaticRouting

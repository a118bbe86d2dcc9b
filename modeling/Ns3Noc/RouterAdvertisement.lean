import Ns3Noc.BigEndian
import Ns3Noc.WhileLoops
import Mathlib

/-!
# RouterAdvertisement

The loop over the options of a router advertisement. A second option for the link MTU or for the
source link-layer address is not removed. A read beyond the end of the packet fails, as does an
assertion.
-/
namespace Ns3Noc.RouterAdvertisement
open BigEndian WhileLoops

abbrev Bytes : Type := List UInt8

def readBytes (n : ℕ) (start : Bytes) : Option (Bytes × Bytes) :=
  if n ≤ start.length then some (start.take n, start.drop n) else none

/-- `Icmpv6OptionPrefixInformation` -/
structure PrefixInformation where
  type : ℕ
  length : ℕ
  prefixLength : ℕ
  flags : ℕ
  validTime : ℕ
  preferredTime : ℕ
  reserved : ℕ
  prefixAddress : Bytes
  deriving DecidableEq

/-- `Icmpv6OptionMtu` -/
structure Mtu where
  type : ℕ
  length : ℕ
  reserved : ℕ
  mtu : ℕ
  deriving DecidableEq

/-- `Icmpv6OptionLinkLayerAddress` -/
structure LinkLayerAddress where
  type : ℕ
  length : ℕ
  addr : Bytes
  deriving DecidableEq

def PrefixInformation.deserialize (start : Bytes) : Option (PrefixInformation × ℕ) := do
  let (type, i) ← readNumber 1 start
  let (length, i) ← readNumber 1 i
  let (prefixLength, i) ← readNumber 1 i
  let (flags, i) ← readNumber 1 i
  let (validTime, i) ← readNumber 4 i
  let (preferredTime, i) ← readNumber 4 i
  let (reserved, i) ← readNumber 4 i
  let (prefixAddress, _) ← readBytes 16 i
  return (⟨type, length, prefixLength, flags, validTime, preferredTime, reserved, prefixAddress⟩, 32)

def Mtu.deserialize (start : Bytes) : Option (Mtu × ℕ) := do
  let (type, i) ← readNumber 1 start
  let (length, i) ← readNumber 1 i
  let (reserved, i) ← readNumber 2 i
  let (mtu, _) ← readNumber 4 i
  return (⟨type, length, reserved, mtu⟩, 8)

/-- `Address::MAX_SIZE` -/
def maxSize : ℕ := 20

/-- The bytes go through an array of 32 bytes into the address. -/
def LinkLayerAddress.deserialize (start : Bytes) : Option (LinkLayerAddress × ℕ) := do
  let (type, i) ← readNumber 1 start
  let (length, i) ← readNumber 1 i
  guard (2 ≤ length * 8 ∧ length * 8 - 2 ≤ 32)
  let (mac, _) ← readBytes (length * 8 - 2) i
  guard (mac.length ≤ maxSize)
  return (⟨type, length, mac⟩, (2 + mac.length) % 2 ^ 8)

/-- The packet and the flags of the loop, what has been removed from the packet, and what has been
done with it. -/
structure RaState where
  p : Bytes
  hasLla : Bool
  hasMtu : Bool
  removed : List Bytes
  autoconfigured : List PrefixInformation
  received : List LinkLayerAddress
  deriving DecidableEq

namespace RaState

/-- `RemoveHeader` of so many bytes. -/
def removeHeader (s : RaState) (deserialized : ℕ) : RaState :=
  { s with p := s.p.drop deserialized, removed := s.removed ++ [s.p.take deserialized] }

/-- One turn of the loop of `HandleRA`. -/
def turn (s : RaState) : Turn RaState :=
  match s.p.headD 0 with
  | 3 =>
    match PrefixInformation.deserialize s.p with
    | none => .fails
    | some (prefixHdr, n) =>
      .again { s.removeHeader n with autoconfigured := s.autoconfigured ++ [prefixHdr] }
  | 5 =>
    if !s.hasMtu then
      match Mtu.deserialize s.p with
      | none => .fails
      | some (_, n) => .again { s.removeHeader n with hasMtu := true }
    else .again s
  | 1 =>
    if !s.hasLla then
      match LinkLayerAddress.deserialize s.p with
      | none => .fails
      | some (llaHdr, n) =>
        .again { s.removeHeader n with hasLla := true, received := s.received ++ [llaHdr] }
    else .again s
  | _ => .ends s

end RaState

/-- The state before the loop of `HandleRA`, after the header of 16 bytes. -/
def handleRA (packet : Bytes) : Option RaState :=
  if packet.length < 16 then none
  else some
    { p := packet.drop 16
      hasLla := false
      hasMtu := false
      removed := []
      autoconfigured := []
      received := [] }

section Deserialize
variable {start : Bytes}

/-- A number is read before what takes `k` more bytes. -/
theorem size_readNumber {α : Type} {f : ℕ × Bytes → Option (α × ℕ)} {c : ℕ} (n k : ℕ)
    (hf : ∀ v i, (f (v, i)).map Prod.snd = if k ≤ i.length then some c else none) :
    ((readNumber n start).bind f).map Prod.snd = if n + k ≤ start.length then some c else none := by
  by_cases h : n ≤ start.length
  · rw [readNumber, if_pos h, Option.bind_some, hf, List.length_drop]
    simp only [Nat.le_sub_iff_add_le' h]
  · rw [readNumber, if_neg h, if_neg (by omega)]
    rfl

theorem size_readBytes {α : Type} {f : Bytes × Bytes → Option (α × ℕ)} {c : ℕ} (n : ℕ)
    (hf : ∀ v i, v.length = n → (f (v, i)).map Prod.snd = some c) :
    ((readBytes n start).bind f).map Prod.snd = if n ≤ start.length then some c else none := by
  rw [readBytes]
  split_ifs with h
  · rw [Option.bind_some, hf _ _ (List.length_take_of_le h)]
  · rfl

/-- The size that a header takes from a packet, if it is there. -/
theorem prefixInformation_size (start : Bytes) : (PrefixInformation.deserialize start).map Prod.snd =
    if 32 ≤ start.length then some 32 else none := by
  refine size_readNumber 1 31 fun type i => ?_
  refine size_readNumber 1 30 fun length i => ?_
  refine size_readNumber 1 29 fun prefixLength i => ?_
  refine size_readNumber 1 28 fun flags i => ?_
  refine size_readNumber 4 24 fun validTime i => ?_
  refine size_readNumber 4 20 fun preferredTime i => ?_
  refine size_readNumber 4 16 fun reserved i => ?_
  exact size_readBytes 16 fun prefixAddress i _ => rfl

theorem mtu_size (start : Bytes) : (Mtu.deserialize start).map Prod.snd =
    if 8 ≤ start.length then some 8 else none := by
  refine size_readNumber 1 7 fun type i => ?_
  refine size_readNumber 1 6 fun length i => ?_
  refine size_readNumber 2 4 fun reserved i => ?_
  refine size_readNumber 4 0 fun mtu i => ?_
  simp

/-- The address takes the units of eight bytes that it says, and no more than two of them. -/
theorem linkLayerAddress_size (type length : UInt8) (rest : Bytes) :
    (LinkLayerAddress.deserialize (type :: length :: rest)).map Prod.snd =
      if (1 ≤ length.toNat ∧ length.toNat ≤ 2) ∧ 8 * length.toNat ≤ rest.length + 2 then
        some (8 * length.toNat)
      else none := by
  have htype : readNumber 1 (type :: length :: rest) = some (type.toNat, length :: rest) := by
    simp [readNumber, ofBytes, ofBytesFrom]
  have hlength : readNumber 1 (length :: rest) = some (length.toNat, rest) := by
    simp [readNumber, ofBytes, ofBytesFrom]
  simp only [LinkLayerAddress.deserialize, htype, hlength, Option.bind_eq_bind, Option.bind_some]
  by_cases hunits : 1 ≤ length.toNat ∧ length.toNat ≤ 2
  · have hmac : 2 ≤ length.toNat * 8 ∧ length.toNat * 8 - 2 ≤ 32 := by omega
    have hle : ((1 ≤ length.toNat ∧ length.toNat ≤ 2) ∧ 8 * length.toNat ≤ rest.length + 2) ↔
        length.toNat * 8 - 2 ≤ rest.length := by
      omega
    rw [guard, if_pos hmac, Option.pure_def, Option.bind_some, if_congr hle rfl rfl]
    apply size_readBytes
    intro mac i hlen
    have hmax : mac.length ≤ maxSize := by
      rw [maxSize]
      omega
    simp only [guard, if_pos hmax, Option.pure_def, Option.bind_some, Option.map_some]
    congr 1
    omega
  · rw [if_neg (fun h => hunits h.1), Option.map_eq_none_iff]
    by_cases hmac : 2 ≤ length.toNat * 8 ∧ length.toNat * 8 - 2 ≤ 32
    · rw [guard, if_pos hmac, Option.pure_def, Option.bind_some, readBytes]
      split_ifs with hle
      · have hmax : ¬(rest.take (length.toNat * 8 - 2)).length ≤ maxSize := by
          rw [List.length_take_of_le hle, maxSize]
          omega
        simp only [guard, if_neg hmax, Option.bind_some]
        rfl
      · rfl
    · rw [guard, if_neg hmac]
      rfl

theorem linkLayerAddress_short (h : start.length < 2) : LinkLayerAddress.deserialize start = none := by
  rcases start with _ | ⟨type, _ | ⟨length, rest⟩⟩
  · rfl
  · rfl
  · simp at h

end Deserialize

section Options

def isMtu (o : Bytes) : Bool := o.head? = some 5

def isLla (o : Bytes) : Bool := o.head? = some 1

/-- An option of one of the three types, whose length field gives its size in units of eight bytes. -/
structure WellFormed (o : Bytes) : Prop where
  type : o.head? = some 3 ∨ o.head? = some 5 ∨ o.head? = some 1
  length : o.length = 8 * (o.getD 1 0).toNat
  pos : 0 < o.length
  prefixInformation : o.head? = some 3 → o.length = 32
  mtu : o.head? = some 5 → o.length = 8

/-- An option that the code takes off a packet as a whole. -/
def Readable (o : Bytes) : Prop :=
  (o.head? = some 3 ∧ o.length = 32) ∨ (o.head? = some 5 ∧ o.length = 8) ∨
    (o.head? = some 1 ∧ o.length = 8 * (o.getD 1 0).toNat ∧ (o.length = 8 ∨ o.length = 16))

/-- Bytes that do not begin with one of the three types. -/
def Unknown (p : Bytes) : Prop := p.headD 0 ≠ 3 ∧ p.headD 0 ≠ 5 ∧ p.headD 0 ≠ 1

/-- The options that are left, together with those before them, have at most one for the link MTU and
one for the source link-layer address. -/
def Fresh (s : RaState) (os : List Bytes) : Prop :=
  os.countP isMtu + s.hasMtu.toNat ≤ 1 ∧ os.countP isLla + s.hasLla.toNat ≤ 1

theorem WellFormed.readable {o : Bytes} (h : WellFormed o) (hlla : isLla o → o.length ≤ 16) :
    Readable o := by
  rcases h.type with h3 | h5 | h1
  · exact Or.inl ⟨h3, h.prefixInformation h3⟩
  · exact Or.inr (Or.inl ⟨h5, h.mtu h5⟩)
  · have hle := hlla (decide_eq_true h1)
    have hlen := h.length
    have hpos := h.pos
    exact Or.inr (Or.inr ⟨h1, hlen, by omega⟩)

theorem removeHeader_append (s : RaState) {o rest : Bytes} (hp : s.p = o ++ rest) :
    (s.removeHeader o.length).p = rest ∧ (s.removeHeader o.length).removed = s.removed ++ [o] := by
  rw [RaState.removeHeader, hp, List.drop_left, List.take_left]
  exact ⟨rfl, rfl⟩

theorem head_append {o rest : Bytes} {t : UInt8} (h : o.head? = some t) : (o ++ rest).headD 0 = t := by
  cases o with
  | nil => cases h
  | cons b o => exact Option.some.inj h

/-- An option at the front of the packet is removed if it is not a repeated one. -/
theorem turn_readable {s : RaState} {o rest : Bytes} (ho : Readable o) (hp : s.p = o ++ rest)
    (hmtu : isMtu o → s.hasMtu = false) (hlla : isLla o → s.hasLla = false) :
    ∃ s', s.turn = .again s' ∧ s'.p = rest ∧ s'.removed = s.removed ++ [o] ∧
      s'.hasMtu = (s.hasMtu || isMtu o) ∧ s'.hasLla = (s.hasLla || isLla o) := by
  obtain ⟨hrest, hremoved⟩ := removeHeader_append s hp
  rcases ho with ⟨hhead, hlen⟩ | ⟨hhead, hlen⟩ | ⟨hhead, hlen, hunits⟩
  · have hsize := prefixInformation_size s.p
    rw [hp, if_pos (by rw [List.length_append]; omega), ← hp] at hsize
    obtain ⟨⟨prefixHdr, n⟩, hdes, hn⟩ := Option.map_eq_some_iff.mp hsize
    have hturn : s.turn = .again { s.removeHeader n with
        autoconfigured := s.autoconfigured ++ [prefixHdr] } := by
      rw [RaState.turn, hp, head_append hhead, ← hp, hdes]
      rfl
    rw [show n = o.length from hn.trans hlen.symm] at hturn
    exact ⟨_, hturn, hrest, hremoved, by simp [isMtu, hhead, RaState.removeHeader],
      by simp [isLla, hhead, RaState.removeHeader]⟩
  · have hsize := mtu_size s.p
    rw [hp, if_pos (by rw [List.length_append]; omega), ← hp] at hsize
    obtain ⟨⟨mtuHdr, n⟩, hdes, hn⟩ := Option.map_eq_some_iff.mp hsize
    have hturn : s.turn = .again { s.removeHeader n with hasMtu := true } := by
      rw [RaState.turn, hp, head_append hhead, ← hp, hdes, hmtu (decide_eq_true hhead)]
      rfl
    rw [show n = o.length from hn.trans hlen.symm] at hturn
    exact ⟨_, hturn, hrest, hremoved, by simp [isMtu, hhead], by simp [isLla, hhead,
      RaState.removeHeader]⟩
  · obtain ⟨type, length, t, rfl⟩ : ∃ type length t, o = type :: length :: t := by
      rcases o with _ | ⟨type, _ | ⟨length, t⟩⟩
      · simp at hhead
      · simp at hunits
      · exact ⟨type, length, t, rfl⟩
    have hsize := linkLayerAddress_size type length (t ++ rest)
    rw [if_pos (by simp at hlen hunits ⊢; omega)] at hsize
    obtain ⟨⟨llaHdr, n⟩, hdes, hn⟩ := Option.map_eq_some_iff.mp hsize
    have hturn : s.turn = .again { s.removeHeader n with
        hasLla := true, received := s.received ++ [llaHdr] } := by
      rw [RaState.turn, hp, head_append hhead, hlla (decide_eq_true hhead)]
      simp only [List.cons_append, hdes]
      rfl
    rw [show n = (type :: length :: t).length from hn.trans hlen.symm] at hturn
    exact ⟨_, hturn, hrest, hremoved, by simp [isMtu, hhead, RaState.removeHeader], by
      simp [isLla, hhead]⟩

/-- A turn that goes on has removed an option from the front, or nothing. -/
theorem turn_again {s s' : RaState} (h : s.turn = .again s') : s' = s ∨
    ∃ o, Readable o ∧ s.p = o ++ s'.p ∧ s'.removed = s.removed ++ [o] ∧
      (isMtu o → s.hasMtu = false) ∧ (isLla o → s.hasLla = false) ∧
      s'.hasMtu = (s.hasMtu || isMtu o) ∧ s'.hasLla = (s.hasLla || isLla o) := by
  have hfront {n : ℕ} {t : UInt8} (ht : t ≠ 0) (hhead : s.p.headD 0 = t) (hn : 0 < n) :
      (s.p.take n).head? = some t := by
    cases hp : s.p with
    | nil =>
      rw [hp] at hhead
      exact absurd hhead.symm ht
    | cons b p =>
      rw [hp] at hhead
      obtain ⟨k, rfl⟩ := Nat.exists_eq_add_of_lt hn
      rw [Nat.zero_add, List.take_succ_cons]
      exact congrArg some hhead
  rw [RaState.turn] at h
  split at h
  · rename_i hhead
    have hsize := prefixInformation_size s.p
    split at h
    · cases h
    · rename_i prefixHdr n hdes
      rw [hdes, Option.map_some] at hsize
      split_ifs at hsize with hle
      obtain rfl := Option.some.inj hsize
      obtain rfl := Turn.again.inj h
      have htake := hfront (n := 32) (by decide) hhead (by norm_num)
      refine Or.inr ⟨s.p.take 32, Or.inl ⟨htake, List.length_take_of_le hle⟩,
        (List.take_append_drop 32 s.p).symm, rfl, ?_, ?_, ?_, ?_⟩ <;>
        simp [isMtu, isLla, htake, RaState.removeHeader]
  · rename_i hhead
    split_ifs at h with hmtu
    · have hsize := mtu_size s.p
      split at h
      · cases h
      · rename_i mtuHdr n hdes
        rw [hdes, Option.map_some] at hsize
        split_ifs at hsize with hle
        obtain rfl := Option.some.inj hsize
        obtain rfl := Turn.again.inj h
        have htake := hfront (n := 8) (by decide) hhead (by norm_num)
        refine Or.inr ⟨s.p.take 8, Or.inr (Or.inl ⟨htake, List.length_take_of_le hle⟩),
          (List.take_append_drop 8 s.p).symm, rfl, ?_, ?_, ?_, ?_⟩ <;>
          simp_all [isMtu, isLla, RaState.removeHeader]
    · exact Or.inl (Turn.again.inj h).symm
  · rename_i hhead
    split_ifs at h with hlla
    · split at h
      · cases h
      · rename_i llaHdr n hdes
        obtain ⟨type, length, t, ht⟩ : ∃ type length t, s.p = type :: length :: t := by
          rcases hp : s.p with _ | ⟨type, _ | ⟨length, t⟩⟩
          · rw [hp] at hdes
            cases hdes
          · rw [hp, linkLayerAddress_short (by simp)] at hdes
            cases hdes
          · exact ⟨type, length, t, rfl⟩
        have hsize := linkLayerAddress_size type length t
        rw [← ht, hdes, Option.map_some] at hsize
        split_ifs at hsize with hle
        have hn : n = 8 * length.toNat := Option.some.inj hsize
        obtain rfl := Turn.again.inj h
        have htake := hfront (n := n) (by decide) hhead (by omega)
        have hlen : (s.p.take n).length = n :=
          List.length_take_of_le (by rw [ht]; simp only [List.length_cons]; omega)
        have hunit : ((s.p.take n).getD 1 0) = length := by
          rw [ht, show n = (n - 2) + 1 + 1 by omega]
          rfl
        refine Or.inr ⟨s.p.take n, Or.inr (Or.inr ⟨htake, by rw [hlen, hunit, hn], by omega⟩),
          (List.take_append_drop n s.p).symm, rfl, ?_, ?_, ?_, ?_⟩ <;>
          simp_all [isMtu, isLla, RaState.removeHeader]
    · exact Or.inl (Turn.again.inj h).symm
  · cases h

theorem turn_ends {s r : RaState} (h : s.turn = .ends r) : r = s ∧ Unknown s.p := by
  rw [RaState.turn] at h
  split at h
  · split at h <;> cases h
  · split at h
    · split at h <;> cases h
    · cases h
  · split at h
    · split at h <;> cases h
    · cases h
  · rename_i h3 h5 h1
    exact ⟨(Turn.ends.inj h).symm, h3, h5, h1⟩

theorem turn_unknown {s : RaState} (h : Unknown s.p) : s.turn = .ends s := by
  rw [RaState.turn]
  split
  · exact absurd ‹_› h.1
  · exact absurd ‹_› h.2.1
  · exact absurd ‹_› h.2.2
  · rfl

end Options

section Runs

theorem countP_cons_add (q : Bytes → Bool) (o : Bytes) (os : List Bytes) {flag : Bool}
    (h : q o → flag = false) :
    (o :: os).countP q + flag.toNat = os.countP q + (flag || q o).toNat := by
  rw [List.countP_cons]
  cases hq : q o with
  | false => simp
  | true => simp [h hq]

theorem flag_of_countP {q : Bytes → Bool} {o : Bytes} {os : List Bytes} {flag : Bool}
    (h : (o :: os).countP q + flag.toNat ≤ 1) (hq : q o) : flag = false := by
  rw [List.countP_cons_of_pos hq] at h
  cases flag with
  | false => rfl
  | true =>
    rw [Bool.toNat_true] at h
    omega

/-- Options without a repeated one are removed one after the other. -/
theorem ends_of_fresh {os : List Bytes} (hos : ∀ o ∈ os, Readable o) {rest : Bytes}
    (hrest : Unknown rest) {s : RaState} (hp : s.p = os.flatten ++ rest) (hfresh : Fresh s os) :
    ∃ r, Ends RaState.turn s r ∧ r.removed = s.removed ++ os := by
  induction os generalizing s with
  | nil => exact ⟨s, Ends.here (turn_unknown (by rwa [hp])), (List.append_nil _).symm⟩
  | cons o os ih =>
    have hmtu := fun h : isMtu o => flag_of_countP hfresh.1 h
    have hlla := fun h : isLla o => flag_of_countP hfresh.2 h
    rw [List.flatten_cons, List.append_assoc] at hp
    obtain ⟨s', hturn, hp', hremoved, hmtu', hlla'⟩ :=
      turn_readable (hos o (List.mem_cons_self ..)) hp hmtu hlla
    have hfresh' : Fresh s' os := by
      rw [Fresh, hmtu', hlla', ← countP_cons_add isMtu o os hmtu, ← countP_cons_add isLla o os hlla]
      exact hfresh
    obtain ⟨r, hends, hr⟩ := ih (fun o' ho' => hos o' (List.mem_cons_of_mem o ho')) hp' hfresh'
    refine ⟨r, hends.again hturn, ?_⟩
    rw [hr, hremoved, List.append_assoc, List.singleton_append]

/-- What a loop that ends has removed. -/
theorem fresh_of_ends {s r : RaState} (h : Ends RaState.turn s r) :
    ∃ os, (∀ o ∈ os, Readable o) ∧ s.p = os.flatten ++ r.p ∧ r.removed = s.removed ++ os ∧
      Unknown r.p ∧ Fresh s os := by
  revert h
  apply Ends.induct
  · intro s h
    obtain ⟨rfl, hunknown⟩ := turn_ends h
    refine ⟨[], by simp, rfl, (List.append_nil _).symm, hunknown, ?_, ?_⟩
    · rw [List.countP_nil, Nat.zero_add]
      exact Bool.toNat_le _
    · rw [List.countP_nil, Nat.zero_add]
      exact Bool.toNat_le _
  · intro s s' h ih
    rcases turn_again h with rfl | ⟨o, ho, hp, hremoved, hmtu, hlla, hmtu', hlla'⟩
    · exact ih
    · obtain ⟨os, hos, hp', hremoved', hunknown, hfresh⟩ := ih
      refine ⟨o :: os, ?_, ?_, ?_, hunknown, ?_⟩
      · exact List.forall_mem_cons.mpr ⟨ho, hos⟩
      · rw [hp, hp', List.flatten_cons, List.append_assoc]
      · rw [hremoved', hremoved, List.append_assoc, List.singleton_append]
      · rw [Fresh, countP_cons_add isMtu o os hmtu, countP_cons_add isLla o os hlla, ← hmtu',
          ← hlla']
        exact hfresh

/-- The payload of a router advertisement: options, of which at most one is for the link MTU and at
most one for the source link-layer address, and then bytes of no known type. -/
def SingleOptions (os : List Bytes) (rest : Bytes) : Prop :=
  ∃ more tail, rest = List.flatten more ++ tail ∧ (∀ o ∈ os ++ more, Readable o) ∧ Unknown tail ∧
    (os ++ more).countP isMtu ≤ 1 ∧ (os ++ more).countP isLla ≤ 1

/-- A repeated option for the link MTU stays at the front of the packet forever. -/
theorem not_halts_of_mtu {s : RaState} (hmtu : s.hasMtu = true) (hhead : s.p.headD 0 = 5) :
    ¬Halts RaState.turn s := by
  apply not_halts_of_invariant (I := (· = s)) _ rfl
  rintro _ rfl
  refine ⟨_, ?_, rfl⟩
  rw [RaState.turn, hhead, hmtu]
  rfl

def mtuOption : Bytes := [5, 1, 0, 0, 0, 0, 5, 220]

theorem mtuOption_wellFormed : WellFormed mtuOption :=
  ⟨by decide, by decide, by decide, by decide, by decide⟩

end Runs

end Ns3Noc.RouterAdvertisement

import Mathlib
import Ns3Noc.BufferSerialization
import Ns3Noc.MetadataRecords

/-!
# MetadataBlocks

The headers, trailers and payload of a packet, as records in a block that are linked by offsets of
16 bits. New records go behind the last byte in use, and a block that is too small is copied into a
bigger one.
-/
namespace Ns3Noc
open ByteSlices

structure PacketMetadata where
  data : MetadataData
  head : ℕ
  tail : ℕ
  used : ℕ
  packetUid : ℕ

/-- The static members, the last block of the list first, and what the blocks that `new` gives out
happen to hold. -/
structure MetadataPool where
  enable : Bool
  maxSize : ℕ
  freeList : List MetadataData
  fresh : ℕ → ℕ → UInt8

namespace MetadataPool

def allocate (pool : MetadataPool) (n : ℕ) : MetadataData × MetadataPool :=
  let n := if n ≤ 10 then 10 else n
  (⟨1, n % 2 ^ 16, 0, pool.fresh 0⟩, { pool with fresh := fun k => pool.fresh (k + 1) })

/-- The blocks that are too small are given back. -/
def takeFree (size : ℕ) : List MetadataData → Option MetadataData × List MetadataData
  | [] => (none, [])
  | d :: freeList => if size ≤ d.size then (some d, freeList) else takeFree size freeList

def create (pool : MetadataPool) (size : ℕ) : MetadataData × MetadataPool :=
  let pool := if pool.maxSize < size then { pool with maxSize := size } else pool
  match takeFree size pool.freeList with
  | (some d, freeList) => ({ d with count := 1 }, { pool with freeList := freeList })
  | (none, freeList) => { pool with freeList := freeList }.allocate pool.maxSize

def recycle (pool : MetadataPool) (d : MetadataData) : MetadataPool :=
  if pool.enable = false then pool
  else if 1000 < pool.freeList.length ∨ d.size < pool.maxSize then pool
  else { pool with freeList := d :: pool.freeList }

/-- No block was ever bigger than its size can tell. -/
structure Sound (pool : MetadataPool) : Prop where
  maxSize : pool.maxSize < 2 ^ 16
  freeList : ∀ d ∈ pool.freeList, d.size < 2 ^ 16

section Blocks
variable {pool : MetadataPool} {size : ℕ} {d : MetadataData}

theorem takeFree_cases (size : ℕ) (freeList : List MetadataData) :
    (∃ d rest, takeFree size freeList = (some d, rest) ∧ d ∈ freeList ∧
        size ≤ d.size ∧ rest ⊆ freeList) ∨
      takeFree size freeList = (none, []) ∧ ∀ d ∈ freeList, d.size < size := by
  induction freeList with
  | nil => exact .inr ⟨rfl, fun d hd => (List.not_mem_nil hd).elim⟩
  | cons d freeList ih =>
    rw [takeFree]
    split_ifs with hd
    · exact .inl ⟨d, freeList, rfl, List.mem_cons_self, hd, List.subset_cons_self _ _⟩
    · cases ih with
      | inl hfound =>
        obtain ⟨e, rest, htake, he, hsize, hrest⟩ := hfound
        exact .inl ⟨e, rest, htake, List.mem_cons_of_mem _ he, hsize,
          fun e he => List.mem_cons_of_mem _ (hrest he)⟩
      | inr hnone =>
        refine .inr ⟨hnone.1, fun e he => ?_⟩
        obtain rfl | he := List.mem_cons.mp he
        · exact Nat.not_le.mp hd
        · exact hnone.2 e he

/-- A block of the requested size, which nothing else refers to. -/
theorem Sound.create (h : Sound pool) (hsize : size < 2 ^ 16) :
    (pool.create size).1.count = 1 ∧ size ≤ (pool.create size).1.size ∧
      (pool.create size).1.size < 2 ^ 16 ∧ Sound (pool.create size).2 := by
  have hmax : Sound (if pool.maxSize < size then { pool with maxSize := size } else pool) ∧
      size ≤ (if pool.maxSize < size then { pool with maxSize := size } else pool).maxSize := by
    split_ifs with hlt
    · exact ⟨⟨hsize, h.freeList⟩, le_rfl⟩
    · exact ⟨h, Nat.not_lt.mp hlt⟩
  rw [MetadataPool.create]
  generalize (if pool.maxSize < size then { pool with maxSize := size } else pool) = p at hmax
  obtain ⟨hp, hle⟩ := hmax
  cases takeFree_cases size p.freeList with
  | inl hfound =>
    obtain ⟨e, rest, htake, he, hroom, hrest⟩ := hfound
    simp only [htake]
    exact ⟨trivial, hroom, hp.freeList e he, hp.maxSize, fun d hd => hp.freeList d (hrest hd)⟩
  | inr hnone =>
    have hlt := hp.maxSize
    simp only [hnone.1, allocate]
    refine ⟨trivial, ?_, Nat.mod_lt _ (Nat.two_pow_pos 16), hp.maxSize,
      fun d hd => (List.not_mem_nil hd).elim⟩
    split_ifs <;> omega

theorem Sound.recycle (h : Sound pool) (hd : d.size < 2 ^ 16) : Sound (pool.recycle d) := by
  rw [MetadataPool.recycle]
  split_ifs
  · exact h
  · exact h
  · refine ⟨h.maxSize, fun e he => ?_⟩
    obtain rfl | he := List.mem_cons.mp he
    · exact hd
    · exact h.freeList e he

end Blocks

end MetadataPool

namespace PacketMetadata

/-- A new packet without payload. -/
def construct (pool : MetadataPool) (uid : ℕ) : PacketMetadata × MetadataPool :=
  let (d, pool) := pool.create 10
  (⟨{ d with data := overwrite d.data 0 (List.replicate 4 0xff) }, 0xffff, 0xffff, 0, uid⟩, pool)

def reserveCopy (m : PacketMetadata) (pool : MetadataPool) (size : ℕ) :
    Option (PacketMetadata × MetadataPool) := do
  let (newData, pool) := pool.create (m.used + size)
  let newData := { newData with
    data := overwrite newData.data 0 (slice m.data.data 0 m.used)
    dirtyEnd := m.used }
  let count := m.data.count - 1
  let pool := if count = 0 then pool.recycle { m.data with count } else pool
  if m.head ≠ 0xffff then do
    guard (m.tail ≠ 0xffff)
    let data := overwrite newData.data m.tail (append16 0xffff)
    let data := overwrite data (m.head + 2) (append16 0xffff)
    some ({ m with data := { newData with data } }, pool)
  else some ({ m with data := newData }, pool)

/-- What `AddSmall` and `AddBig` do with their record, with the number of bytes that they have
written. `none` is a failed assertion. -/
def addRecord (m : PacketMetadata) (pool : MetadataPool) (next prev : ℕ) (r : MetadataRecord) :
    Option (ℕ × PacketMetadata × MetadataPool) := do
  guard (m.used ≠ prev ∧ m.used ≠ next)
  let (m, pool) ←
    if m.data.size < m.used + r.n ∨
        m.head ≠ 0xffff ∧ m.data.count ≠ 1 ∧ m.used ≠ m.data.dirtyEnd then
      m.reserveCopy pool r.n
    else some (m, pool)
  let data := overwrite m.data.data m.used (r.bytes next prev)
  some (r.n, { m with data := { m.data with data } }, pool)

def addSmall (m : PacketMetadata) (pool : MetadataPool) (item : SmallItem) :
    Option (ℕ × PacketMetadata × MetadataPool) :=
  m.addRecord pool item.next item.prev (MetadataRecord.small item)

def addBig (m : PacketMetadata) (pool : MetadataPool) (next prev : ℕ) (item : SmallItem)
    (extraItem : ExtraItem) : Option (ℕ × PacketMetadata × MetadataPool) :=
  m.addRecord pool next prev (MetadataRecord.big item extraItem)

def updateTail (m : PacketMetadata) (written : ℕ) : Option PacketMetadata := do
  let m ←
    if m.head = 0xffff then do
      guard (m.tail = 0xffff)
      some { m with head := m.used, tail := m.used }
    else do
      guard (m.tail ≠ 0xffff)
      let data := overwrite m.data.data m.tail (append16 m.used)
      some { m with data := { m.data with data }, tail := m.used }
  guard (m.tail ≠ 0xffff ∧ m.head ≠ 0xffff ∧ 8 ≤ written)
  let used := (m.used + written) % 2 ^ 16
  some { m with used, data := { m.data with dirtyEnd := used } }

def updateHead (m : PacketMetadata) (written : ℕ) : Option PacketMetadata := do
  let m ←
    if m.head = 0xffff then do
      guard (m.tail = 0xffff)
      some { m with head := m.used, tail := m.used }
    else do
      let data := overwrite m.data.data (m.head + 2) (append16 m.used)
      some { m with data := { m.data with data }, head := m.used }
  guard (m.tail ≠ 0xffff ∧ m.head ≠ 0xffff ∧ 8 ≤ written)
  let used := (m.used + written) % 2 ^ 16
  some { m with used, data := { m.data with dirtyEnd := used } }

/-- A big record behind the others, as the loops of `Deserialize` and of `AddAtEnd` add it. -/
def appendRecord (s : PacketMetadata × MetadataPool) (record : SmallItem × ExtraItem) :
    Option (PacketMetadata × MetadataPool) := do
  let (tmp, m, pool) ← s.1.addBig s.2 0xffff s.1.tail record.1 record.2
  let m ← m.updateTail tmp
  some (m, pool)

/-- The records from an offset to the tail. There are fewer offsets than the fuel, so that `none` is
a failed assertion or a loop without end. -/
def walk (m : PacketMetadata) : ℕ → ℕ → Option (List (SmallItem × ExtraItem))
  | 0, _ => none
  | fuel + 1, current =>
    if current = 0xffff then some []
    else do
      let (_, item, extraItem) ← readItems m.data m.packetUid current
      if current = m.tail then some [(item, extraItem)]
      else do
        guard (current ≠ item.next)
        let rest ← m.walk fuel item.next
        some ((item, extraItem) :: rest)

def records (m : PacketMetadata) : Option (List (SmallItem × ExtraItem)) :=
  m.walk (2 ^ 16) m.head

/-! ## Linked records -/

/-- A record at an offset. -/
abbrev Node := ℕ × MetadataRecord

/-- The record is at its offset, in the bytes in use. -/
structure InBlock (m : PacketMetadata) (a : Node) : Prop where
  fits : a.2.Fits
  body : slice m.data.data (a.1 + 4) a.2.body.length = a.2.body
  below : a.1 + a.2.n ≤ m.used

def Apart (a b : Node) : Prop := a.1 + a.2.n ≤ b.1 ∨ b.1 + b.2.n ≤ a.1

/-- The offsets in two neighbours point to each other. -/
def Follows (data : ℕ → UInt8) (a b : Node) : Prop :=
  read16 data a.1 = b.1 ∧ read16 data (b.1 + 2) = a.1

/-- A block of its own that holds these records, in this order. -/
structure Linked (m : PacketMetadata) (nodes : List Node) : Prop where
  node : ∀ a ∈ nodes, InBlock m a
  apart : nodes.Pairwise Apart
  links : nodes.IsChain (Follows m.data.data)
  head : m.head = (nodes.head?.map Prod.fst).getD 0xffff
  tail : m.tail = (nodes.getLast?.map Prod.fst).getD 0xffff
  room : m.used ≤ m.data.size
  size_lt : m.data.size < 2 ^ 16
  count : m.data.count = 1

section Linked
variable {m : PacketMetadata} {nodes : List Node} {pool : MetadataPool} {r : MetadataRecord}

theorem Linked.used_lt (h : Linked m nodes) : m.used < 2 ^ 16 := h.room.trans_lt h.size_lt

theorem Linked.tail_of_ne_nil (h : Linked m nodes) (hne : nodes ≠ []) :
    m.tail = (nodes.getLast hne).1 := by
  rw [h.tail, List.getLast?_eq_some_getLast hne, Option.map_some, Option.getD_some]

theorem Linked.head_of_ne_nil (h : Linked m nodes) (hne : nodes ≠ []) :
    m.head = (nodes.head hne).1 := by
  rw [h.head, List.head?_eq_some_head hne, Option.map_some, Option.getD_some]

theorem Linked.offset_lt (h : Linked m nodes) {a : Node} (ha : a ∈ nodes) :
    a.1 + 8 ≤ m.used := by
  have hn := a.2.n_bounds
  have hbelow := (h.node a ha).below
  omega

/-- Which records there are does not depend on the first offset of the head nor on the last one of
the tail. -/
theorem Linked.congr (h : Linked m nodes) {d : MetadataData} (hcount : d.count = 1)
    (hroom : m.used ≤ d.size) (hsize : d.size < 2 ^ 16)
    (hbody : ∀ a ∈ nodes, ∀ k, a.1 + 4 ≤ k → k < a.1 + a.2.n → d.data k = m.data.data k)
    (hnext : ∀ a ∈ nodes, a.1 ≠ m.tail → read16 d.data a.1 = read16 m.data.data a.1)
    (hprev : ∀ a ∈ nodes, a.1 ≠ m.head → read16 d.data (a.1 + 2) = read16 m.data.data (a.1 + 2)) :
    Linked { m with data := d } nodes := by
  refine ⟨fun a ha => ⟨(h.node a ha).fits, ?_, (h.node a ha).below⟩, h.apart, ?_, h.head, h.tail,
    hroom, hsize, hcount⟩
  · refine Eq.trans (slice_congr fun k hk => ?_) (h.node a ha).body
    have hlength := a.2.length_body
    exact hbody a ha _ (by omega) (by omega)
  · rw [List.isChain_iff_getElem]
    intro i hi
    have hlink := List.isChain_iff_getElem.mp h.links i hi
    have hne : nodes ≠ [] := List.ne_nil_of_length_pos (by omega)
    have hapart {j k : ℕ} (hj : j < k) (hk : k < nodes.length) :
        nodes[j].1 ≠ nodes[k].1 := by
      have hdisjoint := List.pairwise_iff_getElem.mp h.apart j k (by omega) hk hj
      have h1 := nodes[j].2.n_bounds
      have h2 := nodes[k].2.n_bounds
      rw [Apart] at hdisjoint
      omega
    refine ⟨?_, ?_⟩
    · rw [hnext _ (List.getElem_mem _), hlink.1]
      rw [h.tail_of_ne_nil hne, List.getLast_eq_getElem]
      exact hapart (by omega) _
    · rw [hprev _ (List.getElem_mem _), hlink.2]
      rw [h.head_of_ne_nil hne, List.head_eq_getElem]
      exact (hapart (by omega) _).symm

theorem read16_congr {f g : ℕ → UInt8} {p : ℕ} (h : ∀ k < 2, f (p + k) = g (p + k)) :
    read16 f p = read16 g p := by
  rw [read16, read16, h 1 (by decide)]
  exact congrArg (fun b => b.toNat + _) (h 0 (by decide))

theorem overwrite16 {f : ℕ → UInt8} {p k v : ℕ} (h : k < p ∨ p + 2 ≤ k) :
    overwrite f p (append16 v) k = f k := by
  cases h with
  | inl hlt => exact overwrite_of_lt hlt
  | inr hge => exact overwrite_of_ge hge

theorem read16_overwrite (f : ℕ → UInt8) (p : ℕ) {v : ℕ} (hv : v < 2 ^ 16) :
    read16 (overwrite f p (append16 v)) p = v :=
  read16_of_slice hv (slice_overwrite_self f p (append16 v))

/-- Two records are at the same place or do not overlap. -/
theorem Linked.places (h : Linked m nodes) {a b : Node} (ha : a ∈ nodes) (hb : b ∈ nodes) :
    a.1 = b.1 ∨ a.1 + a.2.n ≤ b.1 ∨ b.1 + b.2.n ≤ a.1 := by
  obtain ⟨i, hi, rfl⟩ := List.mem_iff_getElem.mp ha
  obtain ⟨j, hj, rfl⟩ := List.mem_iff_getElem.mp hb
  have hpairs := List.pairwise_iff_getElem.mp h.apart
  obtain hlt | heq | hgt := Nat.lt_trichotomy i j
  · exact .inr (hpairs i j hi hj hlt)
  · subst heq
    exact .inl rfl
  · exact .inr (hpairs j i hj hi hgt).symm

/-- Where a record is, seen from the head and from the tail. -/
theorem Linked.link_places (h : Linked m nodes) (hne : nodes ≠ []) {a : Node} (ha : a ∈ nodes) :
    (a.1 = m.head ∨ a.1 + a.2.n ≤ m.head ∧ a.1 + 8 ≤ m.head ∨ m.head + 8 ≤ a.1) ∧
      (a.1 = m.tail ∨ a.1 + a.2.n ≤ m.tail ∧ a.1 + 8 ≤ m.tail ∨ m.tail + 8 ≤ a.1) := by
  have hn := a.2.n_bounds
  have hfirst := h.places ha (List.head_mem hne)
  have hlast := h.places ha (List.getLast_mem hne)
  have hhead := (nodes.head hne).2.n_bounds
  have htail := (nodes.getLast hne).2.n_bounds
  rw [h.head_of_ne_nil hne, h.tail_of_ne_nil hne]
  omega

/-- The bytes in use are in the new block, and there is room behind them. -/
theorem Linked.reserveCopy (h : Linked m nodes) (hpool : pool.Sound) {size : ℕ}
    (hsize : m.used + size < 2 ^ 16) :
    ∃ d pool', m.reserveCopy pool size = some ({ m with data := d }, pool') ∧
      Linked { m with data := d } nodes ∧ m.used + size ≤ d.size ∧ pool'.Sound := by
  obtain ⟨hcount, hroom, hlt, hsound⟩ := hpool.create hsize
  rw [PacketMetadata.reserveCopy]
  generalize pool.create (m.used + size) = created at *
  obtain ⟨newData, pool'⟩ := created
  dsimp only at hcount hroom hlt hsound ⊢
  have hrecycle : (pool'.recycle { m.data with count := 0 }).Sound := hsound.recycle h.size_lt
  rw [h.count, Nat.sub_self, if_pos rfl]
  have hcopy {k : ℕ} (hk : k < m.used) :
      overwrite newData.data 0 (slice m.data.data 0 m.used) k = m.data.data k := by
    have hslice := eq_of_slice_eq (slice_memcpy newData.data m.data.data 0 0 m.used) hk
    rwa [Nat.zero_add] at hslice
  split_ifs with hhead
  · have hne : nodes ≠ [] := by
      rintro rfl
      exact hhead h.head
    have htail : m.tail ≠ 0xffff := by
      have hlast := h.offset_lt (List.getLast_mem hne)
      have hused := h.used_lt
      rw [h.tail_of_ne_nil hne]
      omega
    simp only [Buffer.guard_of htail, Option.bind_eq_bind, Option.bind_some]
    refine ⟨_, _, rfl, h.congr hcount (by dsimp only; omega) hlt (fun a ha k hk hk' => ?_)
      (fun a ha hlast => ?_) (fun a ha hfirst => ?_), hroom, hrecycle⟩
    · have hbelow := (h.node a ha).below
      obtain ⟨hfirst, hlast⟩ := h.link_places hne ha
      dsimp only
      rw [overwrite16 (by omega), overwrite16 (by omega), hcopy (by omega)]
    · have hbelow := h.offset_lt ha
      obtain ⟨hfirst, hlast'⟩ := h.link_places hne ha
      refine read16_congr fun k hk => ?_
      dsimp only
      rw [overwrite16 (by omega), overwrite16 (by omega), hcopy (by omega)]
    · have hbelow := h.offset_lt ha
      obtain ⟨hfirst', hlast⟩ := h.link_places hne ha
      refine read16_congr fun k hk => ?_
      dsimp only
      rw [overwrite16 (by omega), overwrite16 (by omega), hcopy (by omega)]
  · refine ⟨_, _, rfl, h.congr hcount (by dsimp only; omega) hlt (fun a ha k hk hk' => ?_)
      (fun a ha hlast => ?_) (fun a ha hfirst => ?_), hroom, hrecycle⟩
    · have hbelow := (h.node a ha).below
      exact hcopy (by omega)
    · have hbelow := h.offset_lt ha
      exact read16_congr fun k hk => hcopy (by omega)
    · have hbelow := h.offset_lt ha
      exact read16_congr fun k hk => hcopy (by omega)

/-- A record that was written behind the bytes in use, and nothing else changed. -/
structure Written (m m' : PacketMetadata) (nodes : List Node) (next prev : ℕ) (r : MetadataRecord) :
    Prop where
  linked : Linked m' nodes
  head : m'.head = m.head
  tail : m'.tail = m.tail
  used : m'.used = m.used
  packetUid : m'.packetUid = m.packetUid
  bytes : slice m'.data.data m.used r.n = r.bytes next prev
  room : m.used + r.n ≤ m'.data.size

theorem Linked.addRecord (h : Linked m nodes) (hpool : pool.Sound) {next prev : ℕ}
    (hr : m.used + r.n < 2 ^ 16) (hnext : m.used ≠ next) (hprev : m.used ≠ prev) :
    ∃ m' pool', m.addRecord pool next prev r = some (r.n, m', pool') ∧
      Written m m' nodes next prev r ∧ pool'.Sound := by
  have hwrite {d : MetadataData} (hd : Linked { m with data := d } nodes)
      (hroom : m.used + r.n ≤ d.size) : Written m
        { m with data := { d with data := overwrite d.data m.used (r.bytes next prev) } }
        nodes next prev r := by
    have hbelow {k : ℕ} (hk : k < m.used) :
        overwrite d.data m.used (r.bytes next prev) k = d.data k := overwrite_of_lt hk
    refine ⟨hd.congr hd.count (by dsimp only; omega) hd.size_lt (fun a ha k hk hk' => ?_)
      (fun a ha _ => ?_) (fun a ha _ => ?_), rfl, rfl, rfl, rfl, ?_, hroom⟩
    · have hend := (hd.node a ha).below
      exact hbelow (by dsimp only at hend; omega)
    · have hend := hd.offset_lt ha
      exact read16_congr fun k hk => hbelow (by dsimp only at hend; omega)
    · have hend := hd.offset_lt ha
      exact read16_congr fun k hk => hbelow (by dsimp only at hend; omega)
    · have hslice := slice_overwrite_self d.data m.used (r.bytes next prev)
      rwa [MetadataRecord.length_bytes] at hslice
  rw [PacketMetadata.addRecord]
  simp only [Buffer.guard_of (show m.used ≠ prev ∧ m.used ≠ next from ⟨hprev, hnext⟩),
    Option.bind_eq_bind, Option.bind_some]
  split_ifs with hcopy
  · obtain ⟨d, pool', hreserve, hlinked, hroom, hsound⟩ := h.reserveCopy hpool hr
    simp only [hreserve, Option.bind_some]
    exact ⟨_, _, rfl, hwrite hlinked hroom, hsound⟩
  · obtain ⟨hroom, -⟩ := not_or.mp hcopy
    exact ⟨_, _, rfl, hwrite h (Nat.not_lt.mp hroom), hpool⟩

theorem Written.reads {m' : PacketMetadata} {next prev : ℕ} (hw : Written m m' nodes next prev r)
    (hnext : next < 2 ^ 16) (hprev : prev < 2 ^ 16) :
    read16 m'.data.data m.used = next ∧ read16 m'.data.data (m.used + 2) = prev ∧
      slice m'.data.data (m.used + 4) r.body.length = r.body := by
  have hbytes := hw.bytes
  rw [← r.length_bytes next prev, MetadataRecord.bytes] at hbytes
  obtain ⟨h1, hbytes⟩ := slice_append hbytes
  obtain ⟨h2, h3⟩ := slice_append hbytes
  exact ⟨read16_of_slice hnext h1, read16_of_slice hprev h2, h3⟩

/-- One more record behind the others, for a change that leaves them alone. -/
theorem Written.extend {m' : PacketMetadata} {next prev : ℕ} (hw : Written m m' nodes next prev r)
    (hfits : r.Fits) (hnext : next < 2 ^ 16) (hprev : prev < 2 ^ 16) {d : MetadataData}
    (hd : Linked { m' with data := d } nodes) (hsize : d.size = m'.data.size)
    (hsame : ∀ k, m.used ≤ k → d.data k = m'.data.data k) {head tail : ℕ} {nodes' : List Node}
    (hnodes : nodes'.Perm ((m.used, r) :: nodes))
    (hlinks : nodes'.IsChain (Follows d.data))
    (hhead : head = (nodes'.head?.map Prod.fst).getD 0xffff)
    (htail : tail = (nodes'.getLast?.map Prod.fst).getD 0xffff) :
    Linked ⟨{ d with dirtyEnd := m.used + r.n }, head, tail, m.used + r.n, m.packetUid⟩ nodes' := by
  obtain ⟨h1, h2, h3⟩ := hw.reads hnext hprev
  have hused := hw.used
  have hn := r.n_bounds
  refine ⟨fun a ha => ?_, ?_, hlinks, hhead, htail, hsize ▸ hw.room, hd.size_lt, hd.count⟩
  · obtain rfl | ha := List.mem_cons.mp (hnodes.mem_iff.mp ha)
    · refine ⟨hfits, (slice_congr fun k hk => ?_).trans h3, le_rfl⟩
      exact hsame _ (by dsimp only; omega)
    · have hold := hd.node a ha
      refine ⟨hold.fits, hold.body, hold.below.trans ?_⟩
      dsimp only
      omega
  · refine (hnodes.pairwise_iff fun hab => hab.symm).mpr (List.pairwise_cons.mpr ⟨?_, hd.apart⟩)
    intro a ha
    right
    have hbelow := (hd.node a ha).below
    dsimp only at hbelow ⊢
    omega

theorem Written.used_lt {m' : PacketMetadata} {next prev : ℕ} (h : Written m m' nodes next prev r) :
    m.used + r.n < 2 ^ 16 ∧ 8 ≤ r.n :=
  ⟨h.room.trans_lt h.linked.size_lt, r.n_bounds.1⟩

theorem Linked.tail_lt (h : Linked m nodes) : m.tail < 2 ^ 16 := by
  by_cases hne : nodes = []
  · rw [h.tail, hne]
    decide
  · have hlast := h.offset_lt (List.getLast_mem hne)
    have hused := h.used_lt
    rw [h.tail_of_ne_nil hne]
    omega

theorem Linked.head_lt (h : Linked m nodes) : m.head < 2 ^ 16 := by
  by_cases hne : nodes = []
  · rw [h.head, hne]
    decide
  · have hfirst := h.offset_lt (List.head_mem hne)
    have hused := h.used_lt
    rw [h.head_of_ne_nil hne]
    omega

/-- The record goes behind the tail. -/
theorem Linked.updateTail (h : Linked m nodes) {m' : PacketMetadata}
    (hw : Written m m' nodes 0xffff m.tail r) (hfits : r.Fits) :
    ∃ m'', m'.updateTail r.n = some m'' ∧ Linked m'' (nodes ++ [(m.used, r)]) ∧
      m''.used = m.used + r.n ∧ m''.packetUid = m.packetUid := by
  obtain ⟨hlt, hn⟩ := hw.used_lt
  have hmod : (m.used + r.n) % 2 ^ 16 = m.used + r.n := Nat.mod_eq_of_lt hlt
  have hused : m.used ≠ 0xffff := by omega
  have htail := h.tail_lt
  rw [PacketMetadata.updateTail]
  by_cases hne : nodes = []
  · subst hne
    have hhead : m'.head = 0xffff := hw.head.trans h.head
    have htail' : m'.tail = 0xffff := hw.tail.trans h.tail
    simp only [if_pos hhead, Buffer.guard_of htail', Option.bind_eq_bind, Option.bind_some, hw.used,
      hw.packetUid, hmod, Buffer.guard_of (show m.used ≠ 0xffff ∧ m.used ≠ 0xffff ∧ 8 ≤ r.n from
        ⟨hused, hused, hn⟩)]
    refine ⟨_, rfl, ?_, rfl, rfl⟩
    exact hw.extend hfits (by decide) htail hw.linked rfl (fun _ _ => rfl) (List.Perm.refl _)
      (List.isChain_singleton _) rfl rfl
  · have hhead : m'.head ≠ 0xffff := by
      have hfirst := h.offset_lt (List.head_mem hne)
      rw [hw.head, h.head_of_ne_nil hne]
      omega
    have hlast := h.offset_lt (List.getLast_mem hne)
    rw [← h.tail_of_ne_nil hne] at hlast
    have htail' : m'.tail ≠ 0xffff := by
      rw [hw.tail]
      omega
    simp only [if_neg hhead, Buffer.guard_of htail', Option.bind_eq_bind, Option.bind_some, hw.used,
      hw.packetUid, hmod, Buffer.guard_of (show m.used ≠ 0xffff ∧ m'.head ≠ 0xffff ∧ 8 ≤ r.n from
        ⟨hused, hhead, hn⟩)]
    refine ⟨_, rfl, ?_, rfl, rfl⟩
    generalize hd : overwrite m'.data.data m'.tail (append16 m.used) = data
    have hdata (k : ℕ) (hk : k < m.tail ∨ m.tail + 2 ≤ k) : data k = m'.data.data k := by
      rw [← hd, hw.tail]
      exact overwrite16 hk
    have hlinked : Linked { m' with data := { m'.data with data } } nodes := by
      refine hw.linked.congr hw.linked.count hw.linked.room hw.linked.size_lt
        (fun a ha k hk hk' => ?_) (fun a ha hlast' => ?_) (fun a ha _ => ?_)
      · obtain ⟨-, hplace⟩ := h.link_places hne ha
        exact hdata k (by omega)
      · obtain ⟨-, hplace⟩ := h.link_places hne ha
        rw [hw.tail] at hlast'
        exact read16_congr fun k hk => hdata _ (by omega)
      · obtain ⟨-, hplace⟩ := h.link_places hne ha
        exact read16_congr fun k hk => hdata _ (by omega)
    have hsame (k : ℕ) (hk : m.used ≤ k) : data k = m'.data.data k := hdata k (by omega)
    refine hw.extend hfits (by decide) htail hlinked rfl hsame (List.perm_append_singleton _ _)
      (List.isChain_append.mpr ⟨hlinked.links, List.isChain_singleton _, ?_⟩) ?_ ?_
    · rintro a ha b hb
      obtain rfl : (m.used, r) = b := Option.some.inj hb
      have ha : a.1 = m.tail := by
        rw [h.tail, ha]
        rfl
      obtain ⟨-, hprev, -⟩ := hw.reads (by decide) htail
      refine ⟨?_, ?_⟩
      · rw [ha, ← hd, hw.tail]
        exact read16_overwrite _ _ (by omega)
      · rw [ha, ← hprev]
        exact read16_congr fun k hk => hsame _ (by dsimp only; omega)
    · rw [List.head?_append_of_ne_nil _ hne, hw.head, h.head]
    · rw [List.getLast?_concat, Option.map_some, Option.getD_some]

/-- The record goes in front of the head. -/
theorem Linked.updateHead (h : Linked m nodes) {m' : PacketMetadata}
    (hw : Written m m' nodes m.head 0xffff r) (hfits : r.Fits) :
    ∃ m'', m'.updateHead r.n = some m'' ∧ Linked m'' ((m.used, r) :: nodes) ∧
      m''.used = m.used + r.n ∧ m''.packetUid = m.packetUid := by
  obtain ⟨hlt, hn⟩ := hw.used_lt
  have hmod : (m.used + r.n) % 2 ^ 16 = m.used + r.n := Nat.mod_eq_of_lt hlt
  have hused : m.used ≠ 0xffff := by omega
  have hhead := h.head_lt
  rw [PacketMetadata.updateHead]
  by_cases hne : nodes = []
  · subst hne
    have hhead' : m'.head = 0xffff := hw.head.trans h.head
    have htail' : m'.tail = 0xffff := hw.tail.trans h.tail
    simp only [if_pos hhead', Buffer.guard_of htail', Option.bind_eq_bind, Option.bind_some, hw.used,
      hw.packetUid, hmod, Buffer.guard_of (show m.used ≠ 0xffff ∧ m.used ≠ 0xffff ∧ 8 ≤ r.n from
        ⟨hused, hused, hn⟩)]
    refine ⟨_, rfl, ?_, rfl, rfl⟩
    exact hw.extend hfits hhead (by decide) hw.linked rfl (fun _ _ => rfl) (List.Perm.refl _)
      (List.isChain_singleton _) rfl rfl
  · have hfirst := h.offset_lt (List.head_mem hne)
    rw [← h.head_of_ne_nil hne] at hfirst
    have hhead' : m'.head ≠ 0xffff := by
      rw [hw.head]
      omega
    have hlast := h.offset_lt (List.getLast_mem hne)
    have htail' : m'.tail ≠ 0xffff := by
      rw [hw.tail, h.tail_of_ne_nil hne]
      omega
    simp only [if_neg hhead', Option.bind_eq_bind, Option.bind_some, hw.used, hw.packetUid, hmod,
      Buffer.guard_of (show m'.tail ≠ 0xffff ∧ m.used ≠ 0xffff ∧ 8 ≤ r.n from
        ⟨htail', hused, hn⟩)]
    refine ⟨_, rfl, ?_, rfl, rfl⟩
    generalize hd : overwrite m'.data.data (m'.head + 2) (append16 m.used) = data
    have hdata (k : ℕ) (hk : k < m.head + 2 ∨ m.head + 4 ≤ k) : data k = m'.data.data k := by
      rw [← hd, hw.head]
      exact overwrite16 hk
    have hlinked : Linked { m' with data := { m'.data with data } } nodes := by
      refine hw.linked.congr hw.linked.count hw.linked.room hw.linked.size_lt
        (fun a ha k hk hk' => ?_) (fun a ha _ => ?_) (fun a ha hfirst' => ?_)
      · obtain ⟨hplace, -⟩ := h.link_places hne ha
        exact hdata k (by omega)
      · obtain ⟨hplace, -⟩ := h.link_places hne ha
        exact read16_congr fun k hk => hdata _ (by omega)
      · obtain ⟨hplace, -⟩ := h.link_places hne ha
        rw [hw.head] at hfirst'
        exact read16_congr fun k hk => hdata _ (by omega)
    have hsame (k : ℕ) (hk : m.used ≤ k) : data k = m'.data.data k := hdata k (by omega)
    refine hw.extend hfits hhead (by decide) hlinked rfl hsame (List.Perm.refl _)
      (List.isChain_cons.mpr ⟨?_, hlinked.links⟩) rfl ?_
    · rintro b hb
      have hb : b.1 = m.head := by
        rw [h.head, hb]
        rfl
      obtain ⟨hnext, -, -⟩ := hw.reads hhead (by decide)
      refine ⟨?_, ?_⟩
      · rw [hb, ← hnext]
        exact read16_congr fun k hk => hsame _ (by dsimp only; omega)
      · rw [hb, ← hd, hw.head]
        exact read16_overwrite _ _ (by omega)
    · rw [List.getLast?_cons_of_ne_nil hne, hw.tail, h.tail]

/-- What is read at a node. -/
def readNode (m : PacketMetadata) (a : Node) : SmallItem × ExtraItem :=
  (⟨read16 m.data.data a.1, read16 m.data.data (a.1 + 2), a.2.typeUid, a.2.size, a.2.chunkUid⟩,
    a.2.extraItem m.packetUid)

theorem Linked.readItems_eq (h : Linked m nodes) {a : Node} (ha : a ∈ nodes) :
    readItems m.data m.packetUid a.1 = some (a.2.n, m.readNode a) := by
  have hnode := h.node a ha
  exact hnode.fits.readItems_eq hnode.body (hnode.below.trans h.room)

theorem Linked.walk_succ (h : Linked m nodes) {a : Node} (ha : a ∈ nodes) (fuel : ℕ) :
    m.walk (fuel + 1) a.1 =
      if a.1 = m.tail then some [m.readNode a]
      else (do
        guard (a.1 ≠ read16 m.data.data a.1)
        let rest ← m.walk fuel (read16 m.data.data a.1)
        some (m.readNode a :: rest)) := by
  have hbelow := h.offset_lt ha
  have hused := h.used_lt
  rw [walk, if_neg (by omega), h.readItems_eq ha]
  rfl

/-- The walk from a record goes over it and those behind it. -/
theorem Linked.walk_eq (h : Linked m nodes) {pre rest : List Node} {a : Node}
    (hnodes : nodes = pre ++ a :: rest) {fuel : ℕ} (hfuel : rest.length < fuel) :
    m.walk fuel a.1 = some ((a :: rest).map m.readNode) := by
  induction rest generalizing pre a fuel with
  | nil =>
    obtain ⟨fuel, rfl⟩ := Nat.exists_eq_succ_of_ne_zero (Nat.ne_of_gt hfuel)
    have ha : a ∈ nodes := hnodes ▸ List.mem_append_right _ List.mem_cons_self
    have hlast : a.1 = m.tail := by
      rw [h.tail, hnodes, List.getLast?_concat, Option.map_some, Option.getD_some]
    rw [h.walk_succ ha, if_pos hlast]
    rfl
  | cons b rest ih =>
    obtain ⟨fuel, rfl⟩ := Nat.exists_eq_succ_of_ne_zero (Nat.ne_of_gt (Nat.zero_lt_of_lt hfuel))
    have ha : a ∈ nodes := hnodes ▸ List.mem_append_right _ List.mem_cons_self
    have hne : nodes ≠ [] := List.ne_nil_of_mem ha
    have hapart : ∀ c ∈ b :: rest, a.1 ≠ c.1 := by
      have hpairs := h.apart
      rw [hnodes] at hpairs
      intro c hc
      have hac := (List.pairwise_cons.mp (List.pairwise_append.mp hpairs).2.1).1 c hc
      have h1 := a.2.n_bounds
      have h2 := c.2.n_bounds
      rw [Apart] at hac
      omega
    have hlast : a.1 ≠ m.tail := by
      have hmem : nodes.getLast hne ∈ b :: rest := by
        simp only [hnodes, List.getLast_append_of_ne_nil _ (List.cons_ne_nil _ _),
          List.getLast_cons (List.cons_ne_nil b rest)]
        exact List.getLast_mem _
      rw [h.tail_of_ne_nil hne]
      exact hapart _ hmem
    have hlinks := h.links
    rw [hnodes] at hlinks
    have hnext : read16 m.data.data a.1 = b.1 := (List.isChain_append_cons_cons.mp hlinks).2.1.1
    have hrest : m.walk fuel b.1 = some ((b :: rest).map m.readNode) := by
      have hnodes' : nodes = pre ++ [a] ++ b :: rest := by
        rw [hnodes, List.append_assoc, List.singleton_append]
      exact ih hnodes' (Nat.lt_of_succ_lt_succ hfuel)
    rw [h.walk_succ ha, if_neg hlast, hnext]
    simp only [Buffer.guard_of (hapart b List.mem_cons_self), Option.bind_eq_bind, Option.bind_some,
      hrest, List.map_cons]

theorem Linked.length_le (h : Linked m nodes) : nodes.length ≤ m.used := by
  have hnodup : (nodes.map Prod.fst).Nodup := by
    refine List.pairwise_map.mpr (h.apart.imp fun {a b} hab => ?_)
    have h1 := a.2.n_bounds
    have h2 := b.2.n_bounds
    rw [Apart] at hab
    omega
  have hsub : nodes.map Prod.fst ⊆ List.range m.used := by
    intro k hk
    obtain ⟨a, ha, rfl⟩ := List.mem_map.mp hk
    have hbelow := h.offset_lt ha
    exact List.mem_range.mpr (by omega)
  have hle := (hnodup.subperm hsub).length_le
  rwa [List.length_map, List.length_range] at hle

/-- The records of a block are those of its nodes. -/
theorem Linked.records_eq (h : Linked m nodes) : m.records = some (nodes.map m.readNode) := by
  have hlength := h.length_le.trans_lt h.used_lt
  rw [records, h.head]
  cases nodes with
  | nil => rfl
  | cons a rest => exact @Linked.walk_eq m _ h [] rest a rfl _ (Nat.lt_of_succ_lt hlength)

theorem Linked.used_ne_tail (h : Linked m nodes) (hused : m.used ≠ 0xffff) : m.used ≠ m.tail := by
  by_cases hne : nodes = []
  · rw [h.tail, hne]
    exact hused
  · have hlast := h.offset_lt (List.getLast_mem hne)
    rw [h.tail_of_ne_nil hne]
    omega

theorem Linked.used_ne_head (h : Linked m nodes) (hused : m.used ≠ 0xffff) : m.used ≠ m.head := by
  by_cases hne : nodes = []
  · rw [h.head, hne]
    exact hused
  · have hfirst := h.offset_lt (List.head_mem hne)
    rw [h.head_of_ne_nil hne]
    omega

theorem linked_construct (hpool : pool.Sound) (uid : ℕ) :
    Linked (construct pool uid).1 [] ∧ (construct pool uid).2.Sound ∧
      (construct pool uid).1.used = 0 ∧ (construct pool uid).1.packetUid = uid := by
  obtain ⟨hcount, hroom, hlt, hsound⟩ := @MetadataPool.Sound.create pool 10 hpool (by decide)
  refine ⟨⟨fun a ha => (List.not_mem_nil ha).elim, List.Pairwise.nil, List.IsChain.nil, rfl, rfl,
    Nat.zero_le _, hlt, hcount⟩, hsound, rfl, rfl⟩

/-- A record that fits behind the bytes in use is the last one then. -/
theorem Linked.append (h : Linked m nodes) (hpool : pool.Sound) {item : SmallItem}
    {extraItem : ExtraItem} (hfits : (MetadataRecord.big item extraItem).Fits)
    (hr : m.used + (MetadataRecord.big item extraItem).n < 2 ^ 16) :
    ∃ m' pool', appendRecord (m, pool) (item, extraItem) = some (m', pool') ∧
      Linked m' (nodes ++ [(m.used, MetadataRecord.big item extraItem)]) ∧
      m'.used = m.used + (MetadataRecord.big item extraItem).n ∧ m'.packetUid = m.packetUid ∧
      pool'.Sound := by
  have hn := (MetadataRecord.big item extraItem).n_bounds
  have hused : m.used ≠ 0xffff := by omega
  obtain ⟨m₁, pool', hadd, hwritten, hsound⟩ := h.addRecord hpool hr hused (h.used_ne_tail hused)
  obtain ⟨m', hupdate, hlinked, hused', huid⟩ := h.updateTail hwritten hfits
  refine ⟨m', pool', ?_, hlinked, hused', huid, hsound⟩
  rw [appendRecord, addBig]
  simp only [hadd, Option.bind_eq_bind, Option.bind_some, hupdate]

end Linked

/-! ## Overflow -/

section Overflow
variable {m m' : PacketMetadata} {pool pool' : MetadataPool} {r : MetadataRecord} {size n : ℕ}

/-- A block was once bigger than its size can tell, and so every block is from then on. -/
structure Overflown (pool : MetadataPool) : Prop where
  freeList : pool.freeList = []
  le_maxSize : 2 ^ 16 ≤ pool.maxSize
  maxSize_lt : pool.maxSize < 2 ^ 16 + 30

theorem create_overflown (h : pool.Sound ∧ 2 ^ 16 ≤ size ∨ Overflown pool)
    (hsize : size < 2 ^ 16 + 30) :
    (pool.create size).1.size < 30 ∧ Overflown (pool.create size).2 := by
  have hmax : 2 ^ 16 ≤ (if pool.maxSize < size then { pool with maxSize := size } else pool).maxSize ∧
      (if pool.maxSize < size then { pool with maxSize := size } else pool).maxSize < 2 ^ 16 + 30 := by
    cases h with
    | inl h =>
      have hlt := h.1.maxSize
      rw [if_pos (by omega)]
      exact ⟨h.2, hsize⟩
    | inr h =>
      have h1 := h.le_maxSize
      have h2 := h.maxSize_lt
      split_ifs
      · dsimp only
        omega
      · omega
  have hfree : MetadataPool.takeFree size
      (if pool.maxSize < size then { pool with maxSize := size } else pool).freeList =
        (none, []) := by
    have hsame : (if pool.maxSize < size then { pool with maxSize := size } else pool).freeList =
        pool.freeList := by
      split_ifs <;> rfl
    rw [hsame]
    cases h with
    | inl h =>
      cases MetadataPool.takeFree_cases size pool.freeList with
      | inl hfound =>
        obtain ⟨d, -, -, hd, hroom, -⟩ := hfound
        have hlt := h.1.freeList d hd
        omega
      | inr hnone => exact hnone.1
    | inr h => rw [h.freeList, MetadataPool.takeFree]
  rw [MetadataPool.create]
  generalize (if pool.maxSize < size then { pool with maxSize := size } else pool) = p at hmax hfree
  obtain ⟨hle, hlt⟩ := hmax
  simp only [hfree, MetadataPool.allocate]
  refine ⟨?_, rfl, hle, hlt⟩
  rw [if_neg (by omega)]
  omega

theorem recycle_overflown (h : Overflown pool) {d : MetadataData} (hd : d.size < 2 ^ 16) :
    Overflown (pool.recycle d) := by
  have hle := h.le_maxSize
  rw [MetadataPool.recycle]
  split_ifs with hoff hsmall
  · exact h
  · exact h
  · exact absurd (Or.inr (by omega)) hsmall

theorem reserveCopy_overflown (h : pool.Sound ∧ 2 ^ 16 ≤ m.used + size ∨ Overflown pool)
    (hsize : m.used + size < 2 ^ 16 + 30) (hd : m.data.size < 2 ^ 16)
    (hcopy : m.reserveCopy pool size = some (m', pool')) :
    m'.data.size < 30 ∧ Overflown pool' ∧ m'.packetUid = m.packetUid := by
  obtain ⟨hnew, hpool⟩ := create_overflown h hsize
  rw [reserveCopy] at hcopy
  generalize pool.create (m.used + size) = created at *
  obtain ⟨newData, pool₁⟩ := created
  dsimp only at hnew hpool hcopy
  have hpool' : Overflown (if m.data.count - 1 = 0 then
      pool₁.recycle { m.data with count := m.data.count - 1 } else pool₁) := by
    split_ifs
    · exact recycle_overflown hpool hd
    · exact hpool
  by_cases hhead : m.head ≠ 0xffff
  · rw [if_pos hhead] at hcopy
    obtain ⟨u, hguard, hsome⟩ := Option.bind_eq_some_iff.mp hcopy
    obtain ⟨rfl, rfl⟩ := Prod.mk.inj (Option.some.inj hsome)
    exact ⟨hnew, hpool', rfl⟩
  · rw [if_neg hhead] at hcopy
    obtain ⟨rfl, rfl⟩ := Prod.mk.inj (Option.some.inj hcopy)
    exact ⟨hnew, hpool', rfl⟩

theorem updateTail_eq_some (h : m.updateTail n = some m') :
    m'.data.size = m.data.size ∧ m'.used < 2 ^ 16 ∧ m'.packetUid = m.packetUid := by
  have hlt (k : ℕ) : k % 2 ^ 16 < 2 ^ 16 := Nat.mod_lt _ (Nat.two_pow_pos 16)
  rw [updateTail] at h
  split_ifs at h
  all_goals
    simp only [Option.bind_eq_bind, Option.bind_some, Option.bind_eq_some_iff,
      Option.some.injEq] at h
    obtain ⟨u, hguard, u', hguard', rfl⟩ := h
    exact ⟨rfl, hlt _, rfl⟩

/-- A record that does not fit, or one more behind it. -/
theorem appendRecord_overflown {record : SmallItem × ExtraItem}
    (h : pool.Sound ∧ 2 ^ 16 ≤ m.used + (MetadataRecord.big record.1 record.2).n ∨
      m.data.size < 30 ∧ Overflown pool)
    (hused : m.used < 2 ^ 16) (hd : m.data.size < 2 ^ 16)
    (happend : appendRecord (m, pool) record = some (m', pool')) :
    m'.data.size < 30 ∧ Overflown pool' ∧ m'.used < 2 ^ 16 ∧ m'.packetUid = m.packetUid := by
  have hn := (MetadataRecord.big record.1 record.2).n_bounds
  rw [appendRecord, addBig, addRecord] at happend
  generalize MetadataRecord.big record.1 record.2 = r at *
  split_ifs at happend with hcopy
  · simp only [Option.bind_eq_bind, Option.bind_eq_some_iff, Option.some.injEq, Prod.mk.injEq,
      Prod.exists] at happend
    obtain ⟨tmp, m₂, pool₂, ⟨u, hguard, m₁, pool₁, hreserve, rfl, rfl, rfl⟩, m₃, hupdate, rfl, rfl⟩ :=
      happend
    obtain ⟨hsize, hlt, huid⟩ := updateTail_eq_some hupdate
    obtain ⟨hsmall, hpool, huid'⟩ :=
      reserveCopy_overflown (h.imp_right And.right) (by omega) hd hreserve
    exact ⟨hsize ▸ hsmall, hpool, hlt, huid.trans huid'⟩
  · simp only [Option.bind_eq_bind, Option.bind_some, Option.bind_eq_some_iff, Option.some.injEq,
      Prod.mk.injEq, Prod.exists] at happend
    obtain ⟨tmp, m₂, pool₂, ⟨u, hguard, rfl, rfl, rfl⟩, m₃, hupdate, rfl, rfl⟩ := happend
    obtain ⟨hsize, hlt, huid⟩ := updateTail_eq_some hupdate
    obtain ⟨hfits, -⟩ := not_or.mp hcopy
    dsimp only at hfits
    cases h with
    | inl h => omega
    | inr h => exact ⟨hsize ▸ h.1, h.2, hlt, huid⟩

/-- The bytes that the records take. -/
def bigSizes (l : List (SmallItem × ExtraItem)) : ℕ :=
  (l.map fun record => (MetadataRecord.big record.1 record.2).n).sum

theorem bigSizes_cons (record : SmallItem × ExtraItem) (l : List (SmallItem × ExtraItem)) :
    bigSizes (record :: l) = (MetadataRecord.big record.1 record.2).n + bigSizes l := rfl

theorem bigSizes_le (l : List (SmallItem × ExtraItem)) : bigSizes l ≤ 30 * l.length := by
  induction l with
  | nil => exact le_rfl
  | cons record l ih =>
    have hn := (MetadataRecord.big record.1 record.2).n_bounds
    rw [bigSizes_cons, List.length_cons]
    omega

/-- Records that fit are in the block, one after the other. -/
theorem Linked.appendAll {nodes : List Node} (h : Linked m nodes) (hpool : pool.Sound)
    {l : List (SmallItem × ExtraItem)}
    (hfits : ∀ record ∈ l, (MetadataRecord.big record.1 record.2).Fits)
    (hsum : m.used + bigSizes l < 2 ^ 16) :
    ∃ m' pool' nodes', l.foldlM appendRecord (m, pool) = some (m', pool') ∧ Linked m' nodes' ∧
      nodes'.map Prod.snd = nodes.map Prod.snd ++ l.map (fun record =>
        MetadataRecord.big record.1 record.2) ∧
      m'.packetUid = m.packetUid := by
  induction l generalizing m pool nodes with
  | nil => exact ⟨m, pool, nodes, rfl, h, (List.append_nil _).symm, rfl⟩
  | cons record l ih =>
    rw [bigSizes_cons] at hsum
    obtain ⟨m₁, pool₁, happend, hlinked, hused, huid, hsound⟩ :=
      h.append hpool (hfits record List.mem_cons_self) (by omega)
    obtain ⟨m', pool', nodes', hrest, hlinked', hnodes', huid'⟩ :=
      ih hlinked hsound (fun r hr => hfits r (List.mem_cons_of_mem _ hr)) (by omega)
    refine ⟨m', pool', nodes', ?_, hlinked', ?_, huid'.trans huid⟩
    · rw [List.foldlM_cons, happend]
      exact hrest
    · rw [hnodes', List.map_append, List.append_assoc]
      rfl

theorem foldlM_overflown {l : List (SmallItem × ExtraItem)} (hd : m.data.size < 30)
    (hpool : Overflown pool) (hused : m.used < 2 ^ 16)
    (hall : l.foldlM appendRecord (m, pool) = some (m', pool')) :
    m'.data.size < 30 ∧ m'.packetUid = m.packetUid := by
  induction l generalizing m pool with
  | nil =>
    obtain ⟨rfl, rfl⟩ := Prod.mk.inj (Option.some.inj hall)
    exact ⟨hd, rfl⟩
  | cons record l ih =>
    rw [List.foldlM_cons] at hall
    obtain ⟨⟨m₁, pool₁⟩, happend, hrest⟩ := Option.bind_eq_some_iff.mp hall
    obtain ⟨hd₁, hpool₁, hused₁, huid₁⟩ :=
      appendRecord_overflown (.inr ⟨hd, hpool⟩) hused (by omega) happend
    obtain ⟨hd', huid'⟩ := ih hd₁ hpool₁ hused₁ hrest
    exact ⟨hd', huid'.trans huid₁⟩

/-- Records that do not fit leave a block that looks too small for any of them. -/
theorem Linked.appendAll_overflown {nodes : List Node} (h : Linked m nodes) (hpool : pool.Sound)
    {l : List (SmallItem × ExtraItem)}
    (hfits : ∀ record ∈ l, (MetadataRecord.big record.1 record.2).Fits)
    (hsum : 2 ^ 16 ≤ m.used + bigSizes l)
    (hall : l.foldlM appendRecord (m, pool) = some (m', pool')) :
    m'.data.size < 30 ∧ m'.packetUid = m.packetUid := by
  induction l generalizing m pool nodes with
  | nil =>
    have hused := h.used_lt
    have hzero : bigSizes [] = 0 := rfl
    omega
  | cons record l ih =>
    rw [List.foldlM_cons] at hall
    obtain ⟨⟨m₁, pool₁⟩, happend, hrest⟩ := Option.bind_eq_some_iff.mp hall
    by_cases hroom : m.used + (MetadataRecord.big record.1 record.2).n < 2 ^ 16
    · obtain ⟨m₂, pool₂, happend', hlinked, hused, huid, hsound⟩ :=
        h.append hpool (hfits record List.mem_cons_self) hroom
      obtain ⟨rfl, rfl⟩ := Prod.mk.inj (Option.some.inj (happend'.symm.trans happend))
      rw [bigSizes_cons] at hsum
      obtain ⟨hd', huid'⟩ := ih hlinked hsound
        (fun r hr => hfits r (List.mem_cons_of_mem _ hr)) (by omega) hrest
      exact ⟨hd', huid'.trans huid⟩
    · obtain ⟨hd₁, hpool₁, hused₁, huid₁⟩ := appendRecord_overflown
        (.inl ⟨hpool, Nat.not_lt.mp hroom⟩) h.used_lt h.size_lt happend
      obtain ⟨hd', huid'⟩ := foldlM_overflown hd₁ hpool₁ hused₁ hrest
      exact ⟨hd', huid'.trans huid₁⟩

/-! ### Walks in small blocks -/

theorem walk_mono {fuel fuel' current : ℕ} {l : List (SmallItem × ExtraItem)}
    (h : m.walk fuel current = some l) (hle : fuel ≤ fuel') : m.walk fuel' current = some l := by
  induction fuel generalizing fuel' current l with
  | zero => cases h
  | succ fuel ih =>
    obtain ⟨fuel', rfl⟩ := Nat.exists_eq_succ_of_ne_zero (Nat.ne_of_gt (Nat.zero_lt_of_lt hle))
    rw [walk] at h ⊢
    split_ifs at h ⊢
    · exact h
    · exact h
    · simp only [Option.bind_eq_bind, Option.bind_eq_some_iff, Prod.exists, Option.some.injEq] at h ⊢
      obtain ⟨k, item, extraItem, hread, u, hguard, rest, hrest, rfl⟩ := h
      exact ⟨k, item, extraItem, hread, u, hguard, rest,
        ih hrest (Nat.le_of_succ_le_succ hle), rfl⟩

/-- Every part of a walk starts at an offset inside of the block. -/
theorem walk_parts (huid : m.packetUid < 2 ^ 64) {fuel current : ℕ}
    {l : List (SmallItem × ExtraItem)} (h : m.walk fuel current = some l) {k : ℕ} (hpos : 0 < k)
    (hk : k ≤ l.length) :
    ∃ o < m.data.size, ∃ l', m.walk fuel o = some l' ∧ l'.length = k := by
  induction fuel generalizing current l with
  | zero => cases h
  | succ fuel ih =>
    have hwalk := h
    rw [walk] at h
    split_ifs at h with hnone htail
    · obtain rfl := Option.some.inj h
      rw [List.length_nil] at hk
      omega
    · simp only [Option.bind_eq_bind, Option.bind_eq_some_iff, Prod.exists, Option.some.injEq] at h
      obtain ⟨n, item, extraItem, hread, rfl⟩ := h
      obtain ⟨-, hroom, -⟩ := readItems_bounds huid hread
      rw [List.length_singleton] at hk
      exact ⟨current, by omega, _, hwalk, by rw [List.length_singleton]; omega⟩
    · simp only [Option.bind_eq_bind, Option.bind_eq_some_iff, Prod.exists, Option.some.injEq] at h
      obtain ⟨n, item, extraItem, hread, u, hguard, rest, hrest, rfl⟩ := h
      obtain ⟨-, hroom, -⟩ := readItems_bounds huid hread
      rw [List.length_cons] at hk
      by_cases hlast : k = rest.length + 1
      · exact ⟨current, by omega, _, hwalk, hlast.symm⟩
      · obtain ⟨o, ho, l', hl', hlength⟩ := ih hrest (by omega)
        exact ⟨o, ho, l', walk_mono hl' (Nat.le_succ fuel), hlength⟩

/-- A walk has no more records than its block has bytes. -/
theorem records_length_le (huid : m.packetUid < 2 ^ 64) {l : List (SmallItem × ExtraItem)}
    (h : m.records = some l) : l.length ≤ m.data.size := by
  have hparts (k : Fin l.length) := walk_parts huid h (Nat.succ_pos k) k.isLt
  choose o ho l' hl' hlength using hparts
  have hinj : Function.Injective fun k => (⟨o k, ho k⟩ : Fin m.data.size) := by
    intro j k hjk
    have hoff : o j = o k := Fin.mk.inj hjk
    have hsame : l' j = l' k := Option.some.inj ((hl' j).symm.trans (hoff ▸ hl' k))
    have heq := (hlength j).symm.trans (hsame ▸ hlength k)
    exact Fin.ext (Nat.succ.inj heq)
  have hcard := Fintype.card_le_of_injective _ hinj
  rwa [Fintype.card_fin, Fintype.card_fin] at hcard

end Overflow

end PacketMetadata

end Ns3Noc

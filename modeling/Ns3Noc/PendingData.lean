import Mathlib
import Ns3Noc.BufferOffsets
import Ns3Noc.ChunkedLists
import Ns3Noc.PartialRuns
import Ns3Noc.SequenceNumber

/-!
# PendingData

The data of a TCP connection that has not been acknowledged, as a list of packets. A packet is the
string of its bytes. It is a queue of bytes, over all runs of its operations.
-/
namespace Ns3Noc

abbrev PendingPacket : Type := List UInt8

structure PendingData where
  size : ℕ
  data : List PendingPacket
  deriving DecidableEq

namespace PendingData

/-- `CreateFragment`; `none` is the failed assertion. -/
def createFragment (p : PendingPacket) (start length : ℕ) : Option PendingPacket :=
  if start + length ≤ p.length then some ((p.drop start).take length) else none

def empty : PendingData := ⟨0, []⟩

section Operations
variable (q : PendingData)

def clear : PendingData := ⟨0, []⟩

/-- `Add (s, d)`: bytes at no address are read, bytes at an address are not. -/
def add (s : ℕ) (d : Option (List UInt8)) : Option PendingData :=
  match d with
  | none => if s = 0 then some ⟨uint32 (q.size + s), q.data ++ [[]]⟩ else none
  | some _ => some ⟨uint32 (q.size + s), q.data ++ [List.replicate s 0]⟩

/-- `Add (p)` -/
def addPacket (p : PendingPacket) : PendingData :=
  ⟨uint32 (q.size + p.length), q.data ++ [p]⟩

def sizeFromOffset (offset : ℕ) : ℕ :=
  if offset > q.size then 0 else uint32Sub q.size offset

def offsetFromSeq (seqFront seqOffset : SequenceNumber 32) : ℕ :=
  if seqOffset.less seqFront then 0 else (BitVec.ofInt 32 (seqOffset.sub seqFront)).toNat

/-- The variables of the loop over the packets in `CopyFromOffset`. -/
structure Copying where
  count : ℕ
  beginIndex : ℕ
  beginFound : Bool
  endIndex : ℕ
  outPacket : Option PendingPacket
  endFragment : Option PendingPacket

/-- The loop over the packets from index `i` on. It returns a packet, or it leaves its variables. -/
def copyLoop (s1 o : ℕ) : ℕ → List PendingPacket → Copying → Option (PendingPacket ⊕ Copying)
  | _, [], c => some (.inr c)
  | i, p :: rest, c =>
    let count := uint32 (c.count + p.length)
    let packetStart := uint32Sub count p.length
    if !c.beginFound then
      if count > o then
        if count ≥ uint32 (o + s1) then
          (createFragment p (uint32Sub o packetStart) s1).map .inl
        else
          (createFragment p (uint32Sub o packetStart) (uint32Sub count o)).bind fun outPacket =>
            copyLoop s1 o (i + 1) rest
              { c with
                count := count
                beginIndex := i
                beginFound := true
                outPacket := some outPacket }
      else copyLoop s1 o (i + 1) rest { c with count := count }
    else if count ≥ uint32 (o + s1) then
      (createFragment p 0 (uint32Sub (uint32 (o + s1)) packetStart)).map fun endFragment =>
        .inr { c with count := count, endIndex := i, endFragment := some endFragment }
    else copyLoop s1 o (i + 1) rest { c with count := count }

/-- The rest of `CopyFromOffset`: the packets between the first and the last one, and the part of the
last one, are added to the first part. -/
def joinPackets (s1 : ℕ) (c : Copying) : Option PendingPacket :=
  c.outPacket.bind fun outPacket =>
    let outPacket := ((q.data.take c.endIndex).drop (c.beginIndex + 1)).foldl (· ++ ·) outPacket
    let outPacket := match c.endFragment with
      | none => outPacket
      | some endFragment => outPacket ++ endFragment
    if outPacket.length = s1 then some outPacket else none

def copyFromOffset (s o : ℕ) : Option PendingPacket :=
  let s1 := min s (q.sizeFromOffset o)
  if s1 = 0 then some []
  else if q.data.length ≠ 0 then
    (copyLoop s1 o 0 q.data ⟨0, 0, false, 0, none, none⟩).bind fun
      | .inl outPacket => some outPacket
      | .inr c => q.joinPackets s1 c
  else some (List.replicate s1 0)

def copyFromSeq (s : ℕ) (f o : SequenceNumber 32) : Option PendingPacket :=
  q.copyFromOffset s (offsetFromSeq f o)

/-- The loop of `RemoveToSeq`: the packets that stay, and the number of bytes that go. -/
def removeLoop (count : ℕ) : ℕ → List PendingPacket → List PendingPacket × ℕ
  | current, [] => ([], current)
  | current, p :: rest =>
    if uint32 (current + p.length) > count then (p :: rest, current)
    else removeLoop count (uint32 (current + p.length)) rest

/-- The new data and the value that is returned; `none` is the failed assertion. -/
def removeToSeq (seqFront seqOffset : SequenceNumber 32) : Option (PendingData × ℕ) :=
  let count := offsetFromSeq seqFront seqOffset
  if count ≤ q.size then
    if count = q.size then
      let q := clear
      some (q, q.size)
    else
      let (data, current) := removeLoop count 0 q.data
      some (⟨uint32Sub q.size current, data⟩, current)
  else none

end Operations

section Copies
open ChunkedLists
variable {q : PendingData} {s1 o : ℕ} {pre rest : List PendingPacket}

theorem createFragment_of_le {p : PendingPacket} {start length : ℕ} (h : start + length ≤ p.length) :
    createFragment p start length = some ((p.drop start).take length) := if_pos h

theorem foldl_append_eq_flatten (l : List PendingPacket) (out : PendingPacket) :
    l.foldl (· ++ ·) out = out ++ l.flatten := by
  induction l generalizing out with
  | nil => exact (List.append_nil out).symm
  | cons p l ih => rw [List.foldl_cons, ih, List.flatten_cons, List.append_assoc]

/-- The loop after the packet in which the part begins. -/
theorem copyLoop_found (hdata : q.data = pre ++ rest) (hsize : q.data.flatten.length < 2 ^ 32)
    (hend : o + s1 ≤ q.data.flatten.length) {c : Copying} {out : PendingPacket}
    (hfound : c.beginFound = true) (hout : c.outPacket = some out)
    (hbegin : c.beginIndex + 1 ≤ pre.length) (hcount : c.count = pre.flatten.length)
    (ho : o ≤ pre.flatten.length) (hlt : pre.flatten.length < o + s1)
    (hsofar : out ++ (pre.drop (c.beginIndex + 1)).flatten = pre.flatten.drop o) :
    ∃ c', copyLoop s1 o pre.length rest c = some (.inr c') ∧
      q.joinPackets s1 c' = some ((q.data.flatten.drop o).take s1) := by
  induction rest generalizing pre c with
  | nil =>
    rw [hdata, List.append_nil] at hend
    omega
  | cons p rest ih =>
    have hlen : q.data.flatten.length = pre.flatten.length + p.length + rest.flatten.length := by
      rw [hdata, List.flatten_append, List.flatten_cons, List.length_append, List.length_append]
      omega
    have hnext : uint32 (c.count + p.length) = pre.flatten.length + p.length := by
      rw [hcount, uint32_of_lt (by omega)]
    have hstart : uint32Sub (pre.flatten.length + p.length) p.length = pre.flatten.length := by
      rw [uint32Sub_of_le (by omega) (by omega), Nat.add_sub_cancel]
    have hstop : uint32 (o + s1) = o + s1 := uint32_of_lt (by omega)
    simp only [copyLoop, hnext, hstart, hstop, hfound, Bool.not_true, Bool.false_eq_true, if_false]
    by_cases hge : pre.flatten.length + p.length ≥ o + s1
    · have hslice := slice_until rest ho hlt.le hge
      have htake : o + s1 - pre.flatten.length ≤ p.length := by omega
      rw [← hdata] at hslice
      rw [if_pos hge, uint32Sub_of_le (by omega) (by omega), createFragment_of_le (by omega),
        List.drop_zero]
      refine ⟨_, rfl, ?_⟩
      rw [joinPackets, hout, Option.bind_some, foldl_append_eq_flatten]
      dsimp only
      rw [hdata, List.take_left' rfl, hsofar, ← hdata, ← hslice, if_pos]
      rw [List.length_take, List.length_drop]
      omega
    · have hsplit : pre ++ p :: rest = (pre ++ [p]) ++ rest := by simp
      have hpre : (pre ++ [p]).flatten.length = pre.flatten.length + p.length := by
        rw [List.flatten_append, List.length_append, List.flatten_singleton]
      obtain ⟨c', hloop, hjoin⟩ := ih
        (c := { c with count := pre.flatten.length + p.length }) (hdata.trans hsplit) hfound hout
        (by rw [List.length_append]; exact hbegin.trans (Nat.le_add_right _ _)) hpre.symm
        (by omega) (by omega)
        (by
          rw [List.drop_append_of_le_length (by omega), List.flatten_append, ← List.append_assoc,
            hsofar, List.flatten_append, List.drop_append_of_le_length ho])
      refine ⟨c', ?_, hjoin⟩
      rw [if_neg hge, ← hloop, List.length_append, List.length_singleton, hfound]

/-- The loop up to the packet in which the part begins. -/
theorem copyLoop_search (hdata : q.data = pre ++ rest) (hsize : q.data.flatten.length < 2 ^ 32)
    (hend : o + s1 ≤ q.data.flatten.length) (hpos : 0 < s1) {c : Copying}
    (hfound : c.beginFound = false) (hcount : c.count = pre.flatten.length)
    (ho : pre.flatten.length ≤ o) :
    ((copyLoop s1 o pre.length rest c).bind fun
      | .inl outPacket => some outPacket
      | .inr c => q.joinPackets s1 c) = some ((q.data.flatten.drop o).take s1) := by
  induction rest generalizing pre c with
  | nil =>
    rw [hdata, List.append_nil] at hend
    omega
  | cons p rest ih =>
    have hlen : q.data.flatten.length = pre.flatten.length + p.length + rest.flatten.length := by
      rw [hdata, List.flatten_append, List.flatten_cons, List.length_append, List.length_append]
      omega
    have hnext : uint32 (c.count + p.length) = pre.flatten.length + p.length := by
      rw [hcount, uint32_of_lt (by omega)]
    have hstart : uint32Sub (pre.flatten.length + p.length) p.length = pre.flatten.length := by
      rw [uint32Sub_of_le (by omega) (by omega), Nat.add_sub_cancel]
    have hsplit : pre ++ p :: rest = (pre ++ [p]) ++ rest := by simp
    have hpre : (pre ++ [p]).flatten.length = pre.flatten.length + p.length := by
      rw [List.flatten_append, List.length_append, List.flatten_singleton]
    have hstop : uint32 (o + s1) = o + s1 := uint32_of_lt (by omega)
    simp only [copyLoop, hnext, hstart, hstop, hfound, Bool.not_false, if_true]
    by_cases hgt : pre.flatten.length + p.length > o
    · rw [if_pos hgt, uint32Sub_of_le ho (by omega)]
      by_cases hge : pre.flatten.length + p.length ≥ o + s1
      · have hslice := slice_within rest ho hge
        rw [← hdata] at hslice
        rw [if_pos hge, createFragment_of_le (by omega), hslice]
        rfl
      · have hout := drop_until (p := p) ho
        rw [if_neg hge, uint32Sub_of_le hgt.le (by omega), createFragment_of_le (by omega),
          List.take_of_length_le (by rw [List.length_drop]; omega), ← hout, Option.bind_some]
        obtain ⟨c', hloop, hjoin⟩ := copyLoop_found (o := o)
          (c := { c with
            count := pre.flatten.length + p.length
            beginIndex := pre.length
            beginFound := true
            outPacket := some ((pre ++ [p]).flatten.drop o) })
          (hdata.trans hsplit) hsize hend rfl rfl (by simp) hpre.symm (by omega) (by omega)
          (by simp)
        rw [List.length_append, List.length_singleton] at hloop
        rw [hloop, Option.bind_some]
        exact hjoin
    · rw [if_neg hgt]
      have hrest := ih (c := { c with count := pre.flatten.length + p.length })
        (hdata.trans hsplit) hfound hpre.symm (by omega)
      rw [List.length_append, List.length_singleton, hfound] at hrest
      exact hrest

/-- The size is that of the packets, and it fits in 32 bits. -/
structure Sized (q : PendingData) : Prop where
  size_eq : q.size = q.data.flatten.length
  size_lt : q.size < 2 ^ 32

theorem copyFromOffset_eq (hq : q.Sized) {n : ℕ} (ho : o ≤ q.size) :
    q.copyFromOffset n o = some ((q.data.flatten.drop o).take n) := by
  have hsize := hq.size_eq
  have hlt := hq.size_lt
  have havailable : q.sizeFromOffset o = q.size - o := by
    rw [sizeFromOffset, if_neg (Nat.not_lt.mpr ho), uint32Sub_of_le ho hlt]
  have htake : (q.data.flatten.drop o).take n = (q.data.flatten.drop o).take (min n (q.size - o)) := by
    rw [List.take_eq_take_min, List.length_drop, hsize]
  rw [copyFromOffset, havailable, htake]
  by_cases hzero : min n (q.size - o) = 0
  · rw [if_pos hzero, hzero, List.take_zero]
  · have hdata : q.data.length ≠ 0 := by
      intro hnil
      rw [List.eq_nil_of_length_eq_zero hnil] at hsize
      simp at hsize
      omega
    rw [if_neg hzero, if_pos hdata]
    exact copyLoop_search (List.nil_append q.data).symm (hsize ▸ hlt) (by omega) (by omega) rfl rfl
      (Nat.zero_le o)

end Copies

section Sequences
variable {q : PendingData}

/-- How far one sequence number is ahead of another one. -/
def distance (f o : SequenceNumber 32) : ℕ := (o.value - f.value).toNat

theorem offsetFromSeq_eq {f o : SequenceNumber 32} (h : distance f o < 2 ^ 31) :
    offsetFromSeq f o = distance f o := by
  have hadd : o = f.add (distance f o) := by
    have hvalue : o.value = f.value + BitVec.ofInt 32 (distance f o) := by
      rw [distance, BitVec.ofInt_natCast, BitVec.ofNat_toNat, BitVec.setWidth_eq, add_sub_cancel]
    rw [SequenceNumber.add, ← hvalue]
  rcases Nat.eq_zero_or_pos (distance f o) with hzero | hpos
  · have heq : o.value = f.value := by
      have := BitVec.toNat_inj.mp (hzero.trans BitVec.toNat_zero.symm)
      exact sub_eq_zero.mp this
    have hless : o.less f = false := by
      simp [SequenceNumber.less, heq]
    rw [offsetFromSeq, hless, if_neg Bool.false_ne_true, hzero, SequenceNumber.sub_eq, heq, sub_self]
    rfl
  · have hahead := SequenceNumber.greater_add f hpos (by
      rw [SequenceNumber.halfMaxValue_succ 31]
      omega)
    rw [← hadd] at hahead
    have hless : o.less f = false := by
      simp [SequenceNumber.less, hahead.1]
    rw [offsetFromSeq, hless, if_neg Bool.false_ne_true, hahead.2, BitVec.ofInt_natCast,
      BitVec.toNat_ofNat, Nat.mod_eq_of_lt (by omega)]

/-- The packets that go are whole packets from the front, as many as the count covers. -/
theorem removeLoop_spec {count current : ℕ} {packets : List PendingPacket} (hle : current ≤ count)
    (hlt : current + packets.flatten.length < 2 ^ 32) :
    ∃ gone, packets = gone ++ (removeLoop count current packets).1 ∧
      (removeLoop count current packets).2 = current + gone.flatten.length ∧
      (removeLoop count current packets).2 ≤ count := by
  induction packets generalizing current with
  | nil => exact ⟨[], rfl, rfl, hle⟩
  | cons p rest ih =>
    rw [List.flatten_cons, List.length_append] at hlt
    rw [removeLoop, uint32_of_lt (by omega)]
    split_ifs with h
    · exact ⟨[], rfl, rfl, hle⟩
    · obtain ⟨gone, hgone, hcurrent, hcount⟩ := ih (Nat.not_lt.mp h) (by omega)
      refine ⟨p :: gone, congrArg (p :: ·) hgone, ?_, hcount⟩
      rw [hcurrent, List.flatten_cons, List.length_append, Nat.add_assoc]

/-- What `RemoveToSeq` does when it does not remove all of the data. -/
theorem removeToSeq_spec (hq : q.Sized) {f a : SequenceNumber 32} (hnear : distance f a < 2 ^ 31)
    (hle : distance f a ≤ q.size) (hne : distance f a ≠ q.size ∨ q.size = 0) :
    ∃ q' n gone, q.removeToSeq f a = some (q', n) ∧ q.data = gone ++ q'.data ∧
      n = gone.flatten.length ∧ n ≤ distance f a ∧ q'.Sized := by
  have hsize := hq.size_eq
  have hlt := hq.size_lt
  rw [removeToSeq, offsetFromSeq_eq hnear, if_pos hle]
  by_cases hall : distance f a = q.size
  · have hzero : q.size = 0 := hne.resolve_left (not_not_intro hall)
    rw [if_pos hall]
    refine ⟨clear, 0, q.data, rfl, (List.append_nil _).symm, ?_, Nat.zero_le _, rfl, by norm_num [clear]⟩
    rw [← hsize, hzero]
  · rw [if_neg hall]
    have hfit : 0 + q.data.flatten.length < 2 ^ 32 := by
      omega
    obtain ⟨gone, hgone, hcurrent, hcount⟩ := removeLoop_spec (Nat.zero_le (distance f a)) hfit
    rw [Nat.zero_add] at hcurrent
    have hlen : q.data.flatten.length =
        gone.flatten.length + (removeLoop (distance f a) 0 q.data).1.flatten.length := by
      conv_lhs => rw [hgone]
      rw [List.flatten_append, List.length_append]
    refine ⟨_, _, gone, rfl, hgone, hcurrent, hcount, ?_, ?_⟩
    · rw [uint32Sub_of_le (by omega) hlt]
      dsimp only
      omega
    · rw [uint32Sub_of_le (by omega) hlt]
      dsimp only
      omega

end Sequences

end PendingData
end Ns3Noc

namespace Ns3Noc.PendingData
open PartialRuns

/-- The calls: bytes at an address, a packet, a copy and a removal. -/
inductive Call
  | addBytes (d : List UInt8)
  | addPacket (p : PendingPacket)
  | copyFromSeq (s : ℕ) (f o : SequenceNumber 32)
  | removeToSeq (seqFront seqOffset : SequenceNumber 32)
  deriving DecidableEq

/-- The pending data, next to what has been added and not removed. -/
structure Queue where
  q : PendingData
  content : List PendingPacket
  deriving DecidableEq

namespace Queue

def start : Queue := ⟨empty, []⟩

def step (s : Queue) : Call → Option Queue
  | .addBytes d => (s.q.add d.length (some d)).map fun q => ⟨q, s.content ++ [d]⟩
  | .addPacket p => some ⟨s.q.addPacket p, s.content ++ [p]⟩
  | .copyFromSeq n f o => (s.q.copyFromSeq n f o).map fun _ => s
  | .removeToSeq f a => (s.q.removeToSeq f a).map fun (q, _) =>
      ⟨q, s.content.drop (s.q.data.length - q.data.length)⟩

/-- The sizes have 32 bits, and the sequence numbers lie within the data. -/
def Within (s : Queue) : Call → Prop
  | .addBytes d => d.length < 2 ^ 32
  | .addPacket p => p.length < 2 ^ 32
  | .copyFromSeq n f o => n < 2 ^ 32 ∧ distance f o ≤ s.content.flatten.length
  | .removeToSeq f a => distance f a ≤ s.content.flatten.length

/-- The calls that do what they should: only zeros are added as bytes at an address, the data stay
within 32 bits and the sequence numbers within half of their range, and no removal takes all of the
data, unless there are none. -/
def Sound (s : Queue) : Call → Prop
  | .addBytes d => d = List.replicate d.length 0 ∧ s.content.flatten.length + d.length < 2 ^ 32
  | .addPacket p => s.content.flatten.length + p.length < 2 ^ 32
  | .copyFromSeq _ f o => distance f o < 2 ^ 31
  | .removeToSeq f a => distance f a < 2 ^ 31 ∧
      (distance f a ≠ s.content.flatten.length ∨ s.content.flatten.length = 0)

/-- What a call answers and leaves as the new content. -/
def Answers (s : Queue) : Call → Prop
  | .addBytes d => ∃ q, s.q.add d.length (some d) = some q ∧ q.data = s.content ++ [d]
  | .addPacket p => (s.q.addPacket p).data = s.content ++ [p]
  | .copyFromSeq n f o => s.q.copyFromSeq n f o =
      some ((s.content.flatten.drop (distance f o)).take (min n (s.content.flatten.length - distance f o)))
  | .removeToSeq f a => ∃ q n gone, s.q.removeToSeq f a = some (q, n) ∧ s.content = gone ++ q.data ∧
      n = gone.flatten.length ∧ n ≤ distance f a

/-- The stored packets are those that have been added and not removed. -/
structure Holds (s : Queue) : Prop where
  sized : s.q.Sized
  data_eq : s.q.data = s.content

variable {s : Queue}

theorem Holds.size_eq (h : s.Holds) : s.q.size = s.content.flatten.length := by
  rw [h.sized.size_eq, h.data_eq]

theorem start_holds : start.Holds :=
  ⟨⟨rfl, by norm_num [start, empty]⟩, rfl⟩

theorem Holds.answers (h : s.Holds) {call : Call} (hwithin : s.Within call) (hsound : s.Sound call) :
    s.Answers call := by
  have hsize := h.size_eq
  cases call with
  | addBytes d =>
    refine ⟨_, rfl, ?_⟩
    dsimp only
    rw [← hsound.1, h.data_eq]
  | addPacket p => exact congrArg (· ++ [p]) h.data_eq
  | copyFromSeq n f o =>
    have hcopy := copyFromOffset_eq (n := n) h.sized (hwithin.2.trans_eq hsize.symm)
    rw [Answers, copyFromSeq, offsetFromSeq_eq hsound, hcopy, h.data_eq, List.take_eq_take_min,
      List.length_drop]
  | removeToSeq f a =>
    obtain ⟨q, n, gone, hremove, hdata, hn, hle, -⟩ :=
      removeToSeq_spec h.sized hsound.1 (hwithin.trans_eq hsize.symm) (hsize ▸ hsound.2)
    exact ⟨q, n, gone, hremove, h.data_eq ▸ hdata, hn, hle⟩

theorem Sized.append {q : PendingData} (hq : q.Sized) {p : PendingPacket}
    (hlt : q.size + p.length < 2 ^ 32) : Sized ⟨uint32 (q.size + p.length), q.data ++ [p]⟩ := by
  refine ⟨?_, ?_⟩
  · rw [uint32_of_lt hlt, hq.size_eq, List.flatten_append, List.flatten_singleton, List.length_append]
  · rw [uint32_of_lt hlt]
    exact hlt

/-- A call that does what it should succeeds, and the data stay those that have been added and not
removed. -/
theorem Holds.step (h : s.Holds) {call : Call} (hwithin : s.Within call) (hsound : s.Sound call) :
    ∃ s', step s call = some s' ∧ s'.Holds := by
  have hsize := h.size_eq
  cases call with
  | addBytes d =>
    have hsized := Sized.append h.sized (p := d) (by rw [hsize]; exact hsound.2)
    refine ⟨_, rfl, ?_, ?_⟩
    · rw [hsound.1] at hsized ⊢
      rw [List.length_replicate] at hsized ⊢
      exact hsized
    · dsimp only
      rw [← hsound.1, h.data_eq]
  | addPacket p =>
    exact ⟨_, rfl, Sized.append h.sized (by rw [hsize]; exact hsound), congrArg (· ++ [p]) h.data_eq⟩
  | copyFromSeq n f o =>
    have hcopy := copyFromOffset_eq (n := n) h.sized (hwithin.2.trans_eq hsize.symm)
    refine ⟨s, ?_, h⟩
    rw [Queue.step, copyFromSeq, offsetFromSeq_eq hsound, hcopy, Option.map_some]
  | removeToSeq f a =>
    obtain ⟨q, n, gone, hremove, hdata, -, -, hsized⟩ :=
      removeToSeq_spec h.sized hsound.1 (hwithin.trans_eq hsize.symm) (hsize ▸ hsound.2)
    refine ⟨_, by rw [Queue.step, hremove, Option.map_some], hsized, ?_⟩
    have hlen : s.q.data.length - q.data.length = gone.length := by
      rw [hdata, List.length_append, Nat.add_sub_cancel]
    dsimp only
    rw [← h.data_eq, hlen, hdata, List.drop_left]

instance (s : Queue) (call : Call) : Decidable (s.Within call) :=
  match call with
  | .addBytes _ => inferInstanceAs (Decidable (_ < _))
  | .addPacket _ => inferInstanceAs (Decidable (_ < _))
  | .copyFromSeq _ _ _ => inferInstanceAs (Decidable (_ ∧ _))
  | .removeToSeq _ _ => inferInstanceAs (Decidable (_ ≤ _))

instance (s : Queue) (call : Call) : Decidable (s.Sound call) :=
  match call with
  | .addBytes _ => inferInstanceAs (Decidable (_ ∧ _))
  | .addPacket _ => inferInstanceAs (Decidable (_ < _))
  | .copyFromSeq _ _ _ => inferInstanceAs (Decidable (_ < _))
  | .removeToSeq _ _ => inferInstanceAs (Decidable (_ ∧ _))

def exampleCalls : List Call :=
  [.addPacket [1, 2, 3], .addBytes [0, 0], .addPacket [4], .copyFromSeq 4 ⟨7⟩ ⟨8⟩, .removeToSeq ⟨7⟩ ⟨11⟩]

example : (add empty 1 (some [1])).bind (fun q => q.copyFromSeq 1 ⟨0⟩ ⟨0⟩) = some [0] := by
  decide +kernel

example : ((empty.addPacket [1, 2]).removeToSeq ⟨0⟩ ⟨2⟩) = some (empty, 0) := by
  decide +kernel

end Queue

end Ns3Noc.PendingData

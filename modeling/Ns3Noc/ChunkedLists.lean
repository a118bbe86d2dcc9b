import Mathlib

/-!
# ChunkedLists

Parts of a list that is kept in chunks, and lists that are cut into packets: a packet opens with a
head, goes on with data and closes with a tail, and a packet of a single element is a head alone.
-/
namespace Ns3Noc.ChunkedLists

variable {α : Type*} {pre : List (List α)} (rest : List (List α)) {p : List α} {o n : ℕ}

/-- A part that begins and ends within one chunk. -/
theorem slice_within (ho : pre.flatten.length ≤ o) (hn : o + n ≤ pre.flatten.length + p.length) :
    ((pre ++ p :: rest).flatten.drop o).take n = (p.drop (o - pre.flatten.length)).take n := by
  rw [List.flatten_append, List.flatten_cons, List.drop_append, List.drop_eq_nil_of_le ho,
    List.nil_append, List.drop_append_of_le_length (by omega), List.take_append_of_le_length]
  rw [List.length_drop]
  omega

/-- A part that ends within a chunk and begins before it. -/
theorem slice_until (ho : o ≤ pre.flatten.length) (hlow : pre.flatten.length ≤ o + n)
    (hn : o + n ≤ pre.flatten.length + p.length) :
    ((pre ++ p :: rest).flatten.drop o).take n =
      pre.flatten.drop o ++ p.take (o + n - pre.flatten.length) := by
  have hlen : (pre.flatten.drop o).length = pre.flatten.length - o := List.length_drop
  have hcount : n - (pre.flatten.length - o) = o + n - pre.flatten.length := by
    omega
  rw [List.flatten_append, List.flatten_cons, List.drop_append_of_le_length ho, List.take_append,
    List.take_of_length_le (by omega), hlen, hcount, List.take_append_of_le_length (by omega)]

/-- What is left of the chunks up to the one in which a part begins. -/
theorem drop_until (ho : pre.flatten.length ≤ o) :
    (pre ++ [p]).flatten.drop o = p.drop (o - pre.flatten.length) := by
  rw [List.flatten_append, List.drop_append, List.drop_eq_nil_of_le ho, List.nil_append,
    List.flatten_singleton]

end Ns3Noc.ChunkedLists

namespace Ns3Noc.Packets

variable {α : Type*} (head data tail : α)

/-- The first `n` elements of a packet that is not closed yet. -/
def opened : ℕ → List α
  | 0 => []
  | n + 1 => head :: List.replicate n data

/-- A packet of `n` elements. -/
def packet : ℕ → List α
  | 0 => []
  | 1 => [head]
  | n + 2 => head :: List.replicate n data ++ [tail]

/-- `k` packets of the same size. -/
def packets (k n : ℕ) : List α := (List.replicate k (packet head data tail n)).flatten

variable {head data tail}

theorem packets_succ (k n : ℕ) : packets head data tail (k + 1) n =
    packets head data tail k n ++ packet head data tail n := by
  simp [packets, List.replicate_succ']

theorem opened_append_data {n : ℕ} (hn : 0 < n) :
    opened head data n ++ [data] = opened head data (n + 1) := by
  cases n with
  | zero => exact absurd hn (Nat.lt_irrefl 0)
  | succ n => simp [opened, List.replicate_succ']

theorem opened_append_tail {n : ℕ} (hn : 0 < n) :
    opened head data n ++ [tail] = packet head data tail (n + 1) := by
  cases n with
  | zero => exact absurd hn (Nat.lt_irrefl 0)
  | succ n => rfl

theorem opened_eq_nil {n : ℕ} (h : opened head data n = []) : n = 0 := by
  cases n with
  | zero => rfl
  | succ n => cases h

@[simp] theorem length_opened (n : ℕ) : (opened head data n).length = n := by
  cases n with
  | zero => rfl
  | succ n => simp [opened]

@[simp] theorem length_packet (n : ℕ) : (packet head data tail n).length = n := by
  match n with
  | 0 => rfl
  | 1 => rfl
  | n + 2 => simp [packet]

@[simp] theorem length_packets (k n : ℕ) : (packets head data tail k n).length = k * n := by
  simp [packets]

end Ns3Noc.Packets

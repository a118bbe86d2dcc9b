import Mathlib

/-!
# Numbers as bytes

Numbers in a fixed number of bytes, the highest byte first, and lists that are read item by item.
-/
namespace Ns3Noc.BigEndian

/-- The number modulo `256 ^ n` in `n` bytes. -/
def toBytes : ℕ → ℕ → List UInt8
  | 0, _ => []
  | n + 1, v => UInt8.ofNat (v / 256 ^ n) :: toBytes n v

def ofBytesFrom (v : ℕ) (bytes : List UInt8) : ℕ := bytes.foldl (fun v b => v * 256 + b.toNat) v

def ofBytes (bytes : List UInt8) : ℕ := ofBytesFrom 0 bytes

@[simp] theorem length_toBytes (n v : ℕ) : (toBytes n v).length = n := by
  induction n with
  | zero => rfl
  | succ n ih => simp [toBytes, ih]

theorem ofBytesFrom_toBytes (n v w : ℕ) :
    ofBytesFrom w (toBytes n v) = w * 256 ^ n + v % 256 ^ n := by
  induction n generalizing w with
  | zero => simp [toBytes, ofBytesFrom, Nat.mod_one]
  | succ n ih =>
    have hbyte : (UInt8.ofNat (v / 256 ^ n)).toNat = v / 256 ^ n % 256 := by
      rw [UInt8.toNat_ofNat']
    have hmod : v % 256 ^ (n + 1) = v / 256 ^ n % 256 * 256 ^ n + v % 256 ^ n := by
      rw [pow_succ, Nat.mod_mul, Nat.mul_comm (256 ^ n), Nat.add_comm]
    have hstep := ih (w * 256 + v / 256 ^ n % 256)
    rw [toBytes, ofBytesFrom, List.foldl_cons, hbyte, ← ofBytesFrom, hstep, hmod, pow_succ]
    ring

/-- What is written in enough bytes is read back. -/
theorem ofBytes_toBytes {n v : ℕ} (h : v < 256 ^ n) : ofBytes (toBytes n v) = v := by
  rw [ofBytes, ofBytesFrom_toBytes, Nat.zero_mul, Nat.zero_add, Nat.mod_eq_of_lt h]

/-- A number of this many bytes, and what follows it. -/
def readNumber (n : ℕ) (bytes : List UInt8) : Option (ℕ × List UInt8) :=
  if n ≤ bytes.length then some (ofBytes (bytes.take n), bytes.drop n) else none

theorem readNumber_toBytes {n v : ℕ} (h : v < 256 ^ n) (rest : List UInt8) :
    readNumber n (toBytes n v ++ rest) = some (v, rest) := by
  have hlen : n ≤ (toBytes n v ++ rest).length := by simp
  rw [readNumber, if_pos hlen, List.take_left' (length_toBytes n v),
    List.drop_left' (length_toBytes n v), ofBytes_toBytes h]

/-- This many items, one after the other, and what follows them. -/
def readItems {α : Type*} (read : List UInt8 → Option (α × List UInt8)) :
    ℕ → List UInt8 → Option (List α × List UInt8)
  | 0, bytes => some ([], bytes)
  | n + 1, bytes =>
    (read bytes).bind fun r => (readItems read n r.2).map fun rs => (r.1 :: rs.1, rs.2)

/-- Items that are read back one by one are read back together. -/
theorem readItems_flatMap {α : Type*} {read : List UInt8 → Option (α × List UInt8)}
    {write : α → List UInt8} (items : List α)
    (h : ∀ item ∈ items, ∀ rest, read (write item ++ rest) = some (item, rest))
    (rest : List UInt8) :
    readItems read items.length (items.flatMap write ++ rest) = some (items, rest) := by
  induction items with
  | nil => rfl
  | cons item items ih =>
    have hitem := h item List.mem_cons_self (items.flatMap write ++ rest)
    have hitems := ih fun item hmem => h item (List.mem_cons_of_mem _ hmem)
    rw [List.length_cons, readItems, List.flatMap_cons, List.append_assoc, hitem, Option.bind_some,
      hitems]
    rfl

end Ns3Noc.BigEndian

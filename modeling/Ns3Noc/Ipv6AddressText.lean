import Ns3Noc.BitFields
import Mathlib

/-!
# The text of IPv6 addresses

`AsciiToIpv6Host` goes over the characters once. It writes the groups from the left, remembers where
the double colon was, and shifts what came after it to the end.
-/
namespace Ns3Noc.Ipv6Text

/-- How the conversion stops: `return 0`, or a byte outside the work area. -/
inductive Stop
  | badFormat
  | outside
  deriving DecidableEq, Repr

/-- The local variables. `tp` and `colonp` are offsets into `tmp`. -/
structure Work where
  tmp : List UInt8
  tp : ℕ
  colonp : Option ℕ
  seenXdigits : ℕ
  val : ℕ
  deriving DecidableEq, Repr

def xdigitsL : List Char := "0123456789abcdef".toList

def xdigitsU : List Char := "0123456789ABCDEF".toList

/-- `pch - xdigits` -/
def xdigit (ch : Char) : Option ℕ := (xdigitsL.idxOf? ch).or (xdigitsU.idxOf? ch)

def write (tmp : List UInt8) (i : ℕ) (byte : UInt8) : Except Stop (List UInt8) :=
  if i < 16 then .ok (tmp.set i byte) else .error .outside

namespace Work

def start : Work := ⟨List.replicate 16 0, 0, none, 0, 0⟩

/-- The two bytes of the current group. -/
def store (w : Work) : Except Stop Work := do
  let tmp ← write w.tmp w.tp (UInt8.ofNat (w.val >>> 8))
  let tmp ← write tmp (w.tp + 1) (UInt8.ofNat w.val)
  pure { w with tmp := tmp, tp := w.tp + 2 }

/-- One turn of the loop over the characters. -/
def turn (w : Work) (ch : Char) : Except Stop Work :=
  match xdigit ch with
  | some digit =>
    if w.seenXdigits + 1 > 4 then .error .badFormat
    else
      .ok { w with
        val := (w.val <<< 4) % 2 ^ 32 ||| digit
        seenXdigits := w.seenXdigits + 1 }
  | none =>
    if ch = ':' then
      if w.seenXdigits = 0 then
        if w.colonp.isSome then .error .badFormat else .ok { w with colonp := some w.tp }
      else if w.tp + 2 > 16 then .error .badFormat
      else do
        let w ← w.store
        pure { w with seenXdigits := 0, val := 0 }
    else .error .badFormat

/-- A turn of the shift by hand. -/
def shiftTurn (colonp n : ℕ) (tmp : List UInt8) (i : ℕ) : Except Stop (List UInt8) := do
  let tmp ← write tmp (16 - i) (tmp.getD (colonp + n - i) 0)
  write tmp (colonp + n - i) 0

/-- After the loop. -/
def finish (w : Work) : Except Stop (List UInt8) := do
  let w ←
    if w.seenXdigits ≠ 0 then
      if w.tp + 2 > 16 then .error .badFormat else w.store
    else pure w
  match w.colonp with
  | some colonp =>
    if w.tp = 16 then .error .badFormat
    else (List.range' 1 (w.tp - colonp)).foldlM (shiftTurn colonp (w.tp - colonp)) w.tmp
  | none => if w.tp ≠ 16 then .error .badFormat else .ok w.tmp

end Work

def asciiToIpv6Host (address : List Char) : Except Stop (List UInt8) := do
  let address ←
    match address with
    | ':' :: rest => if rest.head? = some ':' then pure rest else .error .badFormat
    | _ => pure address
  let w ← address.foldlM Work.turn Work.start
  w.finish

structure Ipv6Address where
  address : List UInt8
  length_eq : address.length = 16

/-- `memcpy` of 16 bytes -/
def Ipv6Address.memcpy (addr : Ipv6Address) (tmp : List UInt8) : Ipv6Address :=
  ⟨tmp.take 16 ++ addr.address.drop tmp.length, by simp [addr.length_eq]; omega⟩

def Ipv6Address.set (addr : Ipv6Address) (address : List Char) : Ipv6Address :=
  match asciiToIpv6Host address with
  | .ok tmp => addr.memcpy tmp
  | .error _ => addr

/-- A byte as `std::hex`, `std::setw (2)` and `std::setfill ('0')` write it. -/
def hexByte (byte : UInt8) : List Char :=
  let digits := Nat.toDigits 16 byte.toNat
  List.replicate (2 - digits.length) '0' ++ digits

def Ipv6Address.print (addr : Ipv6Address) : List Char :=
  (List.range 16).flatMap fun i =>
    hexByte (addr.address.getD i 0) ++ if i % 2 = 1 ∧ i < 15 then [':'] else []

/-! ## The texts -/

def hexValue (ch : Char) : ℕ :=
  if ch.isDigit then ch.toNat - '0'.toNat
  else if ch.isLower then ch.toNat - 'a'.toNat + 10
  else ch.toNat - 'A'.toNat + 10

def IsHex (ch : Char) : Prop :=
  ch.isDigit = true ∨ 'a' ≤ ch ∧ ch ≤ 'f' ∨ 'A' ≤ ch ∧ ch ≤ 'F'

structure IsGroup (g : List Char) : Prop where
  ne_nil : g ≠ []
  length_le : g.length ≤ 4
  hex : ∀ ch ∈ g, IsHex ch

def groupValue (g : List Char) : ℕ := g.foldl (fun value ch => 16 * value + hexValue ch) 0

def groupBytes (g : List Char) : List UInt8 :=
  [UInt8.ofNat (groupValue g / 256), UInt8.ofNat (groupValue g)]

/-- Groups joined by single colons. -/
def joined (gs : List (List Char)) : List Char := [':'].intercalate gs

/-- The text is an address with these bytes. -/
inductive Denotes : List Char → List UInt8 → Prop
  | full (gs : List (List Char)) (hgs : ∀ g ∈ gs, IsGroup g) (hlength : gs.length = 8) :
    Denotes (joined gs) (gs.flatMap groupBytes)
  | short (l r : List (List Char)) (hl : ∀ g ∈ l, IsGroup g) (hr : ∀ g ∈ r, IsGroup g)
    (hlength : l.length + r.length ≤ 7) :
    Denotes (joined l ++ [':', ':'] ++ joined r)
      (l.flatMap groupBytes ++ List.replicate (2 * (8 - l.length - r.length)) 0 ++
        r.flatMap groupBytes)

/-! ## Digits -/

instance (ch : Char) : Decidable (IsHex ch) := inferInstanceAs (Decidable (_ ∨ _))

theorem toNat_lt_of_isHex {ch : Char} (h : IsHex ch) : ch.toNat < 128 := by
  rcases h with h | h | h
  · simp only [Char.isDigit, Bool.and_eq_true, decide_eq_true_eq] at h
    exact (UInt32.le_iff_toNat_le.mp h.2).trans_lt (by decide)
  · exact (UInt32.le_iff_toNat_le.mp h.2).trans_lt (by decide)
  · exact (UInt32.le_iff_toNat_le.mp h.2).trans_lt (by decide)

theorem xdigit_eq (ch : Char) : xdigit ch = if IsHex ch then some (hexValue ch) else none := by
  have hsmall : ∀ n < 128, xdigit (Char.ofNat n) =
      if IsHex (Char.ofNat n) then some (hexValue (Char.ofNat n)) else none := by
    decide +kernel
  by_cases hlt : ch.toNat < 128
  · have h := hsmall ch.toNat hlt
    rwa [Char.ofNat_toNat] at h
  · have hL : xdigitsL.all (·.toNat < 128) = true := by decide +kernel
    have hU : xdigitsU.all (·.toNat < 128) = true := by decide +kernel
    have hnotL : ch ∉ xdigitsL := fun h => hlt (by simpa using List.all_eq_true.mp hL ch h)
    have hnotU : ch ∉ xdigitsU := fun h => hlt (by simpa using List.all_eq_true.mp hU ch h)
    rw [if_neg fun h => hlt (toNat_lt_of_isHex h), xdigit, List.idxOf?_eq_none_iff.mpr hnotL,
      List.idxOf?_eq_none_iff.mpr hnotU, Option.or_none]

theorem hexValue_lt {ch : Char} (h : IsHex ch) : hexValue ch < 16 := by
  have hsmall : ∀ n < 128, IsHex (Char.ofNat n) → hexValue (Char.ofNat n) < 16 := by decide +kernel
  have hch := hsmall ch.toNat (toNat_lt_of_isHex h)
  rw [Char.ofNat_toNat] at hch
  exact hch h

theorem not_isHex_colon : ¬IsHex ':' := by decide +kernel

theorem groupValue_append (g : List Char) (ch : Char) :
    groupValue (g ++ [ch]) = 16 * groupValue g + hexValue ch := by
  simp [groupValue]

theorem groupValue_lt {g : List Char} (h : ∀ ch ∈ g, IsHex ch) :
    groupValue g < 16 ^ g.length := by
  induction g using List.reverseRecOn with
  | nil => decide
  | append_singleton g ch ih =>
    have hg := ih fun c hc => h c (List.mem_append_left _ hc)
    have hch := hexValue_lt (h ch (by simp))
    rw [groupValue_append, List.length_append, List.length_singleton, pow_succ]
    omega

/-! ## The work area -/

/-- The work area after some groups, with the digits of the current one. -/
def Work.after (done : List UInt8) (colonp : Option ℕ) (cur : List Char) : Work :=
  ⟨done ++ List.replicate (16 - done.length) 0, done.length, colonp, cur.length, groupValue cur⟩

section Turn
variable {done : List UInt8} {colonp : Option ℕ} {cur : List Char} {ch : Char}

@[simp] theorem after_tmp :
    (Work.after done colonp cur).tmp = done ++ List.replicate (16 - done.length) 0 := rfl

@[simp] theorem after_tp : (Work.after done colonp cur).tp = done.length := rfl

@[simp] theorem after_colonp : (Work.after done colonp cur).colonp = colonp := rfl

@[simp] theorem after_seenXdigits : (Work.after done colonp cur).seenXdigits = cur.length := rfl

@[simp] theorem after_val : (Work.after done colonp cur).val = groupValue cur := rfl

theorem turn_hex (hch : IsHex ch) (hcur : ∀ c ∈ cur, IsHex c) (hlength : cur.length ≤ 4) :
    (Work.after done colonp cur).turn ch =
      if cur.length = 4 then .error .badFormat else .ok (Work.after done colonp (cur ++ [ch])) := by
  have hvalue := groupValue_lt hcur
  have hpow : 16 ^ cur.length ≤ 16 ^ 4 := Nat.pow_le_pow_right (by decide) hlength
  have hdigit := hexValue_lt hch
  have hval : (groupValue cur <<< 4) % 2 ^ 32 ||| hexValue ch = groupValue (cur ++ [ch]) := by
    rw [groupValue_append, BitFields.or_shiftLeft_mod hdigit (by decide),
      Nat.mod_eq_of_lt (by norm_num at hpow ⊢; omega), Nat.add_comm, show 2 ^ 4 = 16 from rfl]
  rw [Work.turn, xdigit_eq, if_pos hch]
  simp only [after_seenXdigits, after_val, hval]
  by_cases hfull : cur.length = 4
  · rw [if_pos (show cur.length + 1 > 4 by omega), if_pos hfull]
  · rw [if_neg (show ¬cur.length + 1 > 4 by omega), if_neg hfull]
    simp only [Work.after, List.length_append, List.length_singleton]

theorem turn_other (hch : ¬IsHex ch) (hcolon : ch ≠ ':') :
    (Work.after done colonp cur).turn ch = .error .badFormat := by
  simp only [Work.turn, xdigit_eq, if_neg hch, if_neg hcolon]

theorem turn_colon_nil :
    (Work.after done colonp []).turn ':' =
      if colonp.isSome then .error .badFormat
      else .ok (Work.after done (some done.length) []) := by
  rw [Work.turn, xdigit_eq, if_neg not_isHex_colon]
  rfl

/-- The bytes of a group take the place of two zeros. -/
theorem store_after (hdone : done.length + 2 ≤ 16) :
    (Work.after done colonp cur).store =
      .ok { Work.after (done ++ groupBytes cur) colonp [] with
        seenXdigits := cur.length, val := groupValue cur } := by
  obtain ⟨k, hk⟩ : ∃ k, 16 - done.length = k + 2 := ⟨14 - done.length, by omega⟩
  have hk' : 16 - (done.length + 2) = k := by omega
  have h0 : done.length < 16 := by omega
  have h1 : done.length + 1 < 16 := by omega
  simp [Work.store, write, h0, h1, Work.after, groupBytes, hk, hk', List.replicate_succ,
    Nat.shiftRight_eq_div_pow, Bind.bind, Except.bind, pure, Except.pure]

theorem turn_colon (hcur : cur ≠ []) :
    (Work.after done colonp cur).turn ':' =
      if done.length + 2 > 16 then .error .badFormat
      else .ok (Work.after (done ++ groupBytes cur) colonp []) := by
  have hne : (Work.after done colonp cur).seenXdigits ≠ 0 := by simpa using hcur
  rw [Work.turn, xdigit_eq, if_neg not_isHex_colon]
  dsimp only
  rw [if_pos rfl, if_neg hne]
  by_cases hdone : (Work.after done colonp cur).tp + 2 > 16
  · rw [if_pos hdone, if_pos (show done.length + 2 > 16 from hdone)]
  · have hdone' : ¬done.length + 2 > 16 := hdone
    rw [if_neg hdone, if_neg hdone', store_after (by omega)]
    rfl

end Turn

/-! ## The end of the text -/

section Finish
variable {done : List UInt8} {colonp : Option ℕ} {cur : List Char}

/-- A byte moves over the zeros. -/
theorem shiftTurn_eq {front mid back : List UInt8} {b : UInt8} {k n i : ℕ}
    (hlength : front.length + (mid.length + 1) + (k + 1) + back.length = 16)
    (hn : n = mid.length + 1 + back.length) (hi : i = back.length + 1) :
    Work.shiftTurn front.length n
        (front ++ (mid ++ [b]) ++ List.replicate (k + 1) 0 ++ back) i =
      .ok (front ++ mid ++ List.replicate (k + 1) 0 ++ b :: back) := by
  have hto : 16 - i = (front ++ (mid ++ [b]) ++ List.replicate k 0).length := by
    simp
    omega
  have hfrom : front.length + n - i = (front ++ mid).length := by
    rw [List.length_append]
    omega
  have hget : (front ++ (mid ++ [b]) ++ List.replicate (k + 1) 0 ++ back).getD
      (front ++ mid).length 0 = b := by
    rw [show front ++ (mid ++ [b]) ++ List.replicate (k + 1) 0 ++ back =
      (front ++ mid) ++ b :: (List.replicate (k + 1) 0 ++ back) by simp]
    simp [List.getD_eq_getElem?_getD]
  have hset : (front ++ (mid ++ [b]) ++ List.replicate (k + 1) 0 ++ back).set
      (front ++ (mid ++ [b]) ++ List.replicate k 0).length b =
        (front ++ mid) ++ b :: (List.replicate k 0 ++ b :: back) := by
    rw [List.replicate_succ', show front ++ (mid ++ [b]) ++ (List.replicate k 0 ++ [0]) ++ back =
      (front ++ (mid ++ [b]) ++ List.replicate k 0) ++ 0 :: back by simp,
      List.set_append_right _ _ (le_refl _), Nat.sub_self, List.set_cons_zero]
    simp
  have hset' : ((front ++ mid) ++ b :: (List.replicate k 0 ++ b :: back)).set
      (front ++ mid).length 0 = front ++ mid ++ List.replicate (k + 1) 0 ++ b :: back := by
    rw [List.set_append_right _ _ (le_refl _), Nat.sub_self, List.set_cons_zero]
    simp [List.replicate_succ]
  rw [Work.shiftTurn, write, if_pos (show 16 - i < 16 by omega), hfrom, hget, hto, hset]
  change write _ _ _ = _
  rw [write, if_pos (by rw [List.length_append]; omega), hset']

/-- What came after the double colon moves to the end. -/
theorem shift_eq {front mid back : List UInt8} {k n : ℕ}
    (hlength : front.length + mid.length + (k + 1) + back.length = 16)
    (hn : n = mid.length + back.length) :
    (List.range' (back.length + 1) mid.length).foldlM (Work.shiftTurn front.length n)
        (front ++ mid ++ List.replicate (k + 1) 0 ++ back) =
      .ok (front ++ List.replicate (k + 1) 0 ++ (mid ++ back)) := by
  induction mid using List.reverseRecOn generalizing back with
  | nil =>
    simp
    rfl
  | append_singleton mid b ih =>
    rw [List.length_append, List.length_singleton] at hlength hn ⊢
    rw [List.range'_succ, List.foldlM_cons, shiftTurn_eq hlength hn rfl]
    change List.foldlM _ (front ++ mid ++ List.replicate (k + 1) 0 ++ b :: back) _ = _
    have hstep := @ih (b :: back) (by rw [List.length_cons]; omega)
      (by rw [List.length_cons]; omega)
    rw [List.length_cons] at hstep
    rw [hstep]
    simp

/-- The result, from the bytes written and the place of the double colon. -/
def concluded (done : List UInt8) : Option ℕ → Except Stop (List UInt8)
  | some p =>
    if done.length = 16 then .error .badFormat
    else .ok (done.take p ++ List.replicate (16 - done.length) 0 ++ done.drop p)
  | none => if done.length = 16 then .ok done else .error .badFormat

/-- The last statements, where no digits are left. -/
theorem conclude_eq (hdone : done.length ≤ 16) (hcolonp : ∀ p ∈ colonp, p ≤ done.length)
    (w : Work) (htmp : w.tmp = done ++ List.replicate (16 - done.length) 0)
    (htp : w.tp = done.length) (hw : w.colonp = colonp) :
    (match w.colonp with
      | some colonp =>
        if w.tp = 16 then .error .badFormat
        else (List.range' 1 (w.tp - colonp)).foldlM (Work.shiftTurn colonp (w.tp - colonp)) w.tmp
      | none => if w.tp ≠ 16 then .error .badFormat else .ok w.tmp) = concluded done colonp := by
  subst hw
  cases hc : w.colonp with
  | none =>
    rw [concluded]
    dsimp only
    by_cases hfull : done.length = 16
    · rw [if_neg (by rw [htp]; exact not_not.mpr hfull), if_pos hfull, htmp, hfull]
      simp
    · rw [if_pos (by rw [htp]; exact hfull), if_neg hfull]
  | some p =>
    have hp := hcolonp p hc
    rw [concluded]
    dsimp only
    by_cases hfull : done.length = 16
    · rw [if_pos (by rw [htp]; exact hfull), if_pos hfull]
    · rw [if_neg (by rw [htp]; exact hfull), if_neg hfull, htmp, htp]
      obtain ⟨k, hk⟩ : ∃ k, 16 - done.length = k + 1 := ⟨15 - done.length, by omega⟩
      have hfront : (done.take p).length = p := by
        rw [List.length_take]
        exact Nat.min_eq_left hp
      have hmid : (done.drop p).length = done.length - p := List.length_drop
      have hshift := @shift_eq (done.take p) (done.drop p) [] k (done.length - p)
        (by rw [hfront, hmid, List.length_nil]; omega)
        (by rw [hmid, List.length_nil, Nat.add_zero])
      rw [hfront, hmid, List.take_append_drop, List.append_nil, List.append_nil,
        List.length_nil, Nat.zero_add] at hshift
      rw [hk, hshift]

theorem finish_nil (hdone : done.length ≤ 16) (hcolonp : ∀ p ∈ colonp, p ≤ done.length) :
    (Work.after done colonp []).finish = concluded done colonp :=
  conclude_eq hdone hcolonp _ rfl rfl rfl

theorem finish_group (hcolonp : ∀ p ∈ colonp, p ≤ done.length) (hcur : cur ≠ []) :
    (Work.after done colonp cur).finish =
      if done.length + 2 > 16 then .error .badFormat
      else concluded (done ++ groupBytes cur) colonp := by
  have hne : (Work.after done colonp cur).seenXdigits ≠ 0 := by simpa using hcur
  have hbytes : (done ++ groupBytes cur).length = done.length + 2 := List.length_append
  rw [Work.finish, if_pos hne]
  by_cases hdone : (Work.after done colonp cur).tp + 2 > 16
  · rw [if_pos hdone, if_pos (show done.length + 2 > 16 from hdone)]
    rfl
  · have hdone' : ¬done.length + 2 > 16 := hdone
    rw [if_neg hdone, if_neg hdone', store_after (by omega)]
    refine conclude_eq (by omega) (fun p hp => ?_) _ rfl rfl rfl
    exact (hcolonp p hp).trans (by omega)

end Finish

/-! ## The loop over the characters -/

/-- Groups, each with a colon after it. -/
def closed (gs : List (List Char)) : List Char := gs.flatMap (· ++ [':'])

theorem joined_append_singleton (gs : List (List Char)) (g : List Char) :
    joined (gs ++ [g]) = closed gs ++ g := by
  induction gs with
  | nil => simp [joined, closed, List.intercalate]
  | cons h gs ih =>
    obtain ⟨k, ks, hks⟩ := List.exists_cons_of_ne_nil (show gs ++ [g] ≠ [] by simp)
    have hstep : joined (h :: (gs ++ [g])) = h ++ ':' :: joined (gs ++ [g]) := by
      rw [hks, joined, joined, List.intercalate_cons_cons]
      simp
    rw [List.cons_append, hstep, ih]
    simp [closed]

theorem joined_append_colon {gs : List (List Char)} (h : gs ≠ []) :
    joined gs ++ [':'] = closed gs := by
  rw [← List.dropLast_append_getLast h, joined_append_singleton]
  simp [closed]

theorem length_bytes (gs : List (List Char)) :
    (gs.flatMap groupBytes).length = 2 * gs.length := by
  have htwo : (fun g => (groupBytes g).length) = fun _ => 2 := rfl
  rw [List.length_flatMap, htwo]
  simp [Nat.mul_comm]

section Loop
variable {done : List UInt8} {colonp : Option ℕ} {cur g text : List Char}
  {gs l r : List (List Char)} {w w' : Work} {ch : Char} {b : List UInt8}

theorem foldlM_digits (hg : ∀ ch ∈ g, IsHex ch) (hcur : ∀ ch ∈ cur, IsHex ch)
    (hlength : cur.length + g.length ≤ 4) :
    g.foldlM Work.turn (Work.after done colonp cur) = .ok (Work.after done colonp (cur ++ g)) := by
  induction g generalizing cur with
  | nil => rw [List.append_nil]; rfl
  | cons ch g ih =>
    rw [List.length_cons] at hlength
    have hch := hg ch List.mem_cons_self
    rw [List.foldlM_cons, turn_hex hch hcur (by omega), if_neg (by omega)]
    change List.foldlM _ _ _ = _
    have hcur' : ∀ c ∈ cur ++ [ch], IsHex c := by
      intro c hc
      rcases List.mem_append.mp hc with hc | hc
      · exact hcur c hc
      · exact List.mem_singleton.mp hc ▸ hch
    rw [ih (fun c hc => hg c (List.mem_cons_of_mem ch hc)) hcur'
      (by rw [List.length_append, List.length_singleton]; omega),
      List.append_assoc, List.singleton_append]

theorem foldlM_closed (hgs : ∀ g ∈ gs, IsGroup g) (hlength : done.length + 2 * gs.length ≤ 16) :
    (closed gs).foldlM Work.turn (Work.after done colonp []) =
      .ok (Work.after (done ++ gs.flatMap groupBytes) colonp []) := by
  induction gs generalizing done with
  | nil => simp [closed]; rfl
  | cons g gs ih =>
    rw [List.length_cons] at hlength
    have hg := hgs g List.mem_cons_self
    have hcons : closed (g :: gs) = g ++ ':' :: closed gs := by simp [closed]
    rw [hcons, List.foldlM_append, foldlM_digits hg.hex (by simp) (by simpa using hg.length_le)]
    change List.foldlM _ _ _ = _
    rw [List.nil_append, List.foldlM_cons, turn_colon hg.ne_nil, if_neg (by omega)]
    change List.foldlM _ _ _ = _
    have hbytes : (done ++ groupBytes g).length = done.length + 2 := List.length_append
    rw [ih (fun k hk => hgs k (List.mem_cons_of_mem g hk)) (by omega), List.flatMap_cons,
      List.append_assoc]

/-- The rest of a text, with or without a colon at its end. -/
theorem closed_finish (hr : ∀ g ∈ r, IsGroup g) (hlength : done.length + 2 * r.length ≤ 16)
    (hcolonp : ∀ p ∈ colonp, p ≤ done.length) :
    (closed r).foldlM Work.turn (Work.after done colonp []) >>= Work.finish =
      concluded (done ++ r.flatMap groupBytes) colonp := by
  have hbytes := length_bytes r
  rw [foldlM_closed hr hlength]
  exact finish_nil (by rw [List.length_append]; omega)
    fun p hp => (hcolonp p hp).trans (by rw [List.length_append]; omega)

theorem joined_finish (hr : ∀ g ∈ r, IsGroup g) (hlength : done.length + 2 * r.length ≤ 16)
    (hcolonp : ∀ p ∈ colonp, p ≤ done.length) :
    (joined r).foldlM Work.turn (Work.after done colonp []) >>= Work.finish =
      concluded (done ++ r.flatMap groupBytes) colonp := by
  cases r using List.reverseRecOn with
  | nil => exact closed_finish hr hlength hcolonp
  | append_singleton r g =>
    rw [List.length_append, List.length_singleton] at hlength
    have hg := hr g (by simp)
    have hbytes := length_bytes r
    rw [joined_append_singleton, List.foldlM_append,
      foldlM_closed (fun k hk => hr k (List.mem_append_left _ hk)) (by omega)]
    change g.foldlM _ _ >>= _ = _
    rw [foldlM_digits hg.hex (by simp) (by simpa using hg.length_le), List.nil_append]
    change Work.finish _ = _
    rw [finish_group (fun p hp => (hcolonp p hp).trans (by rw [List.length_append]; omega))
      hg.ne_nil, if_neg (by rw [List.length_append]; omega), List.flatMap_append,
      List.append_assoc]
    simp

end Loop

/-! ## Texts that are read -/

section Host
variable {cur q s text : List Char} {l r gs : List (List Char)} {b : List UInt8}

theorem asciiToIpv6Host_of_head_ne (h : s.head? ≠ some ':') :
    asciiToIpv6Host s = s.foldlM Work.turn Work.start >>= Work.finish := by
  rw [asciiToIpv6Host]
  · rfl
  · rintro rest rfl
    exact h rfl

theorem asciiToIpv6Host_colons (q : List Char) :
    asciiToIpv6Host (':' :: ':' :: q) = (':' :: q).foldlM Work.turn Work.start >>= Work.finish :=
  rfl

theorem head_ne_colon (hl : ∀ g ∈ l, IsGroup g) (hne : l ≠ []) (q : List Char) :
    (closed l ++ q).head? ≠ some ':' := by
  obtain ⟨g, l, rfl⟩ := List.exists_cons_of_ne_nil hne
  have hg := hl g List.mem_cons_self
  obtain ⟨ch, g, rfl⟩ := List.exists_cons_of_ne_nil hg.ne_nil
  have hch := hg.hex ch List.mem_cons_self
  rw [closed, List.flatMap_cons]
  intro h
  obtain rfl : ch = ':' := by simpa using h
  exact not_isHex_colon hch

theorem head_ne_colon_of_isGroup (hl : ∀ g ∈ l, IsGroup g) :
    (joined l).head? ≠ some ':' := by
  cases l using List.reverseRecOn with
  | nil => simp [joined]
  | append_singleton l g =>
    rw [joined_append_singleton]
    by_cases hne : l = []
    · subst hne
      have hg := hl g (by simp)
      obtain ⟨ch, g, rfl⟩ := List.exists_cons_of_ne_nil hg.ne_nil
      intro h
      obtain rfl : ch = ':' := by simpa [closed] using h
      exact not_isHex_colon (hg.hex ':' List.mem_cons_self)
    · exact head_ne_colon (fun k hk => hl k (List.mem_append_left _ hk)) hne g

/-- After the double colon. -/
theorem asciiToIpv6Host_double (hl : ∀ g ∈ l, IsGroup g) (hlength : l.length ≤ 8) (q : List Char) :
    asciiToIpv6Host (joined l ++ [':', ':'] ++ q) =
      q.foldlM Work.turn (Work.after (l.flatMap groupBytes) (some (2 * l.length)) []) >>=
        Work.finish := by
  have hloop : asciiToIpv6Host (joined l ++ [':', ':'] ++ q) =
      (closed l ++ ':' :: q).foldlM Work.turn Work.start >>= Work.finish := by
    by_cases hne : l = []
    · subst hne
      exact asciiToIpv6Host_colons q
    · have htext : joined l ++ [':', ':'] ++ q = closed l ++ ':' :: q := by
        rw [← joined_append_colon hne]
        simp
      rw [htext, asciiToIpv6Host_of_head_ne (head_ne_colon hl hne _)]
  have hstart : Work.start = Work.after [] none [] := rfl
  rw [hloop, List.foldlM_append, hstart, foldlM_closed hl (by rw [List.length_nil]; omega)]
  change List.foldlM _ _ _ >>= _ = _
  rw [List.foldlM_cons, turn_colon_nil, if_neg (by simp), List.nil_append, length_bytes]
  rfl

theorem concluded_full (hgs : gs.length = 8) :
    concluded (gs.flatMap groupBytes) none = .ok (gs.flatMap groupBytes) := by
  rw [concluded, if_pos (by rw [length_bytes, hgs])]

theorem concluded_short (hlength : l.length + r.length ≤ 7) :
    concluded (l.flatMap groupBytes ++ r.flatMap groupBytes) (some (2 * l.length)) =
      .ok (l.flatMap groupBytes ++ List.replicate (2 * (8 - l.length - r.length)) 0 ++
        r.flatMap groupBytes) := by
  have hl := length_bytes l
  have hr := length_bytes r
  rw [concluded, if_neg (by rw [List.length_append]; omega), ← hl, List.take_left, List.drop_left,
    List.length_append, hl, hr, show 16 - (2 * l.length + 2 * r.length) =
      2 * (8 - l.length - r.length) by omega]

/-- The texts of addresses are read. -/
theorem asciiToIpv6Host_of_denotes (h : Denotes s b) : asciiToIpv6Host s = .ok b := by
  cases h with
  | full gs hgs hlength =>
    rw [asciiToIpv6Host_of_head_ne (head_ne_colon_of_isGroup hgs)]
    refine (@joined_finish [] _ _ hgs ?_ (by simp)).trans ?_
    · rw [List.length_nil]
      omega
    · rw [List.nil_append, concluded_full hlength]
  | short l r hl hr hlength =>
    have hbytes := length_bytes l
    rw [asciiToIpv6Host_double hl (by omega), joined_finish hr (by omega) (by simp [hbytes]),
      concluded_short hlength]

/-- The text of an address that ends in a digit, with one more colon. -/
def ExtraColon (s : List Char) (b : List UInt8) : Prop :=
  ∃ text ch, Denotes text b ∧ text.getLast? = some ch ∧ IsHex ch ∧ s = text ++ [':']

/-- Such texts are read too. -/
theorem asciiToIpv6Host_of_extraColon (h : ExtraColon s b) : asciiToIpv6Host s = .ok b := by
  obtain ⟨text, ch, htext, hlast, hch, rfl⟩ := h
  cases htext with
  | full gs hgs hlength =>
    have hne : gs ≠ [] := by
      rintro rfl
      cases hlength
    have hhead := head_ne_colon hgs hne []
    rw [List.append_nil] at hhead
    rw [joined_append_colon hne, asciiToIpv6Host_of_head_ne hhead]
    refine (@closed_finish [] _ _ hgs ?_ (by simp)).trans ?_
    · rw [List.length_nil]
      omega
    · rw [List.nil_append, concluded_full hlength]
  | short l r hl hr hlength =>
    have hbytes := length_bytes l
    have hne : r ≠ [] := by
      rintro rfl
      rw [show joined [] = [] from rfl, List.append_nil, List.getLast?_append] at hlast
      cases hlast
      exact not_isHex_colon hch
    rw [List.append_assoc _ _ [':'], joined_append_colon hne,
      asciiToIpv6Host_double hl (by omega), closed_finish hr (by omega) (by simp [hbytes]),
      concluded_short hlength]

end Host

/-! ## Texts that are refused -/

/-- The characters read so far and the state they lead to. -/
inductive Reads : List Char → Work → Prop
  | plain (l : List (List Char)) (cur : List Char) (hl : ∀ g ∈ l, IsGroup g)
      (hcur : ∀ ch ∈ cur, IsHex ch) (hlength : cur.length ≤ 4) (hroom : l.length ≤ 8) :
    Reads (closed l ++ cur) (Work.after (l.flatMap groupBytes) none cur)
  | double (l r : List (List Char)) (cur : List Char) (hl : ∀ g ∈ l, IsGroup g)
      (hr : ∀ g ∈ r, IsGroup g) (hcur : ∀ ch ∈ cur, IsHex ch) (hlength : cur.length ≤ 4)
      (hroom : l.length + r.length ≤ 8) :
    Reads (closed l ++ ':' :: closed r ++ cur)
      (Work.after (l.flatMap groupBytes ++ r.flatMap groupBytes) (some (2 * l.length)) cur)

section Sound
variable {cur s text : List Char} {l r gs : List (List Char)} {w w' : Work} {ch : Char}
  {b : List UInt8} {e : Stop}

theorem closed_append (gs : List (List Char)) (g : List Char) :
    closed (gs ++ [g]) = closed gs ++ g ++ [':'] := by
  simp [closed]

theorem hex_append (hcur : ∀ c ∈ cur, IsHex c) (hch : IsHex ch) : ∀ c ∈ cur ++ [ch], IsHex c := by
  intro c hc
  rcases List.mem_append.mp hc with hc | hc
  · exact hcur c hc
  · exact List.mem_singleton.mp hc ▸ hch

theorem groups_append (hgs : ∀ g ∈ gs, IsGroup g) (hcur : ∀ c ∈ cur, IsHex c)
    (hlength : cur.length ≤ 4) (hne : cur ≠ []) : ∀ g ∈ gs ++ [cur], IsGroup g := by
  intro g hg
  rcases List.mem_append.mp hg with hg | hg
  · exact hgs g hg
  · exact List.mem_singleton.mp hg ▸ ⟨hne, hlength, hcur⟩

/-- One more character: the state is known, or the text is refused. -/
theorem Reads.turn (h : Reads text w) (ch : Char) :
    w.turn ch = .error .badFormat ∨ ∃ w', w.turn ch = .ok w' ∧ Reads (text ++ [ch]) w' := by
  by_cases hch : IsHex ch
  · cases h with
    | plain l cur hl hcur hlength hroom =>
      rw [turn_hex hch hcur hlength]
      by_cases hfull : cur.length = 4
      · exact .inl (if_pos hfull)
      · refine .inr ⟨_, if_neg hfull, ?_⟩
        rw [List.append_assoc]
        exact .plain l _ hl (hex_append hcur hch) (by rw [List.length_append]; simp; omega) hroom
    | double l r cur hl hr hcur hlength hroom =>
      rw [turn_hex hch hcur hlength]
      by_cases hfull : cur.length = 4
      · exact .inl (if_pos hfull)
      · refine .inr ⟨_, if_neg hfull, ?_⟩
        rw [List.append_assoc]
        exact .double l r _ hl hr (hex_append hcur hch)
          (by rw [List.length_append]; simp; omega) hroom
  · by_cases hcolon : ch = ':'
    · subst hcolon
      cases h with
      | plain l cur hl hcur hlength hroom =>
        have hbytes := length_bytes l
        by_cases hne : cur = []
        · subst hne
          refine .inr ⟨_, (turn_colon_nil).trans (if_neg (by simp)), ?_⟩
          rw [hbytes]
          simpa [closed] using Reads.double l [] [] hl (by simp) (by simp) (by simp) (by simpa)
        · rw [turn_colon hne]
          by_cases hfull : (l.flatMap groupBytes).length + 2 > 16
          · exact .inl (if_pos hfull)
          · refine .inr ⟨_, if_neg hfull, ?_⟩
            have hstep := Reads.plain (l ++ [cur]) [] (groups_append hl hcur hlength hne) (by simp)
              (by simp) (by rw [List.length_append, List.length_singleton]; omega)
            rwa [closed_append, List.append_nil, List.flatMap_append, List.flatMap_singleton]
              at hstep
      | double l r cur hl hr hcur hlength hroom =>
        have hbytes := length_bytes l
        have hbytes' := length_bytes r
        by_cases hne : cur = []
        · subst hne
          exact .inl ((turn_colon_nil).trans (if_pos rfl))
        · rw [turn_colon hne]
          by_cases hfull : (l.flatMap groupBytes ++ r.flatMap groupBytes).length + 2 > 16
          · exact .inl (if_pos hfull)
          · rw [List.length_append] at hfull
            refine .inr ⟨_, if_neg (by rw [List.length_append]; exact hfull), ?_⟩
            have hstep := Reads.double l (r ++ [cur]) [] hl (groups_append hr hcur hlength hne)
              (by simp) (by simp) (by rw [List.length_append, List.length_singleton]; omega)
            rw [closed_append, List.flatMap_append, List.flatMap_singleton] at hstep
            simpa [List.append_assoc] using hstep
    · cases h with
      | plain l cur hl hcur hlength hroom => exact .inl (turn_other hch hcolon)
      | double l r cur hl hr hcur hlength hroom => exact .inl (turn_other hch hcolon)

/-- The whole loop. -/
theorem reads_foldlM (text : List Char) :
    text.foldlM Work.turn Work.start = .error .badFormat ∨
      ∃ w, text.foldlM Work.turn Work.start = .ok w ∧ Reads text w := by
  induction text using List.reverseRecOn with
  | nil => exact .inr ⟨Work.start, rfl, .plain [] [] (by simp) (by simp) (by simp) (by simp)⟩
  | append_singleton text ch ih =>
    rw [List.foldlM_append]
    rcases ih with ih | ⟨w, ih, hreads⟩
    · rw [ih]
      exact .inl rfl
    · rw [ih]
      have hturn : [ch].foldlM Work.turn w = w.turn ch := by
        rw [List.foldlM_cons]
        cases w.turn ch <;> rfl
      change [ch].foldlM Work.turn w = _ ∨ ∃ w', [ch].foldlM Work.turn w = _ ∧ _
      rw [hturn]
      exact hreads.turn ch

theorem joined_getLast? (hgs : ∀ g ∈ gs, IsGroup g) (hne : gs ≠ []) :
    ∃ ch, (joined gs).getLast? = some ch ∧ IsHex ch := by
  cases gs using List.reverseRecOn with
  | nil => exact absurd rfl hne
  | append_singleton gs g =>
    have hg := hgs g (by simp)
    refine ⟨g.getLast hg.ne_nil, ?_, hg.hex _ (List.getLast_mem hg.ne_nil)⟩
    rw [joined_append_singleton, List.getLast?_append, List.getLast?_eq_some_getLast hg.ne_nil]
    rfl

/-- Eight groups, or fewer with a double colon, end with a colon or without one. -/
theorem extraColon_full (hgs : ∀ g ∈ gs, IsGroup g) (hlength : gs.length = 8) :
    ExtraColon (closed gs) (gs.flatMap groupBytes) := by
  have hne : gs ≠ [] := by
    rintro rfl
    cases hlength
  obtain ⟨ch, hlast, hch⟩ := joined_getLast? hgs hne
  exact ⟨joined gs, ch, .full gs hgs hlength, hlast, hch, (joined_append_colon hne).symm⟩

theorem extraColon_short (hl : ∀ g ∈ l, IsGroup g) (hr : ∀ g ∈ r, IsGroup g) (hne : r ≠ [])
    (hlength : l.length + r.length ≤ 7) :
    ExtraColon (joined l ++ [':', ':'] ++ closed r)
      (l.flatMap groupBytes ++ List.replicate (2 * (8 - l.length - r.length)) 0 ++
        r.flatMap groupBytes) := by
  obtain ⟨ch, hlast, hch⟩ := joined_getLast? hr hne
  refine ⟨_, ch, .short l r hl hr hlength, ?_, hch, ?_⟩
  · rw [List.getLast?_append, hlast]
    rfl
  · rw [List.append_assoc _ _ [':'], joined_append_colon hne]

/-- The state after all characters of a text without a double colon. -/
theorem finish_plain (hl : ∀ g ∈ l, IsGroup g) (hcur : ∀ c ∈ cur, IsHex c)
    (hlength : cur.length ≤ 4) (hroom : l.length ≤ 8) :
    (Work.after (l.flatMap groupBytes) none cur).finish = .error .badFormat ∨
      ∃ b, (Work.after (l.flatMap groupBytes) none cur).finish = .ok b ∧
        (Denotes (closed l ++ cur) b ∨ ExtraColon (closed l ++ cur) b) := by
  have hbytes := length_bytes l
  by_cases hne : cur = []
  · subst hne
    rw [finish_nil (by omega) (by simp), List.append_nil, concluded]
    by_cases hfull : (l.flatMap groupBytes).length = 16
    · exact .inr ⟨_, if_pos hfull, .inr (extraColon_full hl (by omega))⟩
    · exact .inl (if_neg hfull)
  · rw [finish_group (by simp) hne]
    by_cases hover : (l.flatMap groupBytes).length + 2 > 16
    · exact .inl (if_pos hover)
    · rw [if_neg hover, ← joined_append_singleton, concluded]
      by_cases hfull : (l.flatMap groupBytes ++ groupBytes cur).length = 16
      · refine .inr ⟨_, if_pos hfull, .inl ?_⟩
        have htwo : (groupBytes cur).length = 2 := rfl
        rw [List.length_append] at hfull
        have hdenotes := Denotes.full (l ++ [cur]) (groups_append hl hcur hlength hne)
          (by rw [List.length_append, List.length_singleton]; omega)
        rwa [List.flatMap_append, List.flatMap_singleton] at hdenotes
      · exact .inl (if_neg hfull)

/-- The same with a double colon. -/
theorem finish_double (hl : ∀ g ∈ l, IsGroup g) (hr : ∀ g ∈ r, IsGroup g)
    (hcur : ∀ c ∈ cur, IsHex c) (hlength : cur.length ≤ 4) (hroom : l.length + r.length ≤ 8) :
    (Work.after (l.flatMap groupBytes ++ r.flatMap groupBytes) (some (2 * l.length)) cur).finish =
        .error .badFormat ∨
      ∃ b, (Work.after (l.flatMap groupBytes ++ r.flatMap groupBytes) (some (2 * l.length))
          cur).finish = .ok b ∧
        (Denotes (joined l ++ [':', ':'] ++ (closed r ++ cur)) b ∨
          ExtraColon (joined l ++ [':', ':'] ++ (closed r ++ cur)) b) := by
  have hbytes := length_bytes l
  have hbytes' := length_bytes r
  have hplace : ∀ p ∈ some (2 * l.length),
      p ≤ (l.flatMap groupBytes ++ r.flatMap groupBytes).length := by
    rintro p hp
    cases hp
    rw [List.length_append]
    omega
  by_cases hne : cur = []
  · subst hne
    rw [finish_nil (by rw [List.length_append]; omega) hplace, List.append_nil]
    by_cases hfull : l.length + r.length = 8
    · refine .inl (if_pos ?_)
      rw [List.length_append]
      omega
    · refine .inr ⟨_, concluded_short (by omega), ?_⟩
      by_cases hnil : r = []
      · subst hnil
        exact .inl (.short l [] hl hr (by omega))
      · exact .inr (extraColon_short hl hr hnil (by omega))
  · rw [finish_group hplace hne]
    by_cases hover : (l.flatMap groupBytes ++ r.flatMap groupBytes).length + 2 > 16
    · exact .inl (if_pos hover)
    · rw [if_neg hover, ← joined_append_singleton, List.append_assoc]
      rw [List.length_append] at hover
      have hgroups := groups_append hr hcur hlength hne
      have hlength' : (r ++ [cur]).length = r.length + 1 := List.length_append
      have hflat : r.flatMap groupBytes ++ groupBytes cur = (r ++ [cur]).flatMap groupBytes := by
        rw [List.flatMap_append, List.flatMap_singleton]
      rw [hflat]
      by_cases hfull : l.length + (r ++ [cur]).length = 8
      · refine .inl (if_pos ?_)
        rw [List.length_append, length_bytes, length_bytes]
        omega
      · exact .inr ⟨_, concluded_short (by omega), .inl (.short l _ hl hgroups (by omega))⟩

/-- A text is refused, or it is one of an address, perhaps with an extra colon. -/
theorem asciiToIpv6Host_sound (s : List Char) :
    asciiToIpv6Host s = .error .badFormat ∨
      ∃ b, asciiToIpv6Host s = .ok b ∧ (Denotes s b ∨ ExtraColon s b) := by
  -- a text that begins with a colon needs a second one, and is then read from there
  by_cases hhead : s.head? = some ':'
  · obtain ⟨rest, rfl⟩ : ∃ rest, s = ':' :: rest := List.head?_eq_some_iff.mp hhead
    by_cases hsecond : rest.head? = some ':'
    · obtain ⟨q, rfl⟩ := List.head?_eq_some_iff.mp hsecond
      rw [asciiToIpv6Host_colons]
      obtain h | ⟨w, hw, hreads⟩ := reads_foldlM (':' :: q)
      · rw [h]
        exact .inl rfl
      · rw [hw]
        generalize htext : ':' :: q = text at hreads
        cases hreads with
        | plain l cur hl hcur hlength hroom =>
          exfalso
          by_cases hne : l = []
          · subst hne
            have hcons : cur = ':' :: q := htext.symm
            exact not_isHex_colon (hcur ':' (hcons ▸ List.mem_cons_self))
          · exact head_ne_colon hl hne cur (htext ▸ rfl)
        | double l r cur hl hr hcur hlength hroom =>
          have hnil : l = [] := by
            by_contra hne
            have hhead' := head_ne_colon hl hne (':' :: closed r ++ cur)
            rw [← List.append_assoc, ← htext] at hhead'
            exact hhead' rfl
          subst hnil
          have hsplit : ':' :: (closed [] ++ ':' :: closed r ++ cur) =
              joined [] ++ [':', ':'] ++ (closed r ++ cur) := rfl
          rw [hsplit]
          exact finish_double hl hr hcur hlength hroom
    · refine .inl ?_
      rw [asciiToIpv6Host]
      dsimp only
      rw [if_neg hsecond]
      rfl
  · rw [asciiToIpv6Host_of_head_ne hhead]
    obtain h | ⟨w, hw, hreads⟩ := reads_foldlM s
    · rw [h]
      exact .inl rfl
    · rw [hw]
      cases hreads with
      | plain l cur hl hcur hlength hroom => exact finish_plain hl hcur hlength hroom
      | double l r cur hl hr hcur hlength hroom =>
        have hne : l ≠ [] := by
          rintro rfl
          exact hhead rfl
        have hsplit : closed l ++ ':' :: closed r ++ cur =
            joined l ++ [':', ':'] ++ (closed r ++ cur) := by
          rw [← joined_append_colon hne]
          simp
        rw [hsplit]
        exact finish_double hl hr hcur hlength hroom

end Sound

/-! ## Printed addresses -/

theorem hexByte_spec (byte : UInt8) : (hexByte byte).length = 2 ∧ (∀ ch ∈ hexByte byte, IsHex ch) ∧
    groupValue (hexByte byte) = byte.toNat := by
  have hall : ∀ n < 256, (hexByte (UInt8.ofNat n)).length = 2 ∧
      ((hexByte (UInt8.ofNat n)).all fun ch => decide (IsHex ch)) = true ∧
        groupValue (hexByte (UInt8.ofNat n)) = n := by
    decide +kernel
  have hbyte := hall byte.toNat byte.toNat_lt
  rw [UInt8.ofNat_toNat] at hbyte
  exact ⟨hbyte.1, fun ch hch => of_decide_eq_true (List.all_eq_true.mp hbyte.2.1 ch hch),
    hbyte.2.2⟩

theorem groupValue_concat (g g' : List Char) :
    groupValue (g ++ g') = 16 ^ g'.length * groupValue g + groupValue g' := by
  induction g' using List.reverseRecOn with
  | nil => simp [groupValue]
  | append_singleton g' ch ih =>
    rw [← List.append_assoc, groupValue_append, groupValue_append, ih, List.length_append,
      List.length_singleton, pow_succ]
    ring

theorem isGroup_hexBytes (a b : UInt8) : IsGroup (hexByte a ++ hexByte b) := by
  obtain ⟨hlength, hhex, -⟩ := hexByte_spec a
  obtain ⟨hlength', hhex', -⟩ := hexByte_spec b
  have htotal : (hexByte a ++ hexByte b).length = 4 := by rw [List.length_append, hlength, hlength']
  refine ⟨List.ne_nil_of_length_pos (by omega), by omega, fun ch hch => ?_⟩
  rcases List.mem_append.mp hch with hch | hch
  · exact hhex ch hch
  · exact hhex' ch hch

theorem groupBytes_hexBytes (a b : UInt8) : groupBytes (hexByte a ++ hexByte b) = [a, b] := by
  obtain ⟨-, -, hvalue⟩ := hexByte_spec a
  obtain ⟨hlength', -, hvalue'⟩ := hexByte_spec b
  have hb := b.toNat_lt
  have hhigh : (16 ^ 2 * a.toNat + b.toNat) / 256 = a.toNat := by omega
  have hlow : UInt8.ofNat (16 ^ 2 * a.toNat + b.toNat) = b := by
    apply UInt8.toNat_inj.mp
    rw [UInt8.toNat_ofNat']
    omega
  rw [groupBytes, groupValue_concat, hlength', hvalue, hvalue', hhigh, hlow, UInt8.ofNat_toNat]

/-- The groups of the printed text. -/
def Ipv6Address.groups (addr : Ipv6Address) : List (List Char) :=
  (List.range 8).map fun i =>
    hexByte (addr.address.getD (2 * i) 0) ++ hexByte (addr.address.getD (2 * i + 1) 0)

theorem print_eq (addr : Ipv6Address) : addr.print = joined addr.groups := by
  have htext (f : ℕ → List Char) :
      ((List.range 16).flatMap fun i => f i ++ if i % 2 = 1 ∧ i < 15 then [':'] else []) =
        joined ((List.range 8).map fun i => f (2 * i) ++ f (2 * i + 1)) := by
    simp [List.range_succ, joined, List.intercalate, List.intersperse]
  exact htext fun i => hexByte (addr.address.getD i 0)

theorem groups_bytes (addr : Ipv6Address) : addr.groups.flatMap groupBytes = addr.address := by
  have hpairs (f : ℕ → UInt8) :
      ((List.range 8).flatMap fun i => [f (2 * i), f (2 * i + 1)]) = (List.range 16).map f := rfl
  rw [Ipv6Address.groups, List.flatMap_map]
  simp only [groupBytes_hexBytes]
  rw [hpairs fun i => addr.address.getD i 0]
  refine List.ext_getElem (by rw [List.length_map, List.length_range, addr.length_eq])
    fun i hi hi' => ?_
  rw [List.getElem_map, List.getElem_range, List.getD_eq_getElem _ _ hi']

/-- A printed address is the text of that address. -/
theorem print_denotes (addr : Ipv6Address) : Denotes addr.print addr.address := by
  rw [print_eq, ← groups_bytes]
  refine .full addr.groups (fun g hg => ?_) rfl
  obtain ⟨i, -, rfl⟩ := List.mem_map.mp hg
  exact isGroup_hexBytes _ _

/-! ## Results -/

section Results
variable {s text : List Char} {b : List UInt8}

theorem Denotes.getLast?_of_colon (h : Denotes s b) (hs : s = text ++ [':']) :
    text.getLast? = some ':' := by
  cases h with
  | full gs hgs hlength =>
    have hne : gs ≠ [] := by
      rintro rfl
      cases hlength
    obtain ⟨ch, hlast, hch⟩ := joined_getLast? hgs hne
    rw [hs, List.getLast?_append] at hlast
    cases hlast
    exact absurd hch not_isHex_colon
  | short l r hl hr hlength =>
    by_cases hne : r = []
    · subst hne
      have heq : joined l ++ [':'] = text := by
        have htail : (joined l ++ [':']) ++ [':'] = text ++ [':'] := by
          rw [← hs, show joined [] = [] from rfl]
          simp
        exact List.append_cancel_right htail
      rw [← heq, List.getLast?_append]
      rfl
    · obtain ⟨ch, hlast, hch⟩ := joined_getLast? hr hne
      have htail : (joined l ++ [':', ':'] ++ joined r).getLast? = some ch := by
        rw [List.getLast?_append, hlast]
        rfl
      rw [hs, List.getLast?_append] at htail
      cases htail
      exact absurd hch not_isHex_colon

theorem ExtraColon.not_denotes {b' : List UInt8} (h : ExtraColon s b) : ¬Denotes s b' := by
  obtain ⟨text, ch, -, hlast, hch, hs⟩ := h
  intro hdenotes
  rw [hdenotes.getLast?_of_colon hs] at hlast
  cases hlast
  exact not_isHex_colon hch

theorem Denotes.length (h : Denotes s b) : b.length = 16 := by
  cases h with
  | full gs hgs hlength => rw [length_bytes, hlength]
  | short l r hl hr hlength =>
    rw [List.length_append, List.length_append, length_bytes, length_bytes, List.length_replicate]
    omega

theorem Ipv6Address.memcpy_address (addr : Ipv6Address) (hb : b.length = 16) :
    (addr.memcpy b).address = b := by
  rw [Ipv6Address.memcpy]
  dsimp only
  rw [List.take_of_length_le (by omega), List.drop_eq_nil_of_le (by rw [addr.length_eq, hb]),
    List.append_nil]

/-- What the conversion of a text and `Set` are to do. -/
structure Converts (s : List Char) : Prop where
  reads : ∀ b, asciiToIpv6Host s = .ok b ↔ Denotes s b
  inside : asciiToIpv6Host s ≠ .error .outside
  sets : ∀ (addr : Ipv6Address) (b : List UInt8), Denotes s b → (addr.set s).address = b
  keeps : ∀ addr : Ipv6Address, (¬∃ b, Denotes s b) → addr.set s = addr

/-- One colon too many is overlooked, and nothing else. -/
theorem converts_iff (s : List Char) : Converts s ↔ ¬∃ b, ExtraColon s b := by
  constructor
  · rintro h ⟨b, hextra⟩
    exact hextra.not_denotes ((h.reads b).mp (asciiToIpv6Host_of_extraColon hextra))
  · intro hnot
    have hreads (b : List UInt8) : asciiToIpv6Host s = .ok b ↔ Denotes s b := by
      refine ⟨fun h => ?_, asciiToIpv6Host_of_denotes⟩
      obtain herror | ⟨b', hb', hdenotes⟩ := asciiToIpv6Host_sound s
      · cases herror.symm.trans h
      · cases hb'.symm.trans h
        exact hdenotes.resolve_right fun hextra => hnot ⟨b, hextra⟩
    have hinside : asciiToIpv6Host s ≠ .error .outside := by
      intro h
      obtain herror | ⟨b, hb, -⟩ := asciiToIpv6Host_sound s
      · cases herror.symm.trans h
      · cases hb.symm.trans h
    refine ⟨hreads, hinside, fun addr b hdenotes => ?_, fun addr hnone => ?_⟩
    · rw [Ipv6Address.set, (hreads b).mpr hdenotes]
      exact addr.memcpy_address hdenotes.length
    · rw [Ipv6Address.set]
      cases h : asciiToIpv6Host s with
      | ok b => exact absurd ⟨b, (hreads b).mp h⟩ hnone
      | error e => rfl

/-- Printed addresses are read back. -/
theorem set_print (addr other : Ipv6Address) : other.set addr.print = addr := by
  have haddress : (other.set addr.print).address = addr.address := by
    rw [Ipv6Address.set, asciiToIpv6Host_of_denotes (print_denotes addr)]
    exact other.memcpy_address addr.length_eq
  cases h : other.set addr.print
  cases addr
  rw [h] at haddress
  cases haddress
  rfl

/-- One colon too many is overlooked, and nothing else. Printed addresses are read back. -/
theorem converts_iff_and_set_print (s : List Char) (addr other : Ipv6Address) :
    (Converts s ↔ ¬∃ b, ExtraColon s b) ∧ other.set addr.print = addr :=
  ⟨converts_iff s, set_print addr other⟩

/-- Eight groups and a colon. -/
theorem not_converts_trailingColon : ¬∀ s, Converts s := by
  intro h
  have hread : asciiToIpv6Host "1:2:3:4:5:6:7:8:".toList =
      .ok [0, 1, 0, 2, 0, 3, 0, 4, 0, 5, 0, 6, 0, 7, 0, 8] := by decide +kernel
  have hdenotes := ((h _).reads _).mp hread
  have hlast : "1:2:3:4:5:6:7:8".toList.getLast? = some ':' :=
    hdenotes.getLast?_of_colon (by decide +kernel)
  exact absurd hlast (by decide +kernel)

end Results

end Ns3Noc.Ipv6Text

import Ns3Noc.HighPrecision
import Mathlib

/-!
# HighPrecisionText

The decimal text of a number: a sign, the high part, a point, and the low part as twenty digits, of
which the zeros at the end are left out.
-/
namespace Ns3Noc.HighPrecision

/-- A number of type `int64_t` on a stream. -/
def printInteger (x : BitVec 64) : List Char :=
  if x.msb then '-' :: Nat.toDigits 10 (-x).toNat else Nat.toDigits 10 x.toNat

def mostSignificantDigit (value : ℕ) : ℕ :=
  let value' := value / 10
  if value' ≠ 0 then mostSignificantDigit value' + 1 else 1

def powerOfTen : ℕ → ℕ
  | 0 => 1
  | n + 1 => powerOfTen n * 10

/-- The loop over the digits of the low part. -/
def printDigits : ℕ → ℕ → List Char
  | 0, _ => []
  | msd + 1, low =>
    let pow := powerOfTen msd
    let digit := low / pow
    let low := low - digit * pow
    Nat.toDigits 10 digit ++ if msd > 0 ∧ low > 0 then printDigits msd low else []

/-- `operator <<` -/
def print (hp : HighPrecision) : List Char :=
  let hi := hp.getHigh
  let low := hp.getLow.toNat
  let msd := mostSignificantDigit (~~~(0 : BitVec 64)).toNat
  (if hi.msb then '-' else '+') :: (printInteger (if hi.msb then -hi else hi) ++
    '.' :: printDigits msd low)

def readDigits (str : List Char) : BitVec 64 :=
  (str.takeWhile (· ≠ '\x00')).foldl
    (fun retval c => retval * 10 + (BitVec.ofNat 64 c.toNat - 0x30)) 0

/-- The text after the first occurrence of a character. -/
def afterChar (c : Char) (str : List Char) : List Char := (str.dropWhile (· ≠ c)).tail

/-- `isspace` -/
def isSpace (c : Char) : Bool := c.toNat = 32 ∨ 9 ≤ c.toNat ∧ c.toNat ≤ 13

/-- `operator >>`: the next word of the stream is read. `none` is the exception on an empty word. -/
def read (is : List Char) : Option HighPrecision :=
  let str := (is.dropWhile isSpace).takeWhile (¬isSpace ·)
  if str = [] then none
  else
    let negative := '-' ∈ str
    let rest := if negative then afterChar '-' str
      else if '+' ∈ str then afterChar '+' str else str
    let hi := readDigits (rest.takeWhile (· ≠ '.'))
    let lo := if '.' ∈ rest then readDigits (afterChar '.' rest) else 0
    some (ofHighLow (if negative then -hi else hi) lo)

section Digits

theorem powerOfTen_eq (n : ℕ) : powerOfTen n = 10 ^ n := by
  induction n with
  | zero => rfl
  | succ n ih => rw [powerOfTen, ih, pow_succ]

theorem mostSignificantDigit_eq_log (value : ℕ) :
    mostSignificantDigit value = Nat.log 10 value + 1 := by
  induction value using mostSignificantDigit.induct with
  | case1 value value' hne ih =>
    rw [mostSignificantDigit, if_pos hne, ih, Nat.log_div_base]
    have := Nat.log_pos (b := 10) (by norm_num) (Nat.le_of_not_lt (mt Nat.div_eq_of_lt hne))
    omega
  | case2 value value' heq =>
    have hlt : value < 10 := by omega
    rw [mostSignificantDigit, if_neg heq, Nat.log_of_lt hlt]

theorem mostSignificantDigit_max : mostSignificantDigit (~~~(0 : BitVec 64)).toNat = 20 := by
  have hmax : (~~~(0 : BitVec 64)).toNat = 18446744073709551615 := by
    decide
  rw [mostSignificantDigit_eq_log, hmax, Nat.log_eq_of_pow_le_of_lt_pow (m := 19)] <;> norm_num

def IsDigits (l : List Char) : Prop := ∀ c ∈ l, c.isDigit

theorem isDigits_toDigits (n : ℕ) : IsDigits (Nat.toDigits 10 n) := by
  intro c hc
  exact Nat.isDigit_of_mem_toDigits (by norm_num) (by norm_num) hc

theorem printDigits_succ (msd low : ℕ) : printDigits (msd + 1) low =
    Nat.toDigits 10 (low / 10 ^ msd) ++
      if msd > 0 ∧ low % 10 ^ msd > 0 then printDigits msd (low % 10 ^ msd) else [] := by
  rw [printDigits, powerOfTen_eq, Nat.mod_eq_sub_div_mul]

theorem printDigits_isDigits (msd low : ℕ) : IsDigits (printDigits msd low) := by
  induction msd generalizing low with
  | zero => simp [IsDigits, printDigits]
  | succ msd ih =>
    rw [printDigits_succ]
    intro c hc
    rcases List.mem_append.mp hc with h | h
    · exact isDigits_toDigits _ c h
    · split_ifs at h
      · exact ih _ c h
      · simp at h

/-- Every digit is one character. -/
theorem toDigits_of_lt {low msd : ℕ} (h : low < 10 ^ (msd + 1)) :
    (Nat.toDigits 10 (low / 10 ^ msd)).length = 1 := by
  have hlt : low / 10 ^ msd < 10 := by
    rw [Nat.div_lt_iff_lt_mul (by positivity), ← Nat.pow_succ']
    exact h
  rw [Nat.toDigits_of_lt_base hlt, List.length_singleton]

/-- What is printed is the number without some zeros at the end. -/
theorem printDigits_value (msd : ℕ) {low : ℕ} (h : low < 10 ^ (msd + 1)) :
    (printDigits (msd + 1) low).length ≤ msd + 1 ∧
      Nat.ofDigitChars 10 (printDigits (msd + 1) low) 0 *
        10 ^ (msd + 1 - (printDigits (msd + 1) low).length) = low := by
  induction msd generalizing low with
  | zero =>
    rw [printDigits_succ, if_neg (by simp), List.append_nil, toDigits_of_lt h]
    simp
  | succ msd ih =>
    have hlen := toDigits_of_lt h
    have hsum := Nat.div_add_mod' low (10 ^ (msd + 1))
    rw [printDigits_succ, List.length_append, hlen, Nat.ofDigitChars_append,
      Nat.ofDigitChars_ten_toDigits]
    split_ifs with hrest
    · obtain ⟨hle, hval⟩ := ih (Nat.mod_lt low (by positivity))
      refine ⟨by omega, ?_⟩
      rw [Nat.ofDigitChars_eq_ofDigitChars_zero, Nat.add_mul,
        show msd + 1 + 1 - (1 + (printDigits (msd + 1) (low % 10 ^ (msd + 1))).length) =
          msd + 1 - (printDigits (msd + 1) (low % 10 ^ (msd + 1))).length by omega, hval,
        Nat.mul_right_comm, ← Nat.pow_add, Nat.add_sub_cancel' hle, Nat.mul_comm]
      exact hsum
    · have hzero : low % 10 ^ (msd + 1) = 0 := by
        simpa using hrest
      rw [hzero] at hsum
      simpa using hsum

/-- All zeros at the end are left out. -/
theorem printDigits_length_lt (msd : ℕ) {low : ℕ} (h : low < 10 ^ (msd + 1)) (hpos : 0 < low)
    (hten : low % 10 = 0) : (printDigits (msd + 1) low).length < msd + 1 := by
  induction msd generalizing low with
  | zero =>
    rw [zero_add, pow_one] at h
    omega
  | succ msd ih =>
    rw [printDigits_succ, List.length_append, toDigits_of_lt h]
    split_ifs with hrest
    · have hmod : low % 10 ^ (msd + 1) % 10 = 0 := by
        rw [Nat.mod_mod_of_dvd _ (Dvd.intro_left _ (pow_succ 10 msd).symm), hten]
      have := ih (Nat.mod_lt low (by positivity)) hrest.2 hmod
      omega
    · simp

/-- The digits are those of the number itself if it has no zero at the end. -/
theorem printDigits_exact_iff (msd : ℕ) {low : ℕ} (h : low < 10 ^ (msd + 1)) :
    Nat.ofDigitChars 10 (printDigits (msd + 1) low) 0 = low ↔ low = 0 ∨ low % 10 ≠ 0 := by
  obtain ⟨hle, hval⟩ := printDigits_value msd h
  have hshort := printDigits_length_lt msd h
  generalize (printDigits (msd + 1) low).length = len at hle hval hshort
  constructor
  · intro heq
    by_contra hten
    have hlt := hshort (by omega) (by omega)
    have hpow : 10 ^ 1 ≤ 10 ^ (msd + 1 - len) := Nat.pow_le_pow_right (by norm_num) (by omega)
    have := Nat.mul_le_mul_left low hpow
    rw [heq] at hval
    omega
  · intro hlow
    obtain rfl | hlt := hle.eq_or_lt
    · rwa [Nat.sub_self, pow_zero, mul_one] at hval
    · obtain ⟨k, hk⟩ : ∃ k, msd + 1 - len = k + 1 := ⟨msd - len, by omega⟩
      rw [hk, pow_succ, ← mul_assoc] at hval
      have hzero : low = 0 := hlow.resolve_right fun hten => hten (by omega)
      rw [hzero] at hval ⊢
      simpa using hval

end Digits

section Reading

theorem isDigit_bounds {c : Char} (h : c.isDigit) : 48 ≤ c.toNat ∧ c.toNat ≤ 57 :=
  Char.isDigit_iff_toNat.mp h

theorem not_isSpace_of_isDigit {c : Char} (h : c.isDigit) : isSpace c = false := by
  have := isDigit_bounds h
  rw [isSpace, decide_eq_false_iff_not]
  omega

theorem ne_of_isDigit {c d : Char} (h : c.isDigit) (hd : d.toNat < 48) : c ≠ d := by
  have := isDigit_bounds h
  intro heq
  rw [heq] at this
  omega

theorem foldl_eq_ofDigitChars {l : List Char} (h : IsDigits l) (init : ℕ) :
    l.foldl (fun retval c => retval * 10 + (BitVec.ofNat 64 c.toNat - 0x30)) (BitVec.ofNat 64 init) =
      BitVec.ofNat 64 (Nat.ofDigitChars 10 l init) := by
  induction l generalizing init with
  | nil => rfl
  | cons c l ih =>
    have hc := isDigit_bounds (h c (List.mem_cons_self ..))
    have hstep : BitVec.ofNat 64 init * 10 + (BitVec.ofNat 64 c.toNat - 0x30) =
        BitVec.ofNat 64 (10 * init + (c.toNat - '0'.toNat)) := by
      have hsub : BitVec.ofNat 64 c.toNat - 0x30 = BitVec.ofNat 64 (c.toNat - '0'.toNat) := by
        obtain ⟨d, hd⟩ := Nat.exists_eq_add_of_le' hc.1
        rw [hd, BitVec.ofNat_add]
        exact add_sub_cancel_right _ _
      rw [hsub, Nat.mul_comm, BitVec.ofNat_add, BitVec.ofNat_mul]
      rfl
    rw [List.foldl_cons, hstep, ih (fun c' hc' => h c' (List.mem_cons_of_mem c hc')),
      Nat.ofDigitChars_cons]

theorem readDigits_eq {l : List Char} (h : IsDigits l) :
    readDigits l = BitVec.ofNat 64 (Nat.ofDigitChars 10 l 0) := by
  have hall : l.takeWhile (· ≠ '\x00') = l := by
    rw [List.takeWhile_eq_self_iff]
    intro c hc
    exact decide_eq_true (ne_of_isDigit (h c hc) (by decide))
  rw [readDigits, hall]
  exact foldl_eq_ofDigitChars h 0

/-- A text of the form that is printed is taken apart at its sign and its point. -/
theorem read_signed (neg : Bool) {high low : List Char} (hhigh : IsDigits high) (hlow : IsDigits low) :
    read ((if neg then '-' else '+') :: (high ++ '.' :: low)) =
      some (ofHighLow (if neg then -readDigits high else readDigits high) (readDigits low)) := by
  set sign := if neg then '-' else '+' with hsign
  have hnotin {l : List Char} (hl : IsDigits l) {d : Char} (hd : d.toNat < 48) : d ∉ l :=
    fun hmem => ne_of_isDigit (hl d hmem) hd rfl
  have hspace : ∀ c ∈ sign :: (high ++ '.' :: low), isSpace c = false := by
    intro c hc
    rcases List.mem_cons.mp hc with rfl | hc
    · rw [hsign]
      cases neg <;> decide
    · rcases List.mem_append.mp hc with hc | hc
      · exact not_isSpace_of_isDigit (hhigh c hc)
      · rcases List.mem_cons.mp hc with rfl | hc
        · decide
        · exact not_isSpace_of_isDigit (hlow c hc)
  have hstr : ((sign :: (high ++ '.' :: low)).dropWhile isSpace).takeWhile (¬isSpace ·) =
      sign :: (high ++ '.' :: low) := by
    rw [List.dropWhile_cons_of_neg (by rw [hspace sign (List.mem_cons_self ..)]; simp),
      List.takeWhile_eq_self_iff]
    intro c hc
    simp [hspace c hc]
  have hminus : '-' ∈ sign :: (high ++ '.' :: low) ↔ neg = true := by
    have h1 := hnotin hhigh (d := '-') (by decide)
    have h2 := hnotin hlow (d := '-') (by decide)
    cases neg <;> simp [hsign, h1, h2]
  have hplus : '+' ∈ sign :: (high ++ '.' :: low) ↔ neg = false := by
    have h1 := hnotin hhigh (d := '+') (by decide)
    have h2 := hnotin hlow (d := '+') (by decide)
    cases neg <;> simp [hsign, h1, h2]
  have hsignAfter : afterChar sign (sign :: (high ++ '.' :: low)) = high ++ '.' :: low := by
    rw [afterChar, List.dropWhile_cons_of_neg (by simp), List.tail_cons]
  have hpoint : ∀ c ∈ high, decide (c ≠ '.') = true := by
    intro c hc
    exact decide_eq_true (ne_of_isDigit (hhigh c hc) (by decide))
  have hhighPart : (high ++ '.' :: low).takeWhile (· ≠ '.') = high := by
    rw [List.takeWhile_append_of_pos hpoint, List.takeWhile_cons_of_neg (by simp), List.append_nil]
  have hlowPart : afterChar '.' (high ++ '.' :: low) = low := by
    rw [afterChar, List.dropWhile_append_of_pos hpoint, List.dropWhile_cons_of_neg (by simp),
      List.tail_cons]
  have hmem : '.' ∈ high ++ '.' :: low := by
    simp
  have hrest : (if '-' ∈ sign :: (high ++ '.' :: low) then
      afterChar '-' (sign :: (high ++ '.' :: low))
    else if '+' ∈ sign :: (high ++ '.' :: low) then afterChar '+' (sign :: (high ++ '.' :: low))
    else sign :: (high ++ '.' :: low)) = high ++ '.' :: low := by
    cases neg with
    | false =>
      rw [if_neg (mt hminus.mp Bool.false_ne_true), if_pos (hplus.mpr rfl)]
      exact hsignAfter
    | true =>
      rw [if_pos (hminus.mpr rfl)]
      exact hsignAfter
  rw [read, hstr, if_neg (List.cons_ne_nil _ _)]
  dsimp only
  rw [hrest, hhighPart, hlowPart, if_pos hmem]
  simp only [hminus]

theorem read_print (hp : HighPrecision) (hmin : hp.getHigh ≠ BitVec.intMin 64) :
    read hp.print = some (ofHighLow hp.getHigh
      (BitVec.ofNat 64 (Nat.ofDigitChars 10 (printDigits 20 hp.getLow.toNat) 0))) := by
  have hmsb : (if hp.getHigh.msb then -hp.getHigh else hp.getHigh).msb = false := by
    split_ifs with h
    · rw [BitVec.msb_neg_of_ne_intMin_of_ne_zero hmin, h]
      · rfl
      · intro hzero
        rw [hzero] at h
        simp at h
    · simpa using h
  have hprint : printInteger (if hp.getHigh.msb then -hp.getHigh else hp.getHigh) =
      Nat.toDigits 10 (if hp.getHigh.msb then -hp.getHigh else hp.getHigh).toNat := by
    rw [printInteger, if_neg (by rw [hmsb]; simp)]
  have hvalue : readDigits (Nat.toDigits 10
      (if hp.getHigh.msb then -hp.getHigh else hp.getHigh).toNat) =
        if hp.getHigh.msb then -hp.getHigh else hp.getHigh := by
    rw [readDigits_eq (isDigits_toDigits _), Nat.ofDigitChars_ten_toDigits, BitVec.ofNat_toNat,
      BitVec.setWidth_eq]
  rw [print, mostSignificantDigit_max, hprint, read_signed _ (isDigits_toDigits _)
    (printDigits_isDigits _ _), hvalue, readDigits_eq (printDigits_isDigits _ _)]
  split_ifs
  · rw [neg_neg]
  · rfl

end Reading

section RoundTrip

theorem ofHighLow_injective (high : BitVec 64) : Function.Injective (ofHighLow high) := by
  intro low low' h
  have hm := congrArg m_value h
  simp only [ofHighLow] at hm
  have hwide : low.setWidth 128 = low'.setWidth 128 := by
    split_ifs at hm
    · exact add_left_cancel (neg_injective hm)
    · exact add_left_cancel hm
  have hnat := congrArg BitVec.toNat hwide
  rw [BitVec.toNat_setWidth, BitVec.toNat_setWidth, Nat.mod_eq_of_lt (by omega),
    Nat.mod_eq_of_lt (by omega)] at hnat
  exact BitVec.toNat_inj.mp hnat

theorem eq_intMin_of_getHigh {hp : HighPrecision} (h : hp.getHigh = BitVec.intMin 64) :
    hp = ⟨BitVec.intMin 128⟩ := by
  have hint := getInteger_toInt hp
  rw [← getHigh, h, show (BitVec.intMin 64).toInt = -2 ^ 63 by decide] at hint
  have hlow := BitVec.le_toInt hp.m_value
  have htoInt : hp.m_value.toInt = (BitVec.intMin 128).toInt := by
    rw [show (BitVec.intMin 128).toInt = -2 ^ 127 by decide +kernel]
    norm_num at hint hlow ⊢
    rcases le_total 0 hp.m_value.toInt with h0 | h0
    · rw [Int.tdiv_eq_ediv_of_nonneg h0] at hint
      omega
    · rw [← neg_neg hp.m_value.toInt, Int.neg_tdiv, Int.tdiv_eq_ediv_of_nonneg (by omega)] at hint
      omega
  cases hp
  exact congrArg HighPrecision.mk (BitVec.toInt_inj.mp htoInt)

/-- The least number is printed with two signs. -/
theorem read_print_intMin :
    read (print ⟨BitVec.intMin 128⟩) ≠ some ⟨BitVec.intMin 128⟩ := by
  rw [print, mostSignificantDigit_max]
  decide +kernel

/-- A number that its high and low part represent is read back from its text just if it is not the
least one, and if its low part is zero or has no zero at the end in decimal. -/
theorem read_print_iff (hp : HighPrecision) (h : ofHighLow hp.getHigh hp.getLow = hp) :
    read hp.print = some hp ↔
      hp.getHigh ≠ BitVec.intMin 64 ∧ (hp.getLow = 0 ∨ hp.getLow.toNat % 10 ≠ 0) := by
  by_cases hmin : hp.getHigh = BitVec.intMin 64
  · apply iff_of_false
    · rw [eq_intMin_of_getHigh hmin]
      exact read_print_intMin
    · exact fun hne => hne.1 hmin
  · have hlt : hp.getLow.toNat < 10 ^ (19 + 1) :=
      hp.getLow.isLt.trans (by norm_num)
    have hle : Nat.ofDigitChars 10 (printDigits 20 hp.getLow.toNat) 0 ≤ hp.getLow.toNat := by
      have hval := (printDigits_value 19 hlt).2
      exact (Nat.le_mul_of_pos_right _ (by positivity)).trans_eq hval
    rw [read_print hp hmin, Option.some.injEq, and_iff_right hmin]
    conv_lhs => rhs; rw [← h]
    rw [(ofHighLow_injective hp.getHigh).eq_iff, ← BitVec.toNat_inj, BitVec.toNat_ofNat,
      Nat.mod_eq_of_lt (hle.trans_lt hp.getLow.isLt), printDigits_exact_iff 19 hlt,
      ← BitVec.toNat_inj]
    rfl

theorem read_print_odd : read (ofHighLow (-3) 12345).print = some (ofHighLow (-3) 12345) :=
  (read_print_iff _ (by decide +kernel)).mpr (by decide +kernel)

/-- The low part 10 is read back as 1. -/
theorem not_read_print :
    ¬∀ hp : HighPrecision, ofHighLow hp.getHigh hp.getLow = hp → read hp.print = some hp := by
  intro h
  have hread := h (ofHighLow 1 10) (by decide +kernel)
  rw [print, mostSignificantDigit_max] at hread
  exact absurd hread (by decide +kernel)

end RoundTrip

end Ns3Noc.HighPrecision

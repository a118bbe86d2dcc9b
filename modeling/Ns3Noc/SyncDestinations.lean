import Mathlib
import Ns3Noc.MixedRadixIndices
import Ns3Noc.TrafficPattern

/-!
# Destinations of the synchronous application

`NocSyncApplication::SendFlit` splits the id of its node into one coordinate for each dimension,
applies the bit pattern to each coordinate with as many bits as the dimension holds, and puts the
results together again. All products and sums are taken modulo `2 ^ 32`, and a product that wraps to
zero stops the program at the next division.
-/
namespace Ns3Noc.SyncDestinations
open TrafficPattern MixedRadixDigits

/-- The loop over the dimensions for the coordinates of the source; `numberOfNodes` is the product
of the sizes before. A size of zero reads beyond the end of `source`. -/
def sourceCoordinates (sourceNodeId : ℕ) : ℕ → List ℕ → Option (List ℕ)
  | _, [] => some []
  | numberOfNodes, value :: m_size =>
    if value = 0 ∨ numberOfNodes = 0 then none
    else (sourceCoordinates sourceNodeId (numberOfNodes * value % 2 ^ 32) m_size).map
      (sourceNodeId / numberOfNodes % value % 2 ^ 8 :: ·)

/-- The loop for the coordinates of the destination, with the assertion on each of them. -/
def destinationCoordinates (pattern : BitPattern) : List ℕ → List ℕ → Option (List ℕ)
  | value :: m_size, source :: sources => do
    let destination ← pattern.apply source (Nat.log2 value)
    let destinations ← destinationCoordinates pattern m_size sources
    if destination < value then some (destination :: destinations) else none
  | _, _ => some []

/-- The loop that puts the coordinates together. -/
def combineCoordinates : ℕ → List ℕ → List ℕ → ℕ
  | numberOfNodes, value :: m_size, destination :: destinations =>
    (destination * numberOfNodes +
      combineCoordinates (numberOfNodes * value % 2 ^ 32) m_size destinations) % 2 ^ 32
  | _, _, _ => 0

/-- The destination that `SendFlit` computes for a bit pattern. -/
def destinationNodeId (pattern : BitPattern) (m_size : List ℕ) (sourceNodeId : ℕ) : Option ℕ := do
  let source ← sourceCoordinates sourceNodeId 1 m_size
  let destination ← destinationCoordinates pattern m_size source
  some (combineCoordinates 1 m_size destination)

/-- Every source below the number of nodes has a destination below it, and the patterns are
involutions where the sizes are powers of two. -/
structure PermutesNodes (m_size : List ℕ) : Prop where
  below : ∀ (pattern : BitPattern) (id : ℕ), id < 2 ^ 32 → id < m_size.prod →
    ∃ d, destinationNodeId pattern m_size id = some d ∧ d < m_size.prod
  twice : (∀ value ∈ m_size, ∃ b, value = 2 ^ b) →
    ∀ (pattern : BitPattern) (id : ℕ), id < 2 ^ 32 → id < m_size.prod →
      (destinationNodeId pattern m_size id).bind (destinationNodeId pattern m_size) = some id

/-- Every dimension has two positions at least, no product before the last dimension wraps to zero,
and the nodes of a network of powers of two have ids. -/
structure Fits (m_size : List ℕ) : Prop where
  two_le : ∀ value ∈ m_size, 2 ≤ value
  nonzero : ∀ k < m_size.length, ¬2 ^ 32 ∣ (m_size.take k).prod
  prod_le : (∀ value ∈ m_size, ∃ b, value = 2 ^ b) → m_size.prod ≤ 2 ^ 32

/-! ## The three loops -/

theorem not_dvd_mod_mul {n v : ℕ} {vs : List ℕ} {k : ℕ} :
    ¬2 ^ 32 ∣ n * v % 2 ^ 32 * (vs.take k).prod ↔ ¬2 ^ 32 ∣ n * ((v :: vs).take (k + 1)).prod := by
  rw [List.take_succ_cons, List.prod_cons, ← Nat.mul_assoc, Nat.dvd_iff_mod_eq_zero,
    Nat.dvd_iff_mod_eq_zero, Nat.mod_mul_mod]

/-- The first loop runs through unless a size or a product of sizes is zero. -/
theorem sourceCoordinates_isSome_iff (id : ℕ) {n : ℕ} (hn : n < 2 ^ 32) (vs : List ℕ) :
    (sourceCoordinates id n vs).isSome ↔
      (∀ v ∈ vs, v ≠ 0) ∧ ∀ k < vs.length, ¬2 ^ 32 ∣ n * (vs.take k).prod := by
  induction vs generalizing n with
  | nil => simp [sourceCoordinates]
  | cons v vs ih =>
    have hzero : ¬2 ^ 32 ∣ n * ((v :: vs).take 0).prod ↔ n ≠ 0 := by
      rw [List.take_zero, List.prod_nil, Nat.mul_one, Nat.dvd_iff_mod_eq_zero, Nat.mod_eq_of_lt hn]
    have hsucc := ih (Nat.mod_lt (n * v) (Nat.two_pow_pos 32))
    by_cases hstop : v = 0 ∨ n = 0
    · rw [sourceCoordinates, if_pos hstop]
      refine iff_of_false (by simp) ?_
      rintro ⟨hv, hk⟩
      rcases hstop with rfl | hn0
      · exact hv 0 List.mem_cons_self rfl
      · exact hzero.mp (hk 0 (Nat.succ_pos _)) hn0
    · obtain ⟨hv, hn0⟩ := not_or.mp hstop
      rw [sourceCoordinates, if_neg hstop, Option.isSome_map, hsucc, List.forall_mem_cons,
        and_iff_right hv]
      refine and_congr_right fun _ => ⟨fun h k hk => ?_, fun h k hk => ?_⟩
      · cases k with
        | zero => exact hzero.mpr hn0
        | succ k => exact not_dvd_mod_mul.mp (h k (Nat.lt_of_succ_lt_succ hk))
      · exact not_dvd_mod_mul.mpr (h (k + 1) (Nat.succ_lt_succ hk))

theorem length_sourceCoordinates {id n : ℕ} {vs ds : List ℕ}
    (h : sourceCoordinates id n vs = some ds) : ds.length = vs.length := by
  induction vs generalizing n ds with
  | nil => simp [sourceCoordinates] at h; simp [← h]
  | cons v vs ih =>
    rw [sourceCoordinates] at h
    split at h
    · cases h
    · obtain ⟨ds', hds', rfl⟩ := Option.map_eq_some_iff.mp h
      simp [ih hds']

/-- Where no product wraps, the coordinates are the digits of the id. -/
theorem sourceCoordinates_eq_digits (id : ℕ) {n : ℕ} (hn : 0 < n) {vs : List ℕ}
    (hvs : ∀ v ∈ vs, 2 ≤ v ∧ v ≤ 127) (hwrap : ∀ k < vs.length, n * (vs.take k).prod < 2 ^ 32) :
    sourceCoordinates id n vs = some (digits vs (id / n)) := by
  induction vs generalizing n with
  | nil => rfl
  | cons v vs ih =>
    obtain ⟨⟨htwo, hmax⟩, hvs⟩ := List.forall_mem_cons.mp hvs
    have hstop : ¬(v = 0 ∨ n = 0) := by omega
    have hbyte : id / n % v < 2 ^ 8 := (Nat.mod_lt _ (by omega)).trans_le (by omega)
    rw [sourceCoordinates, if_neg hstop, digits_cons, Nat.mod_eq_of_lt hbyte]
    cases vs with
    | nil => rfl
    | cons w vs =>
      have hwrap' : ∀ k < (w :: vs).length, n * v * ((w :: vs).take k).prod < 2 ^ 32 := by
        intro k hk
        have h := hwrap (k + 1) (Nat.succ_lt_succ hk)
        rwa [List.take_succ_cons, List.prod_cons, ← Nat.mul_assoc] at h
      have hlt : n * v < 2 ^ 32 := by simpa using hwrap' 0 (Nat.succ_pos _)
      rw [Nat.mod_eq_of_lt hlt, ih (Nat.mul_pos hn (by omega)) hvs hwrap', Option.map_some,
        Nat.div_div_eq_div_mul]

theorem combineCoordinates_eq (n : ℕ) {vs ds : List ℕ} (h : ds.length = vs.length) :
    combineCoordinates n vs ds = n * ofDigits vs ds % 2 ^ 32 := by
  induction vs generalizing n ds with
  | nil => simp [combineCoordinates]
  | cons v vs ih =>
    cases ds with
    | nil => simp at h
    | cons d ds =>
      rw [combineCoordinates, ih (n * v % 2 ^ 32) (by simpa using h), ofDigits_cons,
        Nat.mod_mul_mod, Nat.add_mod_mod]
      congr 1
      ring

theorem two_pow_log2_le {v : ℕ} (hv : 2 ≤ v) : 2 ^ Nat.log2 v ≤ v := Nat.log2_self_le (by omega)

theorem one_le_log2 {v : ℕ} (hv : 2 ≤ v) : 1 ≤ Nat.log2 v := (Nat.le_log2 (by omega)).mpr hv

theorem log2_le {v : ℕ} (hv : v ≤ 127) : Nat.log2 v ≤ 32 := by
  by_cases h0 : v = 0
  · subst h0
    decide
  · exact Nat.le_of_lt ((Nat.log2_lt h0).mpr (hv.trans_lt (by norm_num)))

/-- With two positions in each dimension the pattern applies to every coordinate, and gives them
back where the sizes are powers of two. -/
theorem destinationCoordinates_spec (pattern : BitPattern) {vs ds : List ℕ}
    (hlen : ds.length = vs.length) (hvs : ∀ v ∈ vs, 2 ≤ v ∧ v ≤ 127) :
    ∃ ds', destinationCoordinates pattern vs ds = some ds' ∧
      List.Forall₂ (fun v d => d < v) vs ds' ∧
      ((∀ v ∈ vs, ∃ b, v = 2 ^ b) → List.Forall₂ (fun v d => d < v) vs ds →
        destinationCoordinates pattern vs ds' = some ds) := by
  induction vs generalizing ds with
  | nil =>
    obtain rfl := List.length_eq_zero_iff.mp hlen
    exact ⟨[], rfl, .nil, fun _ _ => rfl⟩
  | cons v vs ih =>
    cases ds with
    | nil => simp at hlen
    | cons d ds =>
      obtain ⟨⟨htwo, hmax⟩, hvs⟩ := List.forall_mem_cons.mp hvs
      obtain ⟨ds', hds', hlt, hback⟩ := ih (by simpa using hlen) hvs
      obtain ⟨d', hd', hdlt, hdback⟩ := pattern.apply_spec (one_le_log2 htwo) (log2_le hmax) d
      have hd'v : d' < v := hdlt.trans_le (two_pow_log2_le htwo)
      refine ⟨d' :: ds', ?_, .cons hd'v hlt, ?_⟩
      · simp [destinationCoordinates, hd', hds', hd'v]
      · intro hpow hds
        obtain ⟨⟨b, hb⟩, hpow⟩ := List.forall_mem_cons.mp hpow
        obtain ⟨hdv, hds⟩ := List.forall₂_cons.mp hds
        have hdpow : d < 2 ^ Nat.log2 v := by rwa [hb, Nat.log2_two_pow, ← hb]
        simp [destinationCoordinates, hdback hdpow, hback hpow hds, hdv]

/-- A dimension with one position fails the assertion on the number of bits. -/
theorem two_le_of_destinationCoordinates {pattern : BitPattern} {vs ds ds' : List ℕ}
    (hlen : ds.length = vs.length) (h : destinationCoordinates pattern vs ds = some ds') :
    ∀ v ∈ vs, 2 ≤ v := by
  induction vs generalizing ds ds' with
  | nil => simp
  | cons v vs ih =>
    cases ds with
    | nil => simp at hlen
    | cons d ds =>
      rw [destinationCoordinates] at h
      obtain ⟨d', hd', h⟩ := Option.bind_eq_some_iff.mp h
      obtain ⟨ds'', hds'', -⟩ := Option.bind_eq_some_iff.mp h
      refine List.forall_mem_cons.mpr ⟨?_, ih (by simpa using hlen) hds''⟩
      by_contra hv
      have hlog : Nat.log2 v = 0 := by
        rw [Nat.log2_eq_log_two]
        exact Nat.log_of_lt (by omega)
      rw [hlog, pattern.apply_zero] at hd'
      cases hd'

/-! ## The destination -/

theorem destinationNodeId_eq {pattern : BitPattern} {vs src dst : List ℕ} {id : ℕ}
    (hsrc : sourceCoordinates id 1 vs = some src)
    (hdst : destinationCoordinates pattern vs src = some dst) (hlen : dst.length = vs.length) :
    destinationNodeId pattern vs id = some (ofDigits vs dst % 2 ^ 32) := by
  simp [destinationNodeId, hsrc, hdst, combineCoordinates_eq 1 hlen]

theorem take_prod_lt {vs : List ℕ} (hvs : ∀ v ∈ vs, 2 ≤ v) {k : ℕ} (hk : k < vs.length) :
    (vs.take k).prod < vs.prod := by
  have hpos : ∀ us : List ℕ, us ⊆ vs → 0 < us.prod := fun us hus =>
    List.prod_pos fun u hu => Nat.lt_of_lt_of_le Nat.two_pos (hvs u (hus hu))
  have hsplit := List.prod_take_mul_prod_drop vs k
  rw [List.drop_eq_getElem_cons hk, List.prod_cons] at hsplit
  rw [← hsplit]
  have htwo := hvs vs[k] (List.getElem_mem hk)
  have hdrop := hpos (vs.drop (k + 1)) (List.drop_subset _ _)
  exact lt_mul_of_one_lt_right (hpos _ (List.take_subset _ _))
    (htwo.trans (Nat.le_mul_of_pos_right _ hdrop))

theorem exists_prod_eq_two_pow {vs : List ℕ} (h : ∀ v ∈ vs, ∃ b, v = 2 ^ b) :
    ∃ s, vs.prod = 2 ^ s := by
  induction vs with
  | nil => exact ⟨0, rfl⟩
  | cons v vs ih =>
    obtain ⟨⟨b, hb⟩, h⟩ := List.forall_mem_cons.mp h
    obtain ⟨s, hs⟩ := ih h
    exact ⟨b + s, by rw [List.prod_cons, hb, hs, Nat.pow_add]⟩

variable {m_size : List ℕ}

theorem Fits.permutesNodes (hsize : ∀ value ∈ m_size, 1 ≤ value ∧ value ≤ 127)
    (h : Fits m_size) : PermutesNodes m_size := by
  have hvs : ∀ v ∈ m_size, 2 ≤ v ∧ v ≤ 127 := fun v hv => ⟨h.two_le v hv, (hsize v hv).2⟩
  constructor
  · intro pattern id _ _
    have hsome : (sourceCoordinates id 1 m_size).isSome := by
      rw [sourceCoordinates_isSome_iff id (by norm_num)]
      refine ⟨fun v hv => ?_, fun k hk => by simpa using h.nonzero k hk⟩
      have := h.two_le v hv
      omega
    obtain ⟨src, hsrc⟩ := Option.isSome_iff_exists.mp hsome
    obtain ⟨dst, hdst, hlt, -⟩ :=
      destinationCoordinates_spec pattern (length_sourceCoordinates hsrc) hvs
    refine ⟨_, destinationNodeId_eq hsrc hdst hlt.length_eq.symm, ?_⟩
    exact (Nat.mod_le _ _).trans_lt (ofDigits_lt hlt)
  · intro hpow pattern id _ hid
    have hprod := h.prod_le hpow
    have hwrap : ∀ k < m_size.length, 1 * (m_size.take k).prod < 2 ^ 32 := by
      intro k hk
      rw [Nat.one_mul]
      exact (take_prod_lt h.two_le hk).trans_le hprod
    have hdigits := digits_lt (fun v hv => Nat.lt_of_lt_of_le Nat.two_pos (h.two_le v hv)) id
    have hsrc := fun id => sourceCoordinates_eq_digits id Nat.one_pos hvs hwrap
    simp only [Nat.div_one] at hsrc
    obtain ⟨dst, hdst, hlt, hback⟩ :=
      destinationCoordinates_spec pattern hdigits.length_eq.symm hvs
    have hthere := destinationNodeId_eq (hsrc id) hdst hlt.length_eq.symm
    rw [Nat.mod_eq_of_lt ((ofDigits_lt hlt).trans_le hprod)] at hthere
    have hagain := hsrc (ofDigits m_size dst)
    rw [digits_ofDigits hlt] at hagain
    rw [hthere, Option.bind_some,
      destinationNodeId_eq hagain (hback hpow hdigits) hdigits.length_eq.symm,
      ofDigits_digits m_size hid, Nat.mod_eq_of_lt (hid.trans_le hprod)]

/-- Reversal keeps the zeros in front. -/
theorem destinationCoordinates_zeros {us : List ℕ} (hus : ∀ u ∈ us, 2 ≤ u ∧ u ≤ 127)
    {vs ds ds' : List ℕ} (h : destinationCoordinates .bitReverse vs ds = some ds') :
    destinationCoordinates .bitReverse (us ++ vs) ((us.map fun _ => 0) ++ ds) =
      some ((us.map fun _ => 0) ++ ds') := by
  induction us with
  | nil => exact h
  | cons u us ih =>
    obtain ⟨⟨htwo, hmax⟩, hus⟩ := List.forall_mem_cons.mp hus
    have hzero : BitPattern.bitReverse.apply 0 (Nat.log2 u) = some 0 :=
      reverseBits_zero (one_le_log2 htwo) (log2_le hmax)
    have hpos : 0 < u := Nat.lt_of_lt_of_le Nat.two_pos htwo
    simp only [List.map_cons, List.cons_append, destinationCoordinates, hzero, ih hus, bind,
      Option.bind_some, if_pos hpos]

theorem destinationNodeId_zero {vs : List ℕ} (hvs : ∀ v ∈ vs, 2 ≤ v ∧ v ≤ 127)
    (hwrap : ∀ k < vs.length, 1 * (vs.take k).prod < 2 ^ 32) :
    destinationNodeId .bitReverse vs 0 = some 0 := by
  have hsrc := sourceCoordinates_eq_digits 0 Nat.one_pos hvs hwrap
  have hdst : destinationCoordinates .bitReverse [] [] = some [] := rfl
  have hzeros := destinationCoordinates_zeros hvs hdst
  rw [Nat.zero_div, digits_zero] at hsrc
  simp only [List.append_nil] at hzeros
  have hcomb := ofDigits_zeros_append vs [] []
  simp only [List.append_nil, ofDigits_nil, Nat.mul_zero] at hcomb
  rw [destinationNodeId_eq hsrc hzeros (by simp), hcomb, Nat.zero_mod]

/-- Where the ids do not fit in 32 bits, reversal maps the first node of the last dimension's
second row to node 0, as it does node 0. -/
theorem prod_le_of_permutesNodes (hsize : ∀ value ∈ m_size, 2 ≤ value ∧ value ≤ 127)
    (hnonzero : ∀ k < m_size.length, ¬2 ^ 32 ∣ (m_size.take k).prod)
    (hpow : ∀ value ∈ m_size, ∃ b, value = 2 ^ b) (h : PermutesNodes m_size) :
    m_size.prod ≤ 2 ^ 32 := by
  by_contra hbig
  have hwrap : ∀ k < m_size.length, 1 * (m_size.take k).prod < 2 ^ 32 := by
    intro k hk
    obtain ⟨s, hs⟩ := exists_prod_eq_two_pow fun v hv => hpow v (List.mem_of_mem_take hv)
    have hdvd := hnonzero k hk
    rw [hs] at hdvd
    rw [Nat.one_mul, hs]
    exact Nat.pow_lt_pow_right (by norm_num) (Nat.lt_of_not_le fun hle =>
      hdvd (Nat.pow_dvd_pow 2 hle))
  rcases List.eq_nil_or_concat' m_size with rfl | ⟨us, w, rfl⟩
  · simp at hbig
  · have hus : ∀ u ∈ us, 2 ≤ u ∧ u ≤ 127 := fun u hu => hsize u (by simp [hu])
    obtain ⟨htwo, hmax⟩ := hsize w (by simp)
    obtain ⟨b, hb⟩ := hpow w (by simp)
    have hpow' : ∀ u ∈ us, ∃ b, u = 2 ^ b := fun u hu => hpow u (by simp [hu])
    obtain ⟨s, hs⟩ := exists_prod_eq_two_pow hpow'
    have hid : us.prod < 2 ^ 32 := by simpa using hwrap us.length (by simp)
    have hprod : us.prod < (us ++ [w]).prod := by
      rw [List.prod_append, List.prod_singleton]
      exact lt_mul_of_one_lt_right (by rw [hs]; positivity) htwo
    have hsrc := sourceCoordinates_eq_digits us.prod Nat.one_pos hsize hwrap
    have hdigits := digits_append_prod us [w]
      (fun u hu => Nat.lt_of_lt_of_le Nat.two_pos (hus u hu).1) 1
    rw [Nat.mul_one] at hdigits
    rw [Nat.div_one, hdigits, digits_cons, digits_nil, Nat.mod_eq_of_lt htwo] at hsrc
    have hlog : Nat.log2 w = b := by rw [hb, Nat.log2_two_pow]
    have hbpos : 1 ≤ b := hlog ▸ one_le_log2 htwo
    have hlast : destinationCoordinates .bitReverse [w] [1] = some [2 ^ (b - 1)] := by
      have hone : BitPattern.bitReverse.apply 1 (Nat.log2 w) = some (2 ^ (b - 1)) := by
        rw [hlog]
        exact reverseBits_one hbpos (hlog ▸ log2_le hmax)
      have hlt : 2 ^ (b - 1) < w := by
        rw [hb]
        exact Nat.pow_lt_pow_right (by norm_num) (by omega)
      simp [destinationCoordinates, hone, hlt]
    have hdst := destinationCoordinates_zeros hus hlast
    have hzero : us.prod * 2 ^ (b - 1) % 2 ^ 32 = 0 := by
      rw [List.prod_append, List.prod_singleton, hs, hb, ← Nat.pow_add, Nat.not_le,
        Nat.pow_lt_pow_iff_right (by norm_num)] at hbig
      rw [hs, ← Nat.pow_add]
      exact Nat.mod_eq_zero_of_dvd (Nat.pow_dvd_pow 2 (by omega))
    have hfirst : destinationNodeId .bitReverse (us ++ [w]) us.prod = some 0 := by
      rw [destinationNodeId_eq hsrc hdst (by simp), ofDigits_zeros_append, ofDigits_cons,
        ofDigits_nil, Nat.mul_zero, Nat.add_zero, hzero]
    have htwice := h.twice hpow .bitReverse us.prod hid hprod
    rw [hfirst, Option.bind_some, destinationNodeId_zero hsize hwrap] at htwice
    have hpos : 0 < us.prod := by rw [hs]; positivity
    exact hpos.ne (Option.some.inj htwice)

theorem fits_of_permutesNodes (hsize : ∀ value ∈ m_size, 1 ≤ value ∧ value ≤ 127)
    (h : PermutesNodes m_size) : Fits m_size := by
  have hpos : 0 < m_size.prod := List.prod_pos fun v hv => (hsize v hv).1
  obtain ⟨d, hd, -⟩ := h.below .bitReverse 0 (by norm_num) hpos
  obtain ⟨src, hsrc, hd⟩ := Option.bind_eq_some_iff.mp hd
  obtain ⟨dst, hdst, -⟩ := Option.bind_eq_some_iff.mp hd
  have htwo := two_le_of_destinationCoordinates (length_sourceCoordinates hsrc) hdst
  have hone : 1 < 2 ^ 32 := by norm_num
  have hsome := (sourceCoordinates_isSome_iff 0 hone m_size).mp (by rw [hsrc]; rfl)
  have hnonzero : ∀ k < m_size.length, ¬2 ^ 32 ∣ (m_size.take k).prod := by
    simpa using hsome.2
  exact ⟨htwo, hnonzero, fun hpow => prod_le_of_permutesNodes
    (fun v hv => ⟨htwo v hv, (hsize v hv).2⟩) hnonzero hpow h⟩

/-- The bit patterns map nodes to nodes, and are involutions on powers of two, exactly for the
sizes that fit. -/
theorem permutesNodes_iff_fits (m_size : List ℕ)
    (hsize : ∀ value ∈ m_size, 1 ≤ value ∧ value ≤ 127) :
    PermutesNodes m_size ↔ Fits m_size :=
  ⟨fits_of_permutesNodes hsize, Fits.permutesNodes hsize⟩

theorem permutesNodes_iff_fits_four_by_four : PermutesNodes [4, 4] ↔ Fits [4, 4] :=
  permutesNodes_iff_fits [4, 4] (by decide)

/-- A dimension with one position has no bits to permute. -/
theorem not_permutesNodes_single_row :
    ¬∀ m_size : List ℕ, (∀ value ∈ m_size, 1 ≤ value ∧ value ≤ 127) → PermutesNodes m_size := by
  intro h
  obtain ⟨d, hd, -⟩ := (h [4, 1] (by decide)).below .bitComplement 0 (by decide) (by decide)
  have hstop : destinationNodeId .bitComplement [4, 1] 0 = none := by decide
  rw [hstop] at hd
  cases hd

end Ns3Noc.SyncDestinations

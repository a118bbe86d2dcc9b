import Ns3Noc.Ipv6Fragmentation

/-!
# Lossless fragments

What the two loops of `GetFragments` compute, and when its fragments carry the whole packet.
-/
namespace Ns3Noc.Ipv6

open OffsetCuts ExtensionHeader

/-! ## The loop over the headers -/

variable {upper next : UInt8} {header : ExtensionHeader} {headers : List ExtensionHeader}
  {p payload : Bytes} {fuel : ℕ}

/-- The number of none of the extension headers that are read. -/
def IsUpper (upper : UInt8) : Prop :=
  upper ≠ IPV6_EXT_HOP_BY_HOP ∧ upper ≠ IPV6_EXT_ROUTING ∧ upper ≠ IPV6_EXT_DESTINATION

theorem moreHeader_upper (h : IsUpper upper) (p : Bytes) : moreHeader upper p = false := by
  rw [moreHeader, decide_eq_false h.1, decide_eq_false h.2.1, decide_eq_false h.2.2]
  rfl

theorem moreHeader_number (header : ExtensionHeader) (rest : Bytes) :
    moreHeader header.number (header.serialize ++ rest) = header.isUnfragmentable := by
  cases header with
  | hopByHop => rfl
  | routing => rfl
  | destination next length optionData =>
    rw [isUnfragmentable, moreHeader, serialize, number]
    exact congrArg (true && ·) (decide_eq_decide.mpr Option.some_inj)

theorem moreHeader_linked (hupper : IsUpper upper) (h : Linked upper next headers) (payload : Bytes) :
    moreHeader next (headers.flatMap serialize ++ payload) =
      (headers.head?.map isUnfragmentable).getD false := by
  cases headers with
  | nil =>
    obtain rfl := h
    exact moreHeader_upper hupper _
  | cons header headers =>
    obtain ⟨rfl, -⟩ := h
    rw [List.flatMap_cons, List.append_assoc, moreHeader_number]
    rfl

/-- The number of the first header that is cut. -/
def numberAfter (upper : UInt8) (headers : List ExtensionHeader) : UInt8 :=
  ((headers.dropWhile isUnfragmentable).head?.map number).getD upper

theorem linked_head (h : Linked upper next headers) :
    next = (headers.head?.map number).getD upper := by
  cases headers with
  | nil => exact h
  | cons header headers => exact h.1

theorem beforeFragment_cons_cons (header second : ExtensionHeader) (rest : List ExtensionHeader) :
    beforeFragment (header :: second :: rest) = header :: beforeFragment (second :: rest) := by
  rw [beforeFragment, List.dropLast_cons_cons, List.getLast?_cons_cons, List.cons_append,
    beforeFragment]

/-- The loop reads the unfragmentable headers and leaves the fragmentable part. -/
theorem headerLoop_eq (hupper : IsUpper upper) (hlinked : Linked upper next (header :: headers))
    (hwell : ∀ h ∈ header :: headers, h.WellFormed) (hfirst : header.isUnfragmentable = true)
    (hfuel : headers.length < fuel) :
    headerLoop fuel next ((header :: headers).flatMap serialize ++ payload) = some
      ⟨beforeFragment ((header :: headers).takeWhile isUnfragmentable),
        (((header :: headers).takeWhile isUnfragmentable).map (getLength · % 256)).sum,
        numberAfter upper (header :: headers),
        ((header :: headers).dropWhile isUnfragmentable).flatMap serialize ++ payload⟩ := by
  induction headers generalizing header next fuel with
  | nil =>
    obtain ⟨fuel, rfl⟩ := Nat.exists_eq_succ_of_ne_zero (Nat.ne_of_gt hfuel)
    obtain ⟨rfl, hnext⟩ := hlinked
    have hmore := moreHeader_linked hupper hnext payload
    rw [List.flatMap_cons, List.append_assoc, headerLoop,
      (hwell header List.mem_cons_self).remove_serialize, Option.bind_some]
    dsimp only
    rw [if_neg (by rw [hmore]; exact Bool.false_ne_true), List.takeWhile_cons_of_pos hfirst,
      List.dropWhile_cons_of_pos hfirst, numberAfter, List.dropWhile_cons_of_pos hfirst, hnext]
    rfl
  | cons second headers ih =>
    obtain ⟨fuel, rfl⟩ := Nat.exists_eq_succ_of_ne_zero (Nat.ne_of_gt (Nat.zero_lt_of_lt hfuel))
    obtain ⟨rfl, hnext⟩ := hlinked
    have hmore := moreHeader_linked hupper hnext payload
    rw [List.head?_cons, Option.map_some, Option.getD_some] at hmore
    rw [List.flatMap_cons, List.append_assoc, headerLoop,
      (hwell header List.mem_cons_self).remove_serialize, Option.bind_some]
    dsimp only
    rw [hmore, List.takeWhile_cons_of_pos hfirst, List.dropWhile_cons_of_pos hfirst, numberAfter,
      List.dropWhile_cons_of_pos hfirst]
    cases hsecond : second.isUnfragmentable with
    | false =>
      have hneg : ¬second.isUnfragmentable = true := by rw [hsecond]; exact Bool.false_ne_true
      rw [if_neg Bool.false_ne_true, List.takeWhile_cons_of_neg hneg,
        List.dropWhile_cons_of_neg hneg, linked_head hnext]
      rfl
    | true =>
      rw [if_pos rfl, ih hnext (fun h hh => hwell h (List.mem_cons_of_mem _ hh)) hsecond
        (Nat.lt_of_succ_lt_succ hfuel), Option.map_some, List.takeWhile_cons_of_pos hsecond,
        beforeFragment_cons_cons, List.map_cons, List.sum_cons, numberAfter]
      rfl

/-! ## The loop that cuts -/

/-- The pieces that are cut off with room for `max` bytes in each fragment. -/
inductive Cut (max : ℕ) : Bytes → List Bytes → Prop
  | last {p : Bytes} (h : p.length ≤ max) : Cut max p [p.take (p.length - p.length % 8)]
  | more {p : Bytes} {pieces : List Bytes} (h : max < p.length)
      (rest : Cut max (p.drop (max - max % 8)) pieces) :
      Cut max p (p.take (max - max % 8) :: pieces)

variable {max : ℕ} {pieces : List Bytes}

theorem Cut.ne_nil (h : Cut max p pieces) : pieces ≠ [] := by
  cases h with
  | last => exact List.cons_ne_nil _ _
  | more => exact List.cons_ne_nil _ _

/-- The bytes behind the last multiple of eight are lost. -/
theorem Cut.flatten (h : Cut max p pieces) :
    pieces.flatten = p.take (p.length - p.length % 8) := by
  induction h with
  | last h => rw [List.flatten_singleton]
  | @more p pieces h rest ih =>
    have hlen : p.length - p.length % 8 =
        max - max % 8 + ((p.drop (max - max % 8)).length - (p.drop (max - max % 8)).length % 8) := by
      rw [List.length_drop]
      omega
    rw [List.flatten_cons, ih, hlen, List.take_add]

theorem Cut.length_le (h : Cut max p pieces) : ∀ piece ∈ pieces,
    piece.length ≤ max ∧ piece.length ≤ p.length ∧ piece.length % 8 = 0 := by
  induction h with
  | last h =>
    intro piece hpiece
    rw [List.mem_singleton.mp hpiece, List.length_take]
    omega
  | more h rest ih =>
    intro piece hpiece
    rcases List.mem_cons.mp hpiece with rfl | hpiece
    · rw [List.length_take]
      omega
    · have hrest := ih piece hpiece
      rw [List.length_drop] at hrest
      omega

theorem offset_mod_eight (h : ∀ piece ∈ pieces, piece.length % 8 = 0) (j : ℕ) :
    OffsetCuts.offset pieces j % 8 = 0 := by
  induction pieces generalizing j with
  | nil => rw [OffsetCuts.offset, List.take_nil]; rfl
  | cons piece pieces ih =>
    cases j with
    | zero => rfl
    | succ j =>
      have hpiece := h piece List.mem_cons_self
      have hrest := ih (fun q hq => h q (List.mem_cons_of_mem _ hq)) j
      rw [OffsetCuts.offset] at hrest
      rw [OffsetCuts.offset, List.take_succ_cons, List.flatten_cons, List.length_append]
      omega

/-- The fragments with the given pieces, from an offset on. -/
def fragmentsFrom (make : ℕ → Bool → Bytes → Bytes) : ℕ → List Bytes → List Bytes
  | _, [] => []
  | offset, piece :: pieces =>
    make offset (decide (pieces ≠ [])) piece :: fragmentsFrom make (offset + piece.length) pieces

variable {make : ℕ → Bool → Bytes → Bytes}

theorem length_fragmentsFrom (make : ℕ → Bool → Bytes → Bytes) (offset : ℕ) (pieces : List Bytes) :
    (fragmentsFrom make offset pieces).length = pieces.length := by
  induction pieces generalizing offset with
  | nil => rfl
  | cons piece pieces ih => rw [fragmentsFrom, List.length_cons, List.length_cons, ih]

theorem getElem?_fragmentsFrom (make : ℕ → Bool → Bytes → Bytes) (offset : ℕ)
    (pieces : List Bytes) (j : ℕ) (hj : j < pieces.length) :
    (fragmentsFrom make offset pieces)[j]? = some
      (make (offset + OffsetCuts.offset pieces j) (decide (j + 1 < pieces.length))
        (pieces.getD j [])) := by
  induction pieces generalizing offset j with
  | nil => exact absurd hj (Nat.not_lt_zero _)
  | cons piece pieces ih =>
    cases j with
    | zero =>
      have hmore : decide (pieces ≠ []) = decide (0 + 1 < (piece :: pieces).length) := by
        rw [List.length_cons, decide_eq_decide, ← List.length_pos_iff]
        omega
      rw [fragmentsFrom, List.getElem?_cons_zero, hmore]
      rfl
    | succ j =>
      have hoff : offset + piece.length + OffsetCuts.offset pieces j =
          offset + OffsetCuts.offset (piece :: pieces) (j + 1) := by
        rw [OffsetCuts.offset, OffsetCuts.offset, List.take_succ_cons, List.flatten_cons,
          List.length_append, Nat.add_assoc]
      have hmore : decide (j + 1 < pieces.length) =
          decide (j + 1 + 1 < (piece :: pieces).length) := by
        rw [List.length_cons, decide_eq_decide]
        omega
      rw [fragmentsFrom, List.getElem?_cons_succ,
        ih _ j (Nat.lt_of_succ_lt_succ hj), hoff, hmore, List.getD_cons_succ]

/-- The fragment header is written anew in each round. -/
theorem forFragment_eq (fragmentHeader : FragmentHeader) (nextHeader : UInt8)
    (identification offset size : ℕ) (moreFragment : Bool) :
    fragmentHeader.forFragment nextHeader identification offset size moreFragment =
      ⟨nextHeader, UInt8.ofNat (size % 65536 / 8 + 255),
        offset / 8 * 8 + if moreFragment then 1 else 0, identification⟩ := by
  rw [FragmentHeader.forFragment, FragmentHeader.setOffset, FragmentHeader.setMoreFragment]
  dsimp only
  congr 1
  omega

/-- A fragment as the loop makes it. -/
def makeFragment (ipv6Header : Ipv6Header) (split : Split) (identification offset : ℕ)
    (moreFragment : Bool) (data : Bytes) : Bytes :=
  addHeaders ipv6Header split.unfragmentablePart
    ⟨split.nextHeader, UInt8.ofNat (data.length % 65536 / 8 + 255),
      offset / 8 * 8 + if moreFragment then 1 else 0, identification⟩ data

variable {ipv6Header : Ipv6Header} {split : Split} {identification offset : ℕ}
  {fragmentHeader : FragmentHeader}

/-- The loop terminates, and its fragments carry the pieces of the cut. -/
theorem fragmentLoop_eq (max fuel offset : ℕ) (hmax : 8 ≤ max) (hlen : split.p.length < 65536)
    (hle : offset ≤ split.p.length) (hwrap : offset + max < 4294967296)
    (hfuel : split.p.length - offset < fuel) :
    ∃ pieces, Cut max (split.p.drop offset) pieces ∧
      fragmentLoop ipv6Header split max identification fuel fragmentHeader offset =
        some (fragmentsFrom (makeFragment ipv6Header split identification) offset pieces) := by
  induction fuel generalizing offset fragmentHeader with
  | zero => exact absurd hfuel (Nat.not_lt_zero _)
  | succ fuel ih =>
    rw [fragmentLoop, Nat.mod_eq_of_lt hwrap, forFragment_eq]
    have hdrop : (split.p.drop offset).length = split.p.length - offset := List.length_drop
    by_cases hmore : offset + max < split.p.length
    · have hsize : ((split.p.drop offset).take (max - max % 8)).length = max - max % 8 := by
        rw [List.length_take, hdrop]
        omega
      have hnext : (offset + (max - max % 8)) % 65536 = offset + (max - max % 8) :=
        Nat.mod_eq_of_lt (by omega)
      rw [decide_eq_true hmore, if_pos rfl, if_pos rfl, hnext]
      obtain ⟨pieces, hcut, hloop⟩ := ih (offset + (max - max % 8)) (by omega) (by omega) (by omega)
      refine ⟨(split.p.drop offset).take (max - max % 8) :: pieces,
        .more (by omega) (by rwa [List.drop_drop]), ?_⟩
      rw [hloop, Option.map_some, fragmentsFrom, makeFragment, hsize, decide_eq_true hcut.ne_nil]
    · rw [decide_eq_false hmore, if_neg Bool.false_ne_true, if_neg Bool.false_ne_true, ← hdrop]
      refine ⟨[_], .last (by omega), ?_⟩
      have hsize : ((split.p.drop offset).take
          ((split.p.drop offset).length - (split.p.drop offset).length % 8)).length =
            (split.p.drop offset).length - (split.p.drop offset).length % 8 := by
        rw [List.length_take]
        omega
      rw [fragmentsFrom, makeFragment, hsize]
      rfl

/-! ## `GetFragments` -/

theorem foldl_serialize (headers : List ExtensionHeader) (fragment : Bytes) :
    headers.foldl (fun fragment header => header.serialize ++ fragment) fragment =
      headers.reverse.flatMap serialize ++ fragment := by
  induction headers generalizing fragment with
  | nil => rfl
  | cons header headers ih =>
    rw [List.foldl_cons, ih, List.reverse_cons, List.flatMap_append, List.flatMap_singleton,
      List.append_assoc]

namespace Datagram

variable {d : Datagram} {maxFragmentSize : ℕ}

theorem isUpper (d : Datagram) : IsUpper d.upper :=
  ⟨d.upper_hopByHop, d.upper_routing, d.upper_destination⟩

/-- What the loop over the headers of the datagram leaves. -/
def readSplit (d : Datagram) : Split where
  unfragmentablePart := beforeFragment d.unfragmentable
  unfragmentablePartSize := (d.unfragmentable.map (getLength · % 256)).sum
  nextHeader := d.fragmentableNumber
  p := d.fragmentable

/-- The IPv6 header in front of each fragment, its payload length apart. -/
def fragmentIpv6Header (d : Datagram) : Ipv6Header :=
  { d.ipv6Header with
    nextHeader := (d.unfragmentable.head?.map number).getD IPV6_EXT_FRAGMENTATION }

theorem wellFormed_unfragmentable (d : Datagram) :
    ∀ header ∈ d.unfragmentable, header.WellFormed :=
  fun header h => d.wellFormed header ((List.takeWhile_sublist _).subset h)

theorem length_flatMap_serialize (h : ∀ header ∈ headers, header.WellFormed) :
    (headers.flatMap serialize).length = (headers.map getLength).sum := by
  induction headers with
  | nil => rfl
  | cons header headers ih =>
    rw [List.flatMap_cons, List.length_append, (h header List.mem_cons_self).length_serialize,
      ih fun h' hh => h h' (List.mem_cons_of_mem _ hh), List.map_cons, List.sum_cons]

theorem length_le_flatMap_serialize (headers : List ExtensionHeader) :
    headers.length ≤ (headers.flatMap serialize).length := by
  induction headers with
  | nil => exact Nat.zero_le _
  | cons header headers ih =>
    rw [List.flatMap_cons, List.length_append, serialize_eq_cons, List.length_cons, List.length_cons]
    omega

/-- The unfragmentable headers and the fragmentable part are what is behind the fixed header. -/
theorem unfragmentableSize_add (d : Datagram) :
    d.unfragmentableSize + d.fragmentable.length =
      (d.headers.flatMap serialize ++ d.payload).length := by
  have hparts : d.headers.flatMap serialize = d.unfragmentable.flatMap serialize ++
      (d.headers.dropWhile isUnfragmentable).flatMap serialize := by
    rw [unfragmentable, ← List.flatMap_append, List.takeWhile_append_dropWhile]
  rw [unfragmentableSize, ← length_flatMap_serialize d.wellFormed_unfragmentable, fragmentable,
    hparts, List.append_assoc, ← List.length_append]

theorem length_fragmentable_lt (d : Datagram) : d.fragmentable.length < 65536 := by
  have hsum := d.unfragmentableSize_add
  have hlt := d.length_lt
  omega

theorem sum_mod_le (headers : List ExtensionHeader) :
    (headers.map (getLength · % 256)).sum ≤ (headers.map getLength).sum := by
  induction headers with
  | nil => exact le_rfl
  | cons header headers ih =>
    rw [List.map_cons, List.map_cons, List.sum_cons, List.sum_cons]
    exact Nat.add_le_add (Nat.mod_le _ _) ih

/-- Whether the loop over the headers runs, what it leaves, and the number of the first header. -/
theorem read_eq (d : Datagram) (fuel : ℕ) (hfuel : d.headers.length ≤ fuel) :
    ∃ more : Bool, moreHeader d.ipv6Header.nextHeader
        (d.headers.flatMap serialize ++ d.payload) = more ∧
      (if more then d.ipv6Header
        else { d.ipv6Header with nextHeader := IPV6_EXT_FRAGMENTATION }) = d.fragmentIpv6Header ∧
      (if more then headerLoop fuel d.ipv6Header.nextHeader
          (d.headers.flatMap serialize ++ d.payload)
        else some ⟨[], 0, d.ipv6Header.nextHeader, d.headers.flatMap serialize ++ d.payload⟩) =
        some d.readSplit := by
  refine ⟨_, moreHeader_linked d.isUpper d.linked d.payload, ?_⟩
  have hlinked := d.linked
  have hwell := d.wellFormed
  have hhead := linked_head hlinked
  rw [fragmentIpv6Header, readSplit, fragmentableNumber, fragmentable, unfragmentable]
  cases hheaders : d.headers with
  | nil =>
    rw [hheaders] at hhead
    rw [hhead]
    exact ⟨rfl, rfl⟩
  | cons header headers =>
    rw [hheaders] at hlinked hwell hfuel hhead
    cases hfirst : header.isUnfragmentable with
    | false =>
      have hneg : ¬header.isUnfragmentable = true := by rw [hfirst]; exact Bool.false_ne_true
      rw [List.head?_cons, Option.map_some, hfirst, Option.getD_some, List.takeWhile_cons_of_neg hneg,
        List.dropWhile_cons_of_neg hneg, if_neg Bool.false_ne_true, if_neg Bool.false_ne_true, hhead]
      exact ⟨rfl, rfl⟩
    | true =>
      rw [headerLoop_eq d.isUpper hlinked hwell hfirst hfuel, List.head?_cons, Option.map_some,
        hfirst, Option.getD_some, if_pos rfl, if_pos rfl, numberAfter]
      refine ⟨?_, rfl⟩
      rw [List.takeWhile_cons_of_pos hfirst, List.head?_cons, Option.map_some, Option.getD_some,
        ← hlinked.1]

/-- With enough fuel, the fragments carry the pieces of the cut. -/
theorem getFragments_eq (d : Datagram) (identification : ℕ)
    (hroom : 56 + d.unfragmentableSize ≤ maxFragmentSize) (hmax : maxFragmentSize < 4294967296)
    (hfuel : d.packet.length < fuel) :
    ∃ pieces, Cut (maxFragmentSize - (48 + d.readSplit.unfragmentablePartSize)) d.fragmentable
        pieces ∧
      getFragments fuel d.packet maxFragmentSize identification =
        some (fragmentsFrom (makeFragment d.fragmentIpv6Header d.readSplit identification) 0
          pieces) := by
  have hsize : d.readSplit.unfragmentablePartSize ≤ d.unfragmentableSize := sum_mod_le _
  have hlen : d.packet.length = 40 + (d.unfragmentableSize + d.fragmentable.length) := by
    rw [packet, List.length_append, d.length_head, d.unfragmentableSize_add]
  have hdrop : d.packet.drop 40 = d.headers.flatMap serialize ++ d.payload :=
    List.drop_left' d.length_head
  have hheaders := length_le_flatMap_serialize d.headers
  have hsum := d.unfragmentableSize_add
  rw [List.length_append] at hsum
  obtain ⟨more, hmore, hipv6, hsplit⟩ := d.read_eq fuel (by omega)
  have hpart : (maxFragmentSize + 4294967296 -
      (48 + d.readSplit.unfragmentablePartSize) % 4294967296) % 4294967296 =
        maxFragmentSize - (48 + d.readSplit.unfragmentablePartSize) := by
    omega
  have hlt : d.readSplit.p.length < 65536 := d.length_fragmentable_lt
  have hp : d.readSplit.p.length = d.fragmentable.length := rfl
  obtain ⟨pieces, hcut, hloop⟩ := fragmentLoop_eq
    (maxFragmentSize - (48 + d.readSplit.unfragmentablePartSize)) fuel 0 (by omega) hlt (Nat.zero_le _)
    (by omega) (by omega)
  refine ⟨pieces, hcut, ?_⟩
  rw [getFragments, hdrop, packet, Ipv6Header.deserialize_append d.deserialize_head,
    Option.bind_some]
  dsimp only
  rw [hmore, hipv6, hsplit, Option.bind_some, hpart, hloop]

/-! ## Lossless fragments -/

variable {identification' offset' : ℕ} {more more' : Bool} {data data' : Bytes}

/-- A fragment of the datagram, as the loop makes it. -/
def made (d : Datagram) (identification offset : ℕ) (more : Bool) (data : Bytes) : Bytes :=
  makeFragment d.fragmentIpv6Header d.readSplit identification offset more data

/-- The headers come in the order in which they were added, the last one first. -/
theorem made_eq (d : Datagram) (identification offset : ℕ) (more : Bool) (data : Bytes) :
    ∃ ipv6Header : Ipv6Header,
      d.made identification offset more data = ipv6Header.serialize ++
        ((beforeFragment d.unfragmentable).reverse.flatMap serialize ++
          ((FragmentHeader.mk d.fragmentableNumber (UInt8.ofNat (data.length % 65536 / 8 + 255))
            (offset / 8 * 8 + if more then 1 else 0) identification).serialize ++ data)) ∧
      ipv6Header = { d.fragmentIpv6Header with
        payloadLength := ((d.made identification offset more data).length - 40) % 65536 } := by
  have hlen : ∀ fragment : Bytes, ({ d.fragmentIpv6Header with
      payloadLength := fragment.length % 65536 }.serialize ++ fragment).length - 40 =
        fragment.length := by
    intro fragment
    rw [List.length_append, Ipv6Header.length_serialize, Nat.add_sub_cancel_left]
  rw [made, makeFragment, addHeaders, foldl_serialize]
  dsimp only
  rw [hlen]
  exact ⟨_, rfl, rfl⟩

theorem map_getLength_beforeFragment (headers : List ExtensionHeader) :
    (beforeFragment headers).map getLength = headers.map getLength := by
  induction headers with
  | nil => rfl
  | cons header headers ih =>
    cases headers with
    | nil => exact congrArg (List.cons · []) (getLength_setNextHeader _ header)
    | cons second rest => rw [beforeFragment_cons_cons, List.map_cons, List.map_cons, ih]

theorem wellFormed_beforeFragment (h : ∀ header ∈ headers, header.WellFormed) :
    ∀ header ∈ beforeFragment headers, header.WellFormed := by
  induction headers with
  | nil => exact fun _ hmem => absurd hmem List.not_mem_nil
  | cons header headers ih =>
    have hheader := h header List.mem_cons_self
    cases headers with
    | nil =>
      intro header' hmem
      rw [List.mem_singleton.mp hmem]
      exact hheader.setNextHeader _
    | cons second rest =>
      intro header' hmem
      rw [beforeFragment_cons_cons] at hmem
      rcases List.mem_cons.mp hmem with rfl | hmem
      · exact hheader
      · exact ih (fun h' hh => h h' (List.mem_cons_of_mem _ hh)) header' hmem

theorem length_beforeFragment (d : Datagram) :
    ((beforeFragment d.unfragmentable).reverse.flatMap serialize).length =
      d.unfragmentableSize := by
  have hwell := wellFormed_beforeFragment d.wellFormed_unfragmentable
  rw [length_flatMap_serialize fun header h => hwell header (List.mem_reverse.mp h),
    List.map_reverse, List.sum_reverse, map_getLength_beforeFragment, unfragmentableSize]

theorem length_made (d : Datagram) (identification offset : ℕ) (more : Bool) (data : Bytes) :
    (d.made identification offset more data).length = 48 + d.unfragmentableSize + data.length := by
  obtain ⟨ipv6Header, hmade, -⟩ := d.made_eq identification offset more data
  rw [hmade, List.length_append, Ipv6Header.length_serialize, List.length_append,
    d.length_beforeFragment, List.length_append, FragmentHeader.length_serialize]
  omega

/-- One header or none is in its place. -/
theorem reverse_beforeFragment (hone : headers.length ≤ 1) :
    (beforeFragment headers).reverse = beforeFragment headers := by
  match headers, hone with
  | [], _ => rfl
  | [header], _ => rfl

theorem carries_made (hone : d.unfragmentable.length ≤ 1) (hoffset : offset % 8 = 0) :
    d.Carries identification offset more data (d.made identification offset more data) := by
  obtain ⟨ipv6Header, hmade, hipv6⟩ := d.made_eq identification offset more data
  rw [reverse_beforeFragment hone] at hmade
  refine ⟨ipv6Header, _, hmade, ?_, ?_, ?_, ?_, ?_, rfl, rfl, ?_, ?_⟩
  · rw [hipv6, fragmentIpv6Header]
  · rw [hipv6, fragmentIpv6Header]
  · rw [hipv6, fragmentIpv6Header]
  · rw [hipv6]
  · rw [hipv6, fragmentIpv6Header]
  · rw [FragmentHeader.getOffset]
    dsimp only
    split <;> omega
  · rw [FragmentHeader.getMoreFragment]
    cases more with
    | false =>
      rw [if_neg Bool.false_ne_true]
      exact decide_eq_false (by dsimp only; omega)
    | true =>
      rw [if_pos rfl]
      exact decide_eq_true (by dsimp only; omega)

theorem beforeFragment_eq_concat (header : ExtensionHeader) (headers : List ExtensionHeader) :
    ∃ front last, beforeFragment (header :: headers) =
      front ++ [setNextHeader IPV6_EXT_FRAGMENTATION last] := by
  rw [beforeFragment, List.getLast?_cons]
  exact ⟨_, _, rfl⟩

theorem head?_flatMap_serialize (header : ExtensionHeader) (headers : List ExtensionHeader)
    (rest : Bytes) :
    ((header :: headers).flatMap serialize ++ rest).head? = some header.nextHeader := by
  rw [List.flatMap_cons, serialize_eq_cons]
  rfl

theorem head?_reverse_beforeFragment (header : ExtensionHeader) (headers : List ExtensionHeader)
    (rest : Bytes) :
    ((beforeFragment (header :: headers)).reverse.flatMap serialize ++ rest).head? =
      some IPV6_EXT_FRAGMENTATION := by
  obtain ⟨front, last, hlast⟩ := beforeFragment_eq_concat header headers
  rw [hlast, List.reverse_append, List.reverse_singleton, List.singleton_append,
    head?_flatMap_serialize, nextHeader_setNextHeader]

/-- Two headers in front of the fragment header come in the wrong order: the first one in the bytes
is the one in front of the fragment header. -/
theorem Carries.one_header (h : d.Carries identification' offset' more' data'
    (d.made identification offset more data)) : d.unfragmentable.length ≤ 1 := by
  by_contra hmany
  obtain ⟨ipv6Header, hmade, -⟩ := d.made_eq identification offset more data
  obtain ⟨ipv6Header', fragmentHeader, hcarries, -⟩ := h
  rw [hmade] at hcarries
  have hbehind := congrArg List.head? (List.append_inj hcarries
    (by rw [Ipv6Header.length_serialize, Ipv6Header.length_serialize])).2
  have hsplit : d.unfragmentable ++ d.headers.dropWhile isUnfragmentable = d.headers :=
    List.takeWhile_append_dropWhile
  have hlinked := d.linked
  rw [← hsplit] at hlinked
  match hunf : d.unfragmentable with
  | [] => exact hmany (by rw [hunf]; exact Nat.zero_le 1)
  | [header] => exact hmany (by rw [hunf]; exact le_rfl)
  | first :: second :: rest =>
    rw [hunf] at hlinked hbehind
    have hnext : first.nextHeader = second.number := hlinked.2.1
    rw [head?_reverse_beforeFragment, beforeFragment_cons_cons, head?_flatMap_serialize, hnext]
      at hbehind
    cases second <;> cases hbehind

theorem Carries.data_eq (hone : d.unfragmentable.length ≤ 1)
    (h : d.Carries identification' offset' more' data' (d.made identification offset more data)) :
    data' = data := by
  obtain ⟨ipv6Header, hmade, -⟩ := d.made_eq identification offset more data
  obtain ⟨ipv6Header', fragmentHeader, hcarries, -⟩ := h
  rw [hmade, reverse_beforeFragment hone] at hcarries
  have hbehind := (List.append_inj hcarries (by rw [Ipv6Header.length_serialize,
    Ipv6Header.length_serialize])).2
  have hfragment := List.append_cancel_left hbehind
  exact (List.append_inj hfragment rfl).2.symm

theorem unfragmentablePartSize_of_one (d : Datagram) (hone : d.unfragmentable.length ≤ 1) :
    d.readSplit.unfragmentablePartSize = d.unfragmentableSize % 256 := by
  rw [readSplit, unfragmentableSize]
  match d.unfragmentable, hone with
  | [], _ => rfl
  | [header], _ => rfl

/-- At most one header is in front of what is cut, this is a multiple of eight bytes long, and the
header is shorter than 256 bytes or everything fits into one fragment. -/
def CutsWhole (d : Datagram) (maxFragmentSize : ℕ) : Prop :=
  d.unfragmentable.length ≤ 1 ∧ d.fragmentable.length % 8 = 0 ∧
    (d.unfragmentableSize < 256 ∨
      48 + d.unfragmentableSize + d.fragmentable.length ≤ maxFragmentSize)

/-- `GetFragments` terminates with fragments that carry the whole packet exactly for the packets
that are cut whole. -/
theorem lossless_iff (d : Datagram) (identification : ℕ)
    (hroom : 56 + d.unfragmentableSize ≤ maxFragmentSize) (hmax : maxFragmentSize < 4294967296) :
    (∃ fuel, ∀ fuel' ≥ fuel, ∃ fragments,
      getFragments fuel' d.packet maxFragmentSize identification = some fragments ∧
        d.Lossless maxFragmentSize identification fragments) ↔ d.CutsWhole maxFragmentSize := by
  constructor
  · rintro ⟨fuel, hlossless⟩
    obtain ⟨fragments, hfragments, pieces', hne, hlen, hflatten, hall⟩ :=
      hlossless (max fuel (d.packet.length + 1)) (Nat.le_max_left _ _)
    obtain ⟨pieces, hcut, heq⟩ := d.getFragments_eq identification hroom hmax
      (Nat.lt_of_lt_of_le (Nat.lt_succ_self _) (Nat.le_max_right fuel _))
    obtain rfl := Option.some.inj (hfragments.symm.trans heq)
    rw [length_fragmentsFrom] at hlen
    have hpos : 0 < pieces.length := List.length_pos_iff.mpr hcut.ne_nil
    have hget : ∀ j < pieces.length, _ := fun j hj =>
      hall j _ (getElem?_fragmentsFrom (makeFragment d.fragmentIpv6Header d.readSplit identification)
        0 pieces j hj)
    have hone : d.unfragmentable.length ≤ 1 := (hget 0 hpos).2.2.one_header
    have hpieces : pieces' = pieces := by
      apply List.ext_getElem hlen.symm
      intro j hj' hj
      have hdata := (hget j hj).2.2.data_eq hone
      rwa [getD_of_lt hj', getD_of_lt hj] at hdata
    subst hpieces
    have hlength := congrArg List.length (hflatten.symm.trans hcut.flatten)
    rw [List.length_take] at hlength
    refine ⟨hone, by omega, ?_⟩
    by_contra hsize
    have hfirst := (hget 0 hpos).1
    change (d.made identification _ _ _).length ≤ _ at hfirst
    rw [length_made] at hfirst
    have hpart := d.unfragmentablePartSize_of_one hone
    cases hcut with
    | last h =>
      rw [List.getD_cons_zero, List.length_take] at hfirst
      omega
    | more h rest =>
      rw [List.getD_cons_zero, List.length_take] at hfirst
      omega
  · rintro ⟨hone, hmod, hsize⟩
    refine ⟨d.packet.length + 1, fun fuel hfuel => ?_⟩
    obtain ⟨pieces, hcut, heq⟩ := d.getFragments_eq identification hroom hmax hfuel
    have hlengths := hcut.length_le
    have hpart := d.unfragmentablePartSize_of_one hone
    refine ⟨_, heq, pieces, hcut.ne_nil, length_fragmentsFrom _ _ _, ?_, fun j fragment hj => ?_⟩
    · rw [hcut.flatten, hmod, Nat.sub_zero, List.take_length]
    · have hlt : j < pieces.length := by
        have hsome := (List.getElem?_eq_some_iff.mp hj).1
        rwa [length_fragmentsFrom] at hsome
      rw [getElem?_fragmentsFrom _ _ _ _ hlt, Option.mem_some_iff, Nat.zero_add] at hj
      subst hj
      have hoffset := offset_mod_eight (fun piece hpiece => (hlengths piece hpiece).2.2) j
      refine ⟨?_, hoffset, carries_made hone hoffset⟩
      have hpiece := hlengths (pieces.getD j []) (by rw [getD_of_lt hlt]; exact List.getElem_mem hlt)
      change (d.made identification _ _ _).length ≤ _
      rw [length_made]
      omega

/-- The fixed header of a packet to oneself. -/
def fixedHeader (nextHeader : UInt8) : Ipv6Header :=
  ⟨0, 0, 0, nextHeader, 64, Vector.replicate 16 1, Vector.replicate 16 1⟩

/-- A payload behind the fixed header. -/
def plain (payload : Bytes) (h : payload.length < 65536) : Datagram where
  head := (fixedHeader 17).serialize
  ipv6Header := { fixedHeader 17 with flowLabel := 6 <<< 28 }
  headers := []
  upper := 17
  payload
  length_head := Ipv6Header.length_serialize _
  deserialize_head := by decide +kernel
  wellFormed _ h := absurd h List.not_mem_nil
  linked := rfl
  upper_hopByHop := by decide
  upper_routing := by decide
  upper_destination := by decide
  length_lt := h

theorem lossless_sixteen_bytes : ∃ fuel, ∀ fuel' ≥ fuel, ∃ fragments,
    getFragments fuel' (plain (List.replicate 16 5) (by decide)).packet 56 7 = some fragments ∧
      (plain (List.replicate 16 5) (by decide)).Lossless 56 7 fragments :=
  (lossless_iff (plain (List.replicate 16 5) (by decide)) 7 (by decide) (by decide)).mpr
    ⟨by decide, by decide, .inl (by decide)⟩

/-- The last of nine bytes is in none of the fragments. -/
theorem ninth_byte_lost : ¬∃ fuel, ∀ fuel' ≥ fuel, ∃ fragments,
    getFragments fuel' (plain (List.replicate 9 5) (by decide)).packet 1500 7 = some fragments ∧
      (plain (List.replicate 9 5) (by decide)).Lossless 1500 7 fragments := by
  rintro ⟨fuel, hlossless⟩
  obtain ⟨fragments, hfragments, pieces, -, hlen, hflatten, hall⟩ :=
    hlossless (fuel + 1) (Nat.le_succ fuel)
  have hone : getFragments (fuel + 1) (plain (List.replicate 9 5) (by decide)).packet 1500 7 =
      some [(plain (List.replicate 9 5) (by decide)).made 7 0 false (List.replicate 8 5)] := rfl
  obtain rfl := Option.some.inj (hfragments.symm.trans hone)
  obtain ⟨piece, rfl⟩ := List.length_eq_one_iff.mp hlen.symm
  obtain ⟨-, -, hcarries⟩ := hall 0 _ rfl
  have hpiece := hcarries.data_eq (d := plain (List.replicate 9 5) (by decide)) (Nat.zero_le 1)
  rw [List.getD_cons_zero] at hpiece
  rw [List.flatten_singleton, hpiece] at hflatten
  exact absurd (congrArg List.length hflatten) (by decide)

end Datagram

end Ns3Noc.Ipv6

import Ns3Noc.AodvErrors

/-!
# Completeness of AODV error reports

A report names the destinations behind a broken next hop. It is complete unless there are too many of
them for one message, a route is searched for, or next hops lie behind one another.
-/
namespace Ns3Noc.Aodv
open KeyedTables

/-! ## Headers -/

theorem keys_insertRow (rows : List (Ipv4Address × UInt32)) (row : Ipv4Address × UInt32) :
    (insertRow rows row).map Prod.fst =
      if row.1 ∈ rows.map Prod.fst then rows.map Prod.fst else rows.map Prod.fst ++ [row.1] := by
  rw [insertRow]
  split
  · rfl
  · rw [List.map_append, List.map_singleton]

theorem mem_keys_insertRow {rows : List (Ipv4Address × UInt32)} {row : Ipv4Address × UInt32}
    {d : Ipv4Address} :
    d ∈ (insertRow rows row).map Prod.fst ↔ d = row.1 ∨ d ∈ rows.map Prod.fst := by
  rw [keys_insertRow]
  split
  · next hmem => exact ⟨.inr, fun h => h.elim (fun heq => heq ▸ hmem) id⟩
  · rw [List.mem_append, List.mem_singleton, or_comm]

theorem nodup_keys_insertRow {rows : List (Ipv4Address × UInt32)} (row : Ipv4Address × UInt32)
    (h : (rows.map Prod.fst).Nodup) : ((insertRow rows row).map Prod.fst).Nodup := by
  rw [keys_insertRow]
  split
  · exact h
  · next hnew =>
    exact List.Nodup.append h (List.nodup_singleton _) (List.disjoint_singleton.mpr hnew)

theorem length_insertRow_le (rows : List (Ipv4Address × UInt32)) (row : Ipv4Address × UInt32) :
    (insertRow rows row).length ≤ rows.length + 1 := by
  rw [insertRow]
  split
  · exact Nat.le_succ _
  · rw [List.length_append]
    exact Nat.le_refl _

namespace RerrHeader
variable {h h' : RerrHeader} {un : Ipv4Address × UInt32}

theorem length_names (h : RerrHeader) : h.names.length = h.unreachableDstSeqNo.length :=
  List.length_map _

theorem getDestCount_toNat (hcount : h.names.length ≤ 255) :
    h.getDestCount.toNat = h.names.length := by
  rw [length_names] at hcount ⊢
  rw [getDestCount, UInt8.toNat_ofNat']
  omega

theorem addUnDestination_of_mem (hmem : un.1 ∈ h.names) :
    h.addUnDestination un = some (h, true) := if_pos hmem

theorem addUnDestination_of_lt (hmem : un.1 ∉ h.names) (hcount : h.names.length < 255) :
    ∃ h', h.addUnDestination un = some (h', true) ∧ h'.names = h.names ++ [un.1] := by
  have hlt : h.getDestCount < 255 := by
    rw [UInt8.lt_iff_toNat_lt, getDestCount_toNat hcount.le]
    exact hcount
  refine ⟨_, (if_neg hmem).trans (if_pos hlt), ?_⟩
  exact (keys_insertRow _ _).trans (if_neg hmem)

theorem addUnDestination_of_full (hmem : un.1 ∉ h.names) (hcount : h.names.length = 255) :
    h.addUnDestination un = none := by
  have hge : ¬h.getDestCount < 255 := by
    rw [UInt8.lt_iff_toNat_lt, getDestCount_toNat hcount.le, hcount]
    exact Nat.lt_irrefl 255
  exact (if_neg hmem).trans (if_neg hge)

theorem of_deserialize {flag reserved dest : UInt8} {records : ℕ → Ipv4Address × UInt32}
    (hd : deserialize flag reserved dest records = some h) :
    h.names.Nodup ∧ h.names.length ≤ 255 := by
  obtain rfl := Option.some.inj (Option.ite_none_right_eq_some.mp hd).2
  have hrows : ∀ rows : List (Ipv4Address × UInt32),
      ((rows.foldl insertRow []).map Prod.fst).Nodup ∧
        (rows.foldl insertRow []).length ≤ rows.length := by
    intro rows
    induction rows using List.reverseRecOn with
    | nil => exact ⟨.nil, Nat.le_refl _⟩
    | append_singleton rows row ih =>
      rw [List.foldl_append, List.length_append]
      exact ⟨nodup_keys_insertRow row ih.1,
        (length_insertRow_le _ row).trans (Nat.succ_le_succ ih.2)⟩
  obtain ⟨hnodup, hlength⟩ := hrows ((List.range dest.toNat).map records)
  refine ⟨hnodup, ?_⟩
  rw [length_names]
  rw [List.length_map, List.length_range] at hlength
  have hdest := dest.toNat_lt
  exact hlength.trans (by omega)

end RerrHeader

/-! ## Filling messages -/

namespace Report
variable {now : Time} {t : RoutingTable} {r : Report} {unreachable : List (Ipv4Address × UInt32)}

theorem addAll_cons (un : Ipv4Address × UInt32) (rest : List (Ipv4Address × UInt32))
    (ht : r.routingTable.Purged now) :
    ∃ precursors, r.addAll now (un :: rest) = (r.header.addUnDestination un).bind fun p =>
      ({ r with header := p.1, precursors := precursors } : Report).addAll now rest := by
  refine ⟨(find r.routingTable.rows un.1).elim r.precursors
    fun rt => rt.getPrecursors r.precursors, ?_⟩
  rw [addAll]
  split
  · next hnone => rw [hnone, Option.bind_none]
  · next hfalse => exact absurd hfalse addUnDestination_ne_false
  · next header hsome =>
    rw [hsome, Option.bind_some, RoutingTable.lookupRoute, RoutingTable.purge_eq_self ht]

/-- The destinations that are not there yet are added, as long as one message holds them. -/
theorem addAll_spec (hnodup : (unreachable.map Prod.fst).Nodup)
    (hcount : r.header.names.length ≤ 255) (ht : r.routingTable.Purged now) :
    (r.header.names.length + ((unreachable.map Prod.fst).filter (· ∉ r.header.names)).length ≤ 255 →
      ∃ r', r.addAll now unreachable = some r' ∧ r'.routingTable = r.routingTable ∧
        r'.handed = r.handed ∧ r'.header.names =
          r.header.names ++ (unreachable.map Prod.fst).filter (· ∉ r.header.names)) ∧
    (¬r.header.names.length + ((unreachable.map Prod.fst).filter (· ∉ r.header.names)).length ≤
      255 → r.addAll now unreachable = none) := by
  induction unreachable generalizing r with
  | nil =>
    refine ⟨fun _ => ⟨r, by rw [addAll], rfl, rfl, (List.append_nil _).symm⟩, fun h => ?_⟩
    exact absurd hcount h
  | cons un rest ih =>
    obtain ⟨precursors, hcons⟩ := addAll_cons un rest ht
    obtain ⟨hun, hrest⟩ := List.nodup_cons.mp hnodup
    rw [hcons, List.map_cons]
    by_cases hmem : un.1 ∈ r.header.names
    · rw [RerrHeader.addUnDestination_of_mem hmem, Option.bind_some,
        List.filter_cons_of_neg (by simpa using hmem)]
      exact ih (r := { r with precursors := precursors }) hrest hcount ht
    · rw [List.filter_cons_of_pos (by simpa using hmem), List.length_cons]
      rcases hcount.lt_or_eq with hlt | hfull
      · obtain ⟨header, hadd, hnames⟩ := RerrHeader.addUnDestination_of_lt hmem hlt
        have hsame : (rest.map Prod.fst).filter (· ∉ header.names) =
            (rest.map Prod.fst).filter (· ∉ r.header.names) := by
          apply List.filter_congr
          intro d hd
          have hne : d ≠ un.1 := fun heq => hun (heq ▸ hd)
          simp [hnames, hne]
        have hlength : header.names.length = r.header.names.length + 1 := by
          rw [hnames, List.length_append, List.length_singleton]
        have hadded := ih (r := { r with header := header, precursors := precursors }) hrest
          (by show header.names.length ≤ 255; omega) ht
        dsimp only at hadded
        rw [hsame, hlength, hnames, List.append_assoc, List.singleton_append] at hadded
        rw [hadd, Option.bind_some, Nat.add_comm _ 1, ← Nat.add_assoc]
        exact hadded
      · rw [RerrHeader.addUnDestination_of_full hmem hfull, Option.bind_none]
        exact ⟨fun h => by omega, fun _ => rfl⟩

end Report

/-! ## Tables in which routes are invalidated -/

namespace RoutingTable
variable {t : RoutingTable} {now : Time} {d : Ipv4Address} {dests dests' : List Ipv4Address}

def keys (t : RoutingTable) : List Ipv4Address := t.rows.map Prod.fst

/-- The valid routes to these destinations are invalidated. -/
def marked (t : RoutingTable) (now : Time) (dests : List Ipv4Address) : RoutingTable :=
  t.filterMapRows fun d e => if d ∈ dests then some (e.invalidateValid now) else some e

theorem find_marked : find (t.marked now dests).rows d =
    (find t.rows d).map fun e => if d ∈ dests then e.invalidateValid now else e := by
  rw [marked, find_filterMapRows]
  cases find t.rows d with
  | none => rfl
  | some e =>
    rw [Option.bind_some, Option.map_some]
    split <;> rfl

theorem rows_marked : (t.marked now dests).rows = t.rows.map fun row =>
    (row.1, if row.1 ∈ dests then row.2.invalidateValid now else row.2) := by
  show t.rows.filterMap _ = _
  rw [← List.filterMap_eq_map]
  apply List.filterMap_congr
  intro row _
  dsimp only [Function.comp]
  split <;> rfl

theorem marked_congr (h : ∀ d, d ∈ dests ↔ d ∈ dests') :
    t.marked now dests = t.marked now dests' := by
  apply RoutingTable.ext
  rw [rows_marked, rows_marked]
  simp only [h]

theorem marked_nil : t.marked now [] = t := by
  apply RoutingTable.ext
  rw [rows_marked]
  simp

theorem marked_marked : (t.marked now dests).marked now dests' = t.marked now (dests ++ dests') := by
  apply RoutingTable.ext
  rw [rows_marked, rows_marked, rows_marked, List.map_map]
  apply List.map_congr_left
  intro row _
  have htwice : (row.2.invalidateValid now).invalidateValid now = row.2.invalidateValid now := by
    cases hflag : row.2.flag <;>
      simp [RoutingTableEntry.invalidateValid, RoutingTableEntry.invalidate, hflag]
  by_cases h : row.1 ∈ dests <;> by_cases h' : row.1 ∈ dests' <;> simp [h, h', htwice]

theorem purged_marked (dests : List Ipv4Address) (h : t.Purged now) : (t.marked now dests).Purged now := by
  intro row hrow
  rw [rows_marked] at hrow
  obtain ⟨row', hrow', rfl⟩ := List.mem_map.mp hrow
  dsimp only
  split
  · exact RoutingTableEntry.purge_invalidateValid (h row' hrow')
  · exact h row' hrow'

theorem invalidateRoutesWithDst_eq (h : t.Purged now) (unreachable : List (Ipv4Address × UInt32)) :
    t.invalidateRoutesWithDst now unreachable = t.marked now (unreachable.map Prod.fst) := by
  rw [invalidateRoutesWithDst, purge_eq_self h, marked]

/-- The next hop, and the destinations of the routes over it -/
def behind (t : RoutingTable) (hop : Ipv4Address) : List Ipv4Address :=
  (t.rows.filter fun row => row.1 = hop ∨ row.2.nextHop = hop).map Prod.fst

theorem mem_behind {hop : Ipv4Address} :
    d ∈ t.behind hop ↔ ∃ e, (d, e) ∈ t.rows ∧ (d = hop ∨ e.nextHop = hop) := by
  rw [behind, List.mem_map]
  constructor
  · rintro ⟨⟨d', e⟩, hmem, rfl⟩
    obtain ⟨hrow, hbehind⟩ := List.mem_filter.mp hmem
    exact ⟨e, hrow, of_decide_eq_true hbehind⟩
  · rintro ⟨e, hrow, hbehind⟩
    exact ⟨(d, e), List.mem_filter.mpr ⟨hrow, decide_eq_true hbehind⟩, rfl⟩

theorem nodup_behind (t : RoutingTable) (hop : Ipv4Address) : (t.behind hop).Nodup :=
  (List.filter_sublist.map Prod.fst).nodup t.nodup

theorem nextHop_invalidateValid (e : RoutingTableEntry) :
    (e.invalidateValid now).nextHop = e.nextHop := by
  rw [RoutingTableEntry.invalidateValid, RoutingTableEntry.invalidate]
  split
  · split <;> rfl
  · rfl

theorem behind_marked (hop : Ipv4Address) : (t.marked now dests).behind hop = t.behind hop := by
  rw [behind, rows_marked, List.filter_map, List.map_map, behind]
  have hsame : ∀ row : Ipv4Address × RoutingTableEntry,
      (if row.1 ∈ dests then row.2.invalidateValid now else row.2).nextHop = row.2.nextHop := by
    intro row
    split
    · exact nextHop_invalidateValid row.2
    · rfl
  simp only [Function.comp_def, hsame]

theorem keys_marked : (t.marked now dests).keys = t.keys := by
  rw [keys, rows_marked, List.map_map]
  rfl

end RoutingTable

/-! ## What is handed over -/

/-- The messages name these destinations, at most 255 in one. -/
structure Hands (messages : List Handed) (names : List Ipv4Address) : Prop where
  perm : (messages.flatMap fun m => m.header.names).Perm names
  bounded : ∀ m ∈ messages, m.header.names.length ≤ 255

theorem Hands.nil : Hands [] [] := ⟨.refl _, fun _ h => absurd h List.not_mem_nil⟩

theorem Hands.append {messages messages' : List Handed} {names names' : List Ipv4Address}
    (h : Hands messages names) (h' : Hands messages' names') :
    Hands (messages ++ messages') (names ++ names') where
  perm := by
    rw [List.flatMap_append]
    exact h.perm.append h'.perm
  bounded m hm := (List.mem_append.mp hm).elim (h.bounded m) (h'.bounded m)

section Reports
variable {now : Time} {t : RoutingTable} {hop : Ipv4Address}

theorem Report.finish_spec (r : Report) (hcount : r.header.names.length ≤ 255) :
    ∃ messages, r.finish.routingTable = r.routingTable ∧
      r.finish.handed = r.handed ++ messages ∧ Hands messages r.header.names := by
  rw [finish]
  split
  · refine ⟨[⟨r.header, r.precursors⟩], rfl, rfl, ?_, fun m hm => ?_⟩
    · rw [List.flatMap_singleton]
    · obtain rfl := List.mem_singleton.mp hm
      exact hcount
  · next hzero =>
    have hempty : r.header.names.length = 0 := by
      rw [← RerrHeader.getDestCount_toNat hcount, not_not.mp hzero]
      rfl
    rw [List.length_eq_zero_iff.mp hempty]
    exact ⟨[], rfl, (List.append_nil _).symm, .nil⟩

theorem report_spec (now : Time) {r : Report} {unreachable : List (Ipv4Address × UInt32)}
    (invalidated : List (Ipv4Address × UInt32)) (hnodup : (unreachable.map Prod.fst).Nodup)
    (hcount : r.header.names.length ≤ 255) (ht : r.routingTable.Purged now) :
    (r.header.names.length + ((unreachable.map Prod.fst).filter (· ∉ r.header.names)).length ≤ 255 →
      ∃ messages, Reporting.report now unreachable invalidated r =
          some ⟨r.routingTable.marked now (invalidated.map Prod.fst), r.handed ++ messages⟩ ∧
        Hands messages
          (r.header.names ++ (unreachable.map Prod.fst).filter (· ∉ r.header.names))) ∧
    (¬r.header.names.length + ((unreachable.map Prod.fst).filter (· ∉ r.header.names)).length ≤
      255 → Reporting.report now unreachable invalidated r = none) := by
  obtain ⟨hfits, hfull⟩ := Report.addAll_spec hnodup hcount ht
  constructor
  · intro hlength
    obtain ⟨r', hadd, htable, hhanded, hnames⟩ := hfits hlength
    obtain ⟨messages, hftable, hfhanded, hmessages⟩ := r'.finish_spec (by
      rw [hnames, List.length_append]
      exact hlength)
    refine ⟨messages, ?_, hnames ▸ hmessages⟩
    rw [Reporting.report, hadd, Option.map_some, hftable, htable, hfhanded, hhanded,
      RoutingTable.invalidateRoutesWithDst_eq ht]
  · intro hlength
    rw [Reporting.report, hfull hlength, Option.map_none]

/-- The destinations of the routes over the next hop -/
def RoutingTable.via (t : RoutingTable) (hop : Ipv4Address) : List Ipv4Address :=
  (t.rows.filter fun row => row.2.nextHop = hop).map Prod.fst

theorem RoutingTable.mem_via {d : Ipv4Address} :
    d ∈ t.via hop ↔ ∃ e, (d, e) ∈ t.rows ∧ e.nextHop = hop := by
  rw [via, List.mem_map]
  constructor
  · rintro ⟨⟨d', e⟩, hmem, rfl⟩
    obtain ⟨hrow, hvia⟩ := List.mem_filter.mp hmem
    exact ⟨e, hrow, of_decide_eq_true hvia⟩
  · rintro ⟨e, hrow, hvia⟩
    exact ⟨(d, e), List.mem_filter.mpr ⟨hrow, decide_eq_true hvia⟩, rfl⟩

theorem RoutingTable.nodup_via (t : RoutingTable) (hop : Ipv4Address) : (t.via hop).Nodup :=
  (List.filter_sublist.map Prod.fst).nodup t.nodup

theorem RoutingTable.mem_keys {d : Ipv4Address} : d ∈ t.keys ↔ ∃ e, (d, e) ∈ t.rows := by
  simp [keys]

theorem RoutingTable.mem_behind_iff {d : Ipv4Address} :
    d ∈ t.behind hop ↔ d = hop ∧ hop ∈ t.keys ∨ d ∈ t.via hop := by
  rw [mem_behind, mem_via, mem_keys]
  constructor
  · rintro ⟨e, hrow, rfl | hvia⟩
    · exact .inl ⟨rfl, e, hrow⟩
    · exact .inr ⟨e, hrow, hvia⟩
  · rintro (⟨rfl, e, hrow⟩ | ⟨e, hrow, hvia⟩)
    · exact ⟨e, hrow, .inl rfl⟩
    · exact ⟨e, hrow, .inr hvia⟩

/-- The next hop is named first, and the others once each. -/
theorem RoutingTable.perm_behind (h : hop ∈ t.keys) :
    ([hop] ++ (t.via hop).filter (· ∉ [hop])).Perm (t.behind hop) := by
  have hnodup : ([hop] ++ (t.via hop).filter (· ∉ [hop])).Nodup := by
    refine List.Nodup.append (List.nodup_singleton hop) ((t.nodup_via hop).filter _) ?_
    rw [List.singleton_disjoint]
    simp
  rw [List.perm_ext_iff_of_nodup hnodup (t.nodup_behind hop)]
  intro d
  rw [mem_behind_iff]
  by_cases hd : d = hop
  · simp [hd, h]
  · simp [hd]

theorem sendRerr_of_not_mem (handed : List Handed) (ht : t.Purged now) (h : hop ∉ t.keys) :
    sendRerrWhenBreaksLinkToNextHop now hop ⟨t, handed⟩ = some ⟨t, handed⟩ := by
  have hfind : find t.rows hop = none := by
    cases hfind : find t.rows hop with
    | none => rfl
    | some e => exact absurd (List.mem_map_of_mem (mem_of_find hfind)) h
  rw [sendRerrWhenBreaksLinkToNextHop, RoutingTable.lookupRoute, RoutingTable.purge_eq_self ht]
  dsimp only
  rw [hfind]

theorem sendRerr_of_mem (handed : List Handed) (ht : t.Purged now) (h : hop ∈ t.keys) :
    ((t.behind hop).length ≤ 255 →
      ∃ messages, sendRerrWhenBreaksLinkToNextHop now hop ⟨t, handed⟩ =
          some ⟨t.marked now (t.behind hop), handed ++ messages⟩ ∧
        Hands messages (t.behind hop)) ∧
    (¬(t.behind hop).length ≤ 255 →
      sendRerrWhenBreaksLinkToNextHop now hop ⟨t, handed⟩ = none) := by
  obtain ⟨e, hrow⟩ := RoutingTable.mem_keys.mp h
  have hfind := RoutingTable.find_eq_some_iff.mpr hrow
  obtain ⟨header, hadd, hnames⟩ : ∃ header, RerrHeader.empty.addUnDestination (hop, e.seqNo) =
      some (header, true) ∧ header.names = [hop] :=
    RerrHeader.addUnDestination_of_lt List.not_mem_nil (by decide)
  have hperm := RoutingTable.perm_behind h
  have hvia : ((t.rows.filter fun row => row.2.nextHop = hop).map fun row =>
      (row.1, row.2.seqNo)).map Prod.fst = t.via hop := by
    rw [List.map_map]
    rfl
  have hsend : sendRerrWhenBreaksLinkToNextHop now hop ⟨t, handed⟩ =
      Reporting.report now ((t.rows.filter fun row => row.2.nextHop = hop).map fun row =>
          (row.1, row.2.seqNo))
        (insertRow ((t.rows.filter fun row => row.2.nextHop = hop).map fun row =>
          (row.1, row.2.seqNo)) (hop, e.seqNo))
        ⟨header, e.getPrecursors [], t, handed⟩ := by
    rw [sendRerrWhenBreaksLinkToNextHop, RoutingTable.lookupRoute, RoutingTable.purge_eq_self ht]
    dsimp only
    rw [hfind]
    dsimp only
    rw [hadd, RoutingTable.getListOfDestinationWithNextHop, RoutingTable.purge_eq_self ht]
  have hmarked : t.marked now ((insertRow ((t.rows.filter fun row => row.2.nextHop = hop).map
      fun row => (row.1, row.2.seqNo)) (hop, e.seqNo)).map Prod.fst) =
      t.marked now (t.behind hop) := by
    apply RoutingTable.marked_congr
    intro d
    rw [mem_keys_insertRow, hvia, RoutingTable.mem_behind_iff, and_iff_left h]
  have hspec := report_spec now (r := ⟨header, e.getPrecursors [], t, handed⟩)
    (insertRow ((t.rows.filter fun row => row.2.nextHop = hop).map fun row =>
      (row.1, row.2.seqNo)) (hop, e.seqNo)) (hvia ▸ t.nodup_via hop)
    (by rw [hnames]; exact Nat.succ_le_succ (Nat.zero_le _)) ht
  rw [hsend]
  rw [hvia, hmarked] at hspec
  dsimp only at hspec
  have hempty : header.names = [hop] := hnames
  rw [hempty, ← List.length_append, hperm.length_eq] at hspec
  refine ⟨fun hlength => ?_, hspec.2⟩
  obtain ⟨messages, hreport, hhands⟩ := hspec.1 hlength
  exact ⟨messages, hreport, hhands.perm.trans hperm, hhands.bounded⟩

/-- The table and the messages after links to some next hops were reported broken. Only next hops
in the table count. -/
theorem breakLinks_spec (handed : List Handed) (ht : t.Purged now) (hops dests : List Ipv4Address) :
    ((∀ hop ∈ hops, hop ∈ t.keys → (t.behind hop).length ≤ 255) →
      ∃ messages, breakLinks now hops ⟨t.marked now dests, handed⟩ =
          some ⟨t.marked now (dests ++ (hops.filter (· ∈ t.keys)).flatMap t.behind),
            handed ++ messages⟩ ∧
        Hands messages ((hops.filter (· ∈ t.keys)).flatMap t.behind)) ∧
    ((∃ hop ∈ hops, hop ∈ t.keys ∧ ¬(t.behind hop).length ≤ 255) →
      breakLinks now hops ⟨t.marked now dests, handed⟩ = none) := by
  induction hops generalizing dests handed with
  | nil =>
    refine ⟨fun _ => ⟨[], ?_, .nil⟩, fun ⟨hop, hmem, _⟩ => absurd hmem List.not_mem_nil⟩
    rw [breakLinks, List.foldlM_nil, List.filter_nil, List.flatMap_nil, List.append_nil,
      List.append_nil]
    rfl
  | cons hop hops ih =>
    have hmarked := RoutingTable.purged_marked dests ht
    have hcons : ∀ s, breakLinks now (hop :: hops) s =
        (sendRerrWhenBreaksLinkToNextHop now hop s).bind (breakLinks now hops) := by
      intro s
      rw [breakLinks, List.foldlM_cons]
      rfl
    rw [hcons]
    by_cases hkey : hop ∈ t.keys
    · have hkeys : hop ∈ (t.marked now dests).keys := by rwa [RoutingTable.keys_marked]
      have hone := sendRerr_of_mem handed hmarked hkeys
      rw [RoutingTable.behind_marked, RoutingTable.marked_marked] at hone
      by_cases hlength : (t.behind hop).length ≤ 255
      · obtain ⟨messages, hsend, hhands⟩ := hone.1 hlength
        obtain ⟨hfits, hfull⟩ := ih (handed ++ messages) (dests ++ t.behind hop)
        rw [hsend, Option.bind_some, List.filter_cons_of_pos (by simpa using hkey),
          List.flatMap_cons]
        constructor
        · intro hall
          obtain ⟨messages', hrest, hhands'⟩ :=
            hfits fun hop' hmem => hall hop' (List.mem_cons_of_mem hop hmem)
          refine ⟨messages ++ messages', ?_, hhands.append hhands'⟩
          rw [hrest, List.append_assoc, List.append_assoc]
        · rintro ⟨hop', hmem, hkey', hlong⟩
          rcases List.mem_cons.mp hmem with rfl | hmem
          · exact absurd hlength hlong
          · exact hfull ⟨hop', hmem, hkey', hlong⟩
      · rw [hone.2 hlength, Option.bind_none]
        exact ⟨fun hall => absurd (hall hop List.mem_cons_self hkey) hlength, fun _ => rfl⟩
    · have hkeys : hop ∉ (t.marked now dests).keys := by rwa [RoutingTable.keys_marked]
      rw [sendRerr_of_not_mem handed hmarked hkeys, Option.bind_some,
        List.filter_cons_of_neg (by simpa using hkey)]
      obtain ⟨hfits, hfull⟩ := ih handed dests
      refine ⟨fun hall => hfits fun hop' hmem => hall hop' (List.mem_cons_of_mem hop hmem), ?_⟩
      rintro ⟨hop', hmem, hkey', hlong⟩
      rcases List.mem_cons.mp hmem with rfl | hmem
      · exact absurd hkey' hkey
      · exact hfull ⟨hop', hmem, hkey', hlong⟩

end Reports

/-! ## Received reports -/

section Received
variable {now : Time} {t : RoutingTable} {src : Ipv4Address}
  {nb : Neighbors} {s : Reporting} {header : RerrHeader}

theorem breakLinks_append (hops hops' : List Ipv4Address) (s : Reporting) :
    breakLinks now (hops ++ hops') s = (breakLinks now hops s).bind (breakLinks now hops') := by
  rw [breakLinks, List.foldlM_append]
  rfl

theorem breakLinks_singleton (hop : Ipv4Address) (s : Reporting) :
    breakLinks now [hop] s = sendRerrWhenBreaksLinkToNextHop now hop s := by
  rw [breakLinks, List.foldlM_cons]
  cases sendRerrWhenBreaksLinkToNextHop now hop s <;> rfl

theorem Neighbors.closing_remaining (nb : Neighbors) (now : Time) :
    (nb.remaining now).closing now = [] := by
  have hnone : (nb.remaining now).nb.filter (Neighbor.closes now) = [] := by
    rw [remaining, List.filter_filter, List.filter_eq_nil_iff]
    simp
  rw [closing, hnone]
  exact ite_self []

theorem Neighbors.remaining_remaining (nb : Neighbors) (now : Time) :
    (nb.remaining now).remaining now = nb.remaining now := by
  have hsame : (nb.nb.filter fun i => !i.closes now).filter (fun i => !i.closes now) =
      nb.nb.filter fun i => !i.closes now := by
    rw [List.filter_filter]
    simp
  simp only [remaining, hsame]

/-- The first look at the neighbours closes links, and the later ones of the loop do not. -/
theorem recvUnDestination_eq (via : List (Ipv4Address × UInt32)) (unreachable)
    (un : Ipv4Address × UInt32) :
    recvUnDestination now via ⟨nb, s, unreachable⟩ un =
      (breakLinks now (nb.closing now) s).bind fun s =>
        recvUnDestination now via ⟨nb.remaining now, s, unreachable⟩ un := by
  rw [recvUnDestination, Neighbors.purge]
  cases breakLinks now (nb.closing now) s with
  | none => rfl
  | some s' =>
    rw [Option.map_some, Option.bind_some, Option.bind_some, recvUnDestination, Neighbors.purge,
      Neighbors.closing_remaining, Neighbors.remaining_remaining]
    rfl

/-- Named destinations that are neighbours are broken next hops; the others are collected if the
route to them is over the sender. -/
theorem foldlM_recvUnDestination (via unreachable dests : List (Ipv4Address × UInt32))
    (hnodup : (dests.map Prod.fst).Nodup)
    (hnew : ∀ un ∈ dests, un.1 ∉ unreachable.map Prod.fst) (s : Reporting) :
    dests.foldlM (recvUnDestination now via) ⟨nb.remaining now, s, unreachable⟩ =
      (breakLinks now ((dests.map Prod.fst).filter (nb.remaining now).has) s).map fun s =>
        ⟨nb.remaining now, s, unreachable ++ dests.filter fun un =>
          ¬(nb.remaining now).has un.1 ∧ un.1 ∈ via.map Prod.fst⟩ := by
  induction dests generalizing unreachable s with
  | nil =>
    rw [List.filter_nil, List.append_nil]
    rfl
  | cons un dests ih =>
    obtain ⟨hun, hrest⟩ := List.nodup_cons.mp hnodup
    have hturn : recvUnDestination now via ⟨nb.remaining now, s, unreachable⟩ un =
        if (nb.remaining now).has un.1 then
          (sendRerrWhenBreaksLinkToNextHop now un.1 s).map fun s =>
            ⟨nb.remaining now, s, unreachable⟩
        else if un.1 ∈ via.map Prod.fst then
          some ⟨nb.remaining now, s, insertRow unreachable un⟩
        else some ⟨nb.remaining now, s, unreachable⟩ := by
      rw [recvUnDestination, Neighbors.purge, Neighbors.closing_remaining,
        Neighbors.remaining_remaining]
      rfl
    have hlater : ∀ un' ∈ dests, un'.1 ∉ unreachable.map Prod.fst :=
      fun un' hmem => hnew un' (List.mem_cons_of_mem un hmem)
    rw [List.foldlM_cons, hturn, List.map_cons]
    by_cases hhas : (nb.remaining now).has un.1
    · rw [if_pos hhas, List.filter_cons_of_pos hhas, List.filter_cons_of_neg (by simp [hhas]),
        ← List.singleton_append, breakLinks_append, breakLinks_singleton]
      cases sendRerrWhenBreaksLinkToNextHop now un.1 s with
      | none => rfl
      | some s' => exact ih unreachable hrest hlater s'
    · rw [if_neg hhas, List.filter_cons_of_neg hhas]
      by_cases hvia : un.1 ∈ via.map Prod.fst
      · have hinsert : insertRow unreachable un = unreachable ++ [un] :=
          if_neg (hnew un List.mem_cons_self)
        rw [if_pos hvia, List.filter_cons_of_pos (by simp [hhas, hvia]), List.append_cons, hinsert]
        refine ih (unreachable ++ [un]) hrest (fun un' hmem => ?_) s
        rw [List.map_append, List.mem_append, not_or]
        refine ⟨hlater un' hmem, fun heq => hun ?_⟩
        rw [List.map_singleton, List.mem_singleton] at heq
        exact heq ▸ List.mem_map_of_mem hmem
      · rw [if_neg hvia, List.filter_cons_of_neg (by simp [hvia])]
        exact ih unreachable hrest hlater s

/-- The next hops whose links are reported broken while a RERR is received: those of neighbours that
are closed, and the neighbours that it names. -/
def brokenHops (now : Time) (nb : Neighbors) (header : RerrHeader) : List Ipv4Address :=
  if header.names = [] then []
  else nb.closing now ++ header.names.filter (nb.remaining now).has

/-- The other named destinations with a route over the sender -/
def namedBehind (now : Time) (nb : Neighbors) (t : RoutingTable) (src : Ipv4Address)
    (header : RerrHeader) : List Ipv4Address :=
  header.names.filter fun d => ¬(nb.remaining now).has d ∧ d ∈ t.via src

/-- All destinations that are named in the messages -/
def reportedNames (now : Time) (nb : Neighbors) (t : RoutingTable) (src : Ipv4Address)
    (header : RerrHeader) : List Ipv4Address :=
  ((brokenHops now nb header).filter (· ∈ t.keys)).flatMap t.behind ++
    namedBehind now nb t src header

theorem foldlM_received (now : Time) (nb : Neighbors) (via : List (Ipv4Address × UInt32))
    (hnodup : header.names.Nodup) (s : Reporting) :
    ∃ nb', header.unreachableDstSeqNo.foldlM (recvUnDestination now via) ⟨nb, s, []⟩ =
      (breakLinks now (brokenHops now nb header) s).map fun s =>
        ⟨nb', s, header.unreachableDstSeqNo.filter fun un =>
          ¬(nb.remaining now).has un.1 ∧ un.1 ∈ via.map Prod.fst⟩ := by
  cases hdests : header.unreachableDstSeqNo with
  | nil =>
    have hempty : header.names = [] := by rw [RerrHeader.names, hdests, List.map_nil]
    refine ⟨nb, ?_⟩
    rw [brokenHops, if_pos hempty]
    rfl
  | cons un rest =>
    have hnames : header.names = un.1 :: rest.map Prod.fst := by
      rw [RerrHeader.names, hdests, List.map_cons]
    have hfirst : (un :: rest).foldlM (recvUnDestination now via) ⟨nb, s, []⟩ =
        (breakLinks now (nb.closing now) s).bind fun s =>
          (un :: rest).foldlM (recvUnDestination now via) ⟨nb.remaining now, s, []⟩ := by
      rw [List.foldlM_cons, recvUnDestination_eq]
      exact Option.bind_assoc _ _ _
    have hnonempty : header.names ≠ [] := by
      rw [hnames]
      exact List.cons_ne_nil _ _
    refine ⟨nb.remaining now, ?_⟩
    rw [hfirst, brokenHops, if_neg hnonempty, breakLinks_append]
    cases breakLinks now (nb.closing now) s with
    | none => rfl
    | some s' =>
      rw [Option.bind_some, Option.bind_some,
        foldlM_recvUnDestination via [] (un :: rest) (by rwa [hnames] at hnodup) (by simp),
        hnames]
      rfl

theorem recvError_spec (now : Time) (src : Ipv4Address) (nb : Neighbors) (t : RoutingTable)
    (handed : List Handed) (hnodup : header.names.Nodup)
    (hcount : header.names.length ≤ 255) :
    ((∀ hop ∈ brokenHops now nb header, hop ∈ (t.purge now).keys →
        ((t.purge now).behind hop).length ≤ 255) →
      ∃ nb' messages, recvError now header src nb ⟨t, handed⟩ =
          some (nb', ⟨(t.purge now).marked now (reportedNames now nb (t.purge now) src header),
            handed ++ messages⟩) ∧
        Hands messages (reportedNames now nb (t.purge now) src header)) ∧
    ((∃ hop ∈ brokenHops now nb header, hop ∈ (t.purge now).keys ∧
        ¬((t.purge now).behind hop).length ≤ 255) →
      recvError now header src nb ⟨t, handed⟩ = none) := by
  have ht := t.purged_purge now
  rw [recvError, RoutingTable.getListOfDestinationWithNextHop]
  dsimp only
  generalize t.purge now = t at ht
  have hvia : ((t.rows.filter fun row => row.2.nextHop = src).map fun row =>
      (row.1, row.2.seqNo)).map Prod.fst = t.via src := by
    rw [List.map_map]
    rfl
  obtain ⟨nb', hloop⟩ := foldlM_received now nb
    ((t.rows.filter fun row => row.2.nextHop = src).map fun row => (row.1, row.2.seqNo))
    hnodup ⟨t, handed⟩
  rw [hvia] at hloop
  rw [hloop]
  obtain ⟨hfits, hfull⟩ := breakLinks_spec handed ht (brokenHops now nb header) []
  rw [RoutingTable.marked_nil, List.nil_append] at hfits
  rw [RoutingTable.marked_nil] at hfull
  constructor
  · intro hall
    obtain ⟨messages, hbreak, hhands⟩ := hfits hall
    rw [hbreak]
    have hunreachable : (header.unreachableDstSeqNo.filter fun un =>
        ¬(nb.remaining now).has un.1 ∧ un.1 ∈ t.via src).map Prod.fst =
        namedBehind now nb t src header := by
      rw [namedBehind, RerrHeader.names, List.filter_map]
      rfl
    have hlength : (namedBehind now nb t src header).length ≤ 255 :=
      (List.length_filter_le _ _).trans hcount
    obtain ⟨messages', hreport, hhands'⟩ := (report_spec now
      (r := ⟨{ header with unreachableDstSeqNo := [] }, [],
        t.marked now (((brokenHops now nb header).filter (· ∈ t.keys)).flatMap t.behind),
        handed ++ messages⟩)
      (header.unreachableDstSeqNo.filter fun un =>
        ¬(nb.remaining now).has un.1 ∧ un.1 ∈ t.via src)
      (by
        rw [hunreachable]
        exact hnodup.filter _) (Nat.zero_le _) (RoutingTable.purged_marked _ ht)).1 (by
        rw [hunreachable]
        show 0 + ((namedBehind now nb t src header).filter (· ∉ [])).length ≤ 255
        rw [Nat.zero_add]
        exact (List.length_filter_le _ _).trans hlength)
    refine ⟨nb', messages ++ messages', ?_, ?_⟩
    · rw [Option.map_some, Option.bind_some]
      dsimp only at hreport ⊢
      rw [hreport, Option.map_some, hunreachable, RoutingTable.marked_marked, List.append_assoc]
      rfl
    · have hall : ([] : List Ipv4Address) ++
          (namedBehind now nb t src header).filter (· ∉ ([] : List Ipv4Address)) =
          namedBehind now nb t src header := by simp
      rw [hunreachable] at hhands'
      exact hhands.append (hall ▸ hhands')
  · intro hbad
    rw [hfull hbad]
    rfl

end Received

end Ns3Noc.Aodv

import Ns3Noc.AodvErrorReports

/-!
# When AODV error reports are complete

A report is complete where the messages name the affected destinations once each and the routes to
them, and no others, are invalid afterwards.
-/
namespace Ns3Noc.Aodv
open KeyedTables

/-- The messages and the table after a report of the affected destinations. -/
structure Reported (t t' : RoutingTable) (messages : List Handed) (affected : Ipv4Address → Prop) :
    Prop where
  bounded : ∀ m ∈ messages, m.header.names.length ≤ 255
  once : (messages.flatMap fun m => m.header.names).Nodup
  named : ∀ d, d ∈ messages.flatMap (fun m => m.header.names) ↔ affected d
  invalid : ∀ d, affected d → ∃ e, find t'.rows d = some e ∧ e.flag = .invalid
  others : ∀ d, ¬affected d → find t'.rows d = find t.rows d

variable {now : Time} {t : RoutingTable} {hop d : Ipv4Address}

theorem RoutingTableEntry.flag_invalidateValid (e : RoutingTableEntry) (now : Time) :
    (e.invalidateValid now).flag = .invalid ↔ e.flag ≠ .inSearch := by
  cases hflag : e.flag <;> simp [invalidateValid, invalidate, hflag]

/-- Nothing but the affected destinations is named and invalidated; what can go wrong is that one is
named twice or not at all, or that a route to it is searched for. -/
theorem reported_iff (now : Time) (t : RoutingTable) {messages : List Handed}
    {names : List Ipv4Address} (affected : Ipv4Address → Prop) (hhands : Hands messages names)
    (hnames : ∀ d ∈ names, affected d) (hkeys : ∀ d, affected d → d ∈ t.keys) :
    Reported t (t.marked now names) messages affected ↔
      names.Nodup ∧ (∀ d, affected d → d ∈ names) ∧
        ∀ d e, (d, e) ∈ t.rows → affected d → e.flag ≠ .inSearch := by
  constructor
  · intro h
    have hmem : ∀ d, affected d → d ∈ names := fun d hd =>
      hhands.perm.mem_iff.mp ((h.named d).mpr hd)
    refine ⟨hhands.perm.nodup_iff.mp h.once, hmem, fun d e hrow hd => ?_⟩
    obtain ⟨e', hfind, hflag⟩ := h.invalid d hd
    rw [RoutingTable.find_marked, RoutingTable.find_eq_some_iff.mpr hrow, Option.map_some,
      if_pos (hmem d hd)] at hfind
    rw [← Option.some.inj hfind] at hflag
    exact (e.flag_invalidateValid now).mp hflag
  · rintro ⟨hnodup, hall, hsettled⟩
    constructor
    · exact hhands.bounded
    · exact hhands.perm.nodup_iff.mpr hnodup
    · exact fun d => hhands.perm.mem_iff.trans ⟨hnames d, hall d⟩
    · intro d hd
      obtain ⟨e, hrow⟩ := RoutingTable.mem_keys.mp (hkeys d hd)
      refine ⟨e.invalidateValid now, ?_, (e.flag_invalidateValid now).mpr (hsettled d e hrow hd)⟩
      rw [RoutingTable.find_marked, RoutingTable.find_eq_some_iff.mpr hrow, Option.map_some,
        if_pos (hall d hd)]
    · intro d hd
      rw [RoutingTable.find_marked]
      simp [show d ∉ names from fun hmem => hd (hnames d hmem)]

/-! ## A broken link -/

theorem RoutingTable.behind_subset_keys (h : d ∈ t.behind hop) : d ∈ t.keys := by
  obtain ⟨e, hrow, -⟩ := mem_behind.mp h
  exact mem_keys.mpr ⟨e, hrow⟩

/-- The report of `SendRerrWhenBreaksLinkToNextHop` is complete. -/
def ReportsBroken (now : Time) (hop : Ipv4Address) (t : RoutingTable) : Prop :=
  ∃ t' messages, sendRerrWhenBreaksLinkToNextHop now hop ⟨t, []⟩ = some ⟨t', messages⟩ ∧
    Reported (t.purge now) t' messages (· ∈ (t.purge now).behind hop)

/-- A next hop with routes over it is in the table, one message can name all destinations, and no
route to one of them is searched for. -/
structure Reportable (hop : Ipv4Address) (t : RoutingTable) : Prop where
  known : ∀ d ∈ t.via hop, hop ∈ t.keys
  count : (t.behind hop).length ≤ 255
  settled : ∀ d e, (d, e) ∈ t.rows → d ∈ t.behind hop → e.flag ≠ .inSearch

theorem sendRerr_purge (t : RoutingTable) (handed : List Handed) :
    sendRerrWhenBreaksLinkToNextHop now hop ⟨t.purge now, handed⟩ =
      sendRerrWhenBreaksLinkToNextHop now hop ⟨t, handed⟩ := by
  rw [sendRerrWhenBreaksLinkToNextHop, sendRerrWhenBreaksLinkToNextHop, RoutingTable.lookupRoute,
    RoutingTable.lookupRoute, RoutingTable.purge_eq_self (t.purged_purge now)]

theorem reportsBroken_iff (now : Time) (hop : Ipv4Address) (t : RoutingTable) :
    ReportsBroken now hop t ↔ Reportable hop (t.purge now) := by
  have ht := t.purged_purge now
  rw [ReportsBroken, ← sendRerr_purge]
  generalize t.purge now = t at ht
  by_cases hkey : hop ∈ t.keys
  · obtain ⟨hfits, hfull⟩ := sendRerr_of_mem [] ht hkey
    constructor
    · rintro ⟨t', messages, hsend, hreported⟩
      by_cases hlength : (t.behind hop).length ≤ 255
      · obtain ⟨messages', hsend', hhands⟩ := hfits hlength
        obtain ⟨rfl, rfl⟩ := Reporting.mk.inj (Option.some.inj (hsend'.symm.trans hsend))
        obtain ⟨-, -, hsettled⟩ := (reported_iff now t _ hhands (fun d hd => hd)
          fun d hd => RoutingTable.behind_subset_keys hd).mp hreported
        exact ⟨fun d hd => hkey, hlength, hsettled⟩
      · rw [hfull hlength] at hsend
        cases hsend
    · intro h
      obtain ⟨messages, hsend, hhands⟩ := hfits h.count
      exact ⟨_, messages, hsend, (reported_iff now t _ hhands (fun d hd => hd)
        fun d hd => RoutingTable.behind_subset_keys hd).mpr
          ⟨t.nodup_behind hop, fun d hd => hd, h.settled⟩⟩
  · rw [sendRerr_of_not_mem [] ht hkey]
    have hbehind : ∀ d, d ∈ t.behind hop ↔ d ∈ t.via hop := by
      intro d
      rw [RoutingTable.mem_behind_iff, or_iff_right (fun h => hkey h.2)]
    constructor
    · rintro ⟨t', messages, hsend, hreported⟩
      obtain ⟨rfl, rfl⟩ := Reporting.mk.inj (Option.some.inj hsend)
      have hnone : ∀ d, d ∉ t.behind hop := by
        intro d hd
        have hname := (hreported.named d).mpr hd
        exact absurd hname List.not_mem_nil
      have hempty := List.eq_nil_iff_forall_not_mem.mpr hnone
      refine ⟨fun d hd => absurd ((hbehind d).mpr hd) (hnone d), ?_, fun d e _ hd =>
        absurd hd (hnone d)⟩
      rw [hempty]
      exact Nat.zero_le _
    · intro h
      have hnone : ∀ d, d ∉ t.behind hop := fun d hd => hkey (h.known d ((hbehind d).mp hd))
      refine ⟨t, [], rfl, ?_⟩
      have hreported := (reported_iff now t _ .nil
        (fun d hd => absurd hd List.not_mem_nil) fun d hd => RoutingTable.behind_subset_keys hd).mpr
          ⟨.nil, fun d hd => absurd hd (hnone d), h.settled⟩
      rwa [RoutingTable.marked_nil] at hreported

/-! ## A received report -/

section Received
variable {nb : Neighbors} {src : Ipv4Address} {header : RerrHeader}

/-- The destinations that a received RERR makes unreachable -/
def Affected (now : Time) (nb : Neighbors) (t : RoutingTable) (src : Ipv4Address)
    (header : RerrHeader) (d : Ipv4Address) : Prop :=
  (∃ hop ∈ brokenHops now nb header, d ∈ t.behind hop) ∨ d ∈ namedBehind now nb t src header

/-- The reports of `RecvError` are complete. -/
def ReportsReceived (now : Time) (header : RerrHeader) (src : Ipv4Address) (nb : Neighbors)
    (t : RoutingTable) : Prop :=
  ∃ nb' t' messages, recvError now header src nb ⟨t, []⟩ = some (nb', ⟨t', messages⟩) ∧
    Reported (t.purge now) t' messages (Affected now nb (t.purge now) src header)

/-- What is behind a broken next hop outside the table is named otherwise, one message can name all
that is behind a next hop, next hops do not lie behind one another nor named destinations behind
them, and no route to an affected destination is searched for. -/
structure ReceivedReportable (now : Time) (header : RerrHeader) (src : Ipv4Address)
    (nb : Neighbors) (t : RoutingTable) : Prop where
  known : ∀ hop ∈ brokenHops now nb header, hop ∉ t.keys → ∀ d ∈ t.via hop,
    d ∈ brokenHops now nb header ∨ d ∈ namedBehind now nb t src header
  count : ∀ hop ∈ brokenHops now nb header, hop ∈ t.keys → (t.behind hop).length ≤ 255
  apart : ∀ hop e, hop ∈ brokenHops now nb header → (hop, e) ∈ t.rows →
    e.nextHop ∈ brokenHops now nb header → e.nextHop ∈ t.keys → e.nextHop = hop
  namedApart : ∀ d ∈ namedBehind now nb t src header, d ∉ brokenHops now nb header ∧
    ¬(src ∈ brokenHops now nb header ∧ src ∈ t.keys)
  settled : ∀ d e, (d, e) ∈ t.rows → Affected now nb t src header d → e.flag ≠ .inSearch

theorem nodup_brokenHops (hnodup : header.names.Nodup) : (brokenHops now nb header).Nodup := by
  rw [brokenHops]
  split
  · exact .nil
  · refine List.Nodup.append ?_ (hnodup.filter _) ?_
    · rw [Neighbors.closing]
      split
      · exact (List.filter_sublist.map _).nodup nb.nodup
      · exact .nil
    · -- No other neighbour has the address of one that is closed.
      intro d hclosing hnamed
      rw [Neighbors.closing] at hclosing
      split at hclosing
      · obtain ⟨i, hi, rfl⟩ := List.mem_map.mp hclosing
        obtain ⟨j, hj, haddr⟩ := List.any_eq_true.mp (List.mem_filter.mp hnamed).2
        obtain ⟨hi, hcloses⟩ := List.mem_filter.mp hi
        obtain ⟨hj, hopen⟩ := List.mem_filter.mp hj
        obtain rfl := List.inj_on_of_nodup_map nb.nodup hj hi (of_decide_eq_true haddr)
        rw [hcloses] at hopen
        cases hopen
      · exact absurd hclosing List.not_mem_nil

theorem namedBehind_subset_via (h : d ∈ namedBehind now nb t src header) : d ∈ t.via src :=
  (of_decide_eq_true (List.mem_filter.mp h).2).2

theorem RoutingTable.via_subset_keys (h : d ∈ t.via hop) : d ∈ t.keys := by
  obtain ⟨e, hrow, -⟩ := mem_via.mp h
  exact mem_keys.mpr ⟨e, hrow⟩

theorem Affected.mem_keys (h : Affected now nb t src header d) : d ∈ t.keys := by
  rcases h with ⟨hop, -, hbehind⟩ | hnamed
  · exact RoutingTable.behind_subset_keys hbehind
  · exact RoutingTable.via_subset_keys (namedBehind_subset_via hnamed)

theorem mem_reportedNames : d ∈ reportedNames now nb t src header ↔
    (∃ hop ∈ brokenHops now nb header, hop ∈ t.keys ∧ d ∈ t.behind hop) ∨
      d ∈ namedBehind now nb t src header := by
  rw [reportedNames, List.mem_append, List.mem_flatMap]
  simp only [List.mem_filter, decide_eq_true_eq, and_assoc]

/-- A route leads over one next hop. -/
theorem RoutingTable.eq_of_mem_via {hop' : Ipv4Address} (h : d ∈ t.via hop) (h' : d ∈ t.via hop') :
    hop = hop' := by
  obtain ⟨e, hrow, rfl⟩ := mem_via.mp h
  obtain ⟨e', hrow', rfl⟩ := mem_via.mp h'
  have hfind := find_eq_some_iff.mpr hrow
  rw [find_eq_some_iff.mpr hrow'] at hfind
  rw [Option.some.inj hfind]

theorem named_iff_known : (∀ d, Affected now nb t src header d →
      d ∈ reportedNames now nb t src header) ↔
    ∀ hop ∈ brokenHops now nb header, hop ∉ t.keys → ∀ d ∈ t.via hop,
      d ∈ brokenHops now nb header ∨ d ∈ namedBehind now nb t src header := by
  constructor
  · intro h hop hmem hkey d hd
    rcases mem_reportedNames.mp (h d (.inl ⟨hop, hmem, RoutingTable.mem_behind_iff.mpr (.inr hd)⟩))
      with ⟨hop', hmem', hkey', hbehind⟩ | hnamed
    · rcases RoutingTable.mem_behind_iff.mp hbehind with ⟨rfl, -⟩ | hvia
      · exact .inl hmem'
      · exact absurd (RoutingTable.eq_of_mem_via hd hvia ▸ hkey') hkey
    · exact .inr hnamed
  · intro h d hd
    rw [mem_reportedNames]
    rcases hd with ⟨hop, hmem, hbehind⟩ | hnamed
    · by_cases hkey : hop ∈ t.keys
      · exact .inl ⟨hop, hmem, hkey, hbehind⟩
      · rcases RoutingTable.mem_behind_iff.mp hbehind with ⟨rfl, hkey'⟩ | hvia
        · exact absurd hkey' hkey
        · have hdkey := RoutingTable.via_subset_keys hvia
          exact (h hop hmem hkey d hvia).imp_left fun hd =>
            ⟨d, hd, hdkey, RoutingTable.mem_behind_iff.mpr (.inl ⟨rfl, hdkey⟩)⟩
    · exact .inr hnamed

theorem disjoint_behind_iff {hop' : Ipv4Address} (hne : hop ≠ hop') (hkey : hop ∈ t.keys)
    (hkey' : hop' ∈ t.keys) :
    (t.behind hop).Disjoint (t.behind hop') ↔ hop ∉ t.via hop' ∧ hop' ∉ t.via hop := by
  constructor
  · intro h
    constructor
    · intro hvia
      exact h (RoutingTable.mem_behind_iff.mpr (.inl ⟨rfl, hkey⟩))
        (RoutingTable.mem_behind_iff.mpr (.inr hvia))
    · intro hvia
      exact h (RoutingTable.mem_behind_iff.mpr (.inr hvia))
        (RoutingTable.mem_behind_iff.mpr (.inl ⟨rfl, hkey'⟩))
  · rintro ⟨h, h'⟩ d hd hd'
    rcases RoutingTable.mem_behind_iff.mp hd with ⟨rfl, -⟩ | hvia
    · rcases RoutingTable.mem_behind_iff.mp hd' with ⟨rfl, -⟩ | hvia'
      · exact hne rfl
      · exact h hvia'
    · rcases RoutingTable.mem_behind_iff.mp hd' with ⟨rfl, -⟩ | hvia'
      · exact h' hvia
      · exact hne (RoutingTable.eq_of_mem_via hvia hvia')

theorem nodup_behind_iff {hops : List Ipv4Address} (hnodup : hops.Nodup) :
    ((hops.filter (· ∈ t.keys)).flatMap t.behind).Nodup ↔
      ∀ hop e, hop ∈ hops → (hop, e) ∈ t.rows → e.nextHop ∈ hops → e.nextHop ∈ t.keys →
        e.nextHop = hop := by
  have hreached := hnodup.filter (· ∈ t.keys)
  have hmem : ∀ hop, hop ∈ hops.filter (· ∈ t.keys) ↔ hop ∈ hops ∧ hop ∈ t.keys := by simp
  have hsymm : Std.Symm (Function.onFun List.Disjoint t.behind) := ⟨fun _ _ h => h.symm⟩
  rw [List.nodup_flatMap, and_iff_right fun hop _ => t.nodup_behind hop, ← hreached.pairwise_coe]
  constructor
  · intro h hop e hhop hrow hnext hkey
    by_contra hne
    have hhopkey := RoutingTable.mem_keys.mpr ⟨e, hrow⟩
    have hdisjoint := h ((hmem hop).mpr ⟨hhop, hhopkey⟩) ((hmem _).mpr ⟨hnext, hkey⟩)
      (fun heq => hne heq.symm)
    exact ((disjoint_behind_iff (fun heq => hne heq.symm) hhopkey hkey).mp hdisjoint).1
      (RoutingTable.mem_via.mpr ⟨e, hrow, rfl⟩)
  · intro h hop hhop hop' hhop' hne
    obtain ⟨hhop, hkey⟩ := (hmem hop).mp hhop
    obtain ⟨hhop', hkey'⟩ := (hmem hop').mp hhop'
    refine (disjoint_behind_iff hne hkey hkey').mpr ⟨fun hvia => ?_, fun hvia => ?_⟩
    · obtain ⟨e, hrow, rfl⟩ := RoutingTable.mem_via.mp hvia
      exact hne (h hop e hhop hrow hhop' hkey').symm
    · obtain ⟨e, hrow, rfl⟩ := RoutingTable.mem_via.mp hvia
      exact hne (h hop' e hhop' hrow hhop hkey)

theorem nodup_reportedNames_iff (hnodup : header.names.Nodup) :
    (reportedNames now nb t src header).Nodup ↔
      (∀ hop e, hop ∈ brokenHops now nb header → (hop, e) ∈ t.rows →
        e.nextHop ∈ brokenHops now nb header → e.nextHop ∈ t.keys → e.nextHop = hop) ∧
      ∀ d ∈ namedBehind now nb t src header, d ∉ brokenHops now nb header ∧
        ¬(src ∈ brokenHops now nb header ∧ src ∈ t.keys) := by
  have hnamed : (namedBehind now nb t src header).Nodup := hnodup.filter _
  rw [reportedNames, List.nodup_append', nodup_behind_iff (nodup_brokenHops hnodup),
    and_iff_right hnamed]
  refine and_congr_right fun _ => ?_
  constructor
  · intro h d hd
    have hvia := namedBehind_subset_via hd
    have hkey := RoutingTable.via_subset_keys hvia
    have hnot : ∀ hop ∈ brokenHops now nb header, hop ∈ t.keys → d ∉ t.behind hop := by
      intro hop hmem hkey hbehind
      exact h (List.mem_flatMap.mpr ⟨hop, List.mem_filter.mpr ⟨hmem, decide_eq_true hkey⟩,
        hbehind⟩) hd
    exact ⟨fun hmem => hnot d hmem hkey (RoutingTable.mem_behind_iff.mpr (.inl ⟨rfl, hkey⟩)),
      fun hsrc => hnot src hsrc.1 hsrc.2 (RoutingTable.mem_behind_iff.mpr (.inr hvia))⟩
  · intro h d hd hd'
    obtain ⟨hop, hmem, hbehind⟩ := List.mem_flatMap.mp hd
    obtain ⟨hmem, hkey⟩ := List.mem_filter.mp hmem
    obtain ⟨hd, hsrc⟩ := h d hd'
    rcases RoutingTable.mem_behind_iff.mp hbehind with ⟨rfl, -⟩ | hvia
    · exact hd hmem
    · rw [RoutingTable.eq_of_mem_via hvia (namedBehind_subset_via hd')] at hmem hkey
      exact hsrc ⟨hmem, of_decide_eq_true hkey⟩

theorem reportsReceived_iff (now : Time) (src : Ipv4Address) (nb : Neighbors) (t : RoutingTable)
    (hnodup : header.names.Nodup) (hcount : header.names.length ≤ 255) :
    ReportsReceived now header src nb t ↔ ReceivedReportable now header src nb (t.purge now) := by
  obtain ⟨hfits, hfull⟩ := recvError_spec now src nb t [] hnodup hcount
  rw [ReportsReceived]
  have hiff : ∀ messages, Hands messages (reportedNames now nb (t.purge now) src header) → _ :=
    fun messages hhands => reported_iff now (t.purge now)
      (Affected now nb (t.purge now) src header) hhands (fun d hd => by
        rcases mem_reportedNames.mp hd with ⟨hop, hmem, -, hbehind⟩ | hnamed
        · exact .inl ⟨hop, hmem, hbehind⟩
        · exact .inr hnamed) fun d hd => hd.mem_keys
  generalize t.purge now = t at *
  constructor
  · rintro ⟨nb', t', messages, hrecv, hreported⟩
    have hcounts : ∀ hop ∈ brokenHops now nb header, hop ∈ t.keys →
        (t.behind hop).length ≤ 255 := by
      intro hop hmem hkey
      by_contra hlength
      rw [hfull ⟨hop, hmem, hkey, hlength⟩] at hrecv
      cases hrecv
    obtain ⟨nb'', messages', hrecv', hhands⟩ := hfits hcounts
    obtain ⟨-, hreporting⟩ := Prod.mk.inj (Option.some.inj (hrecv'.symm.trans hrecv))
    obtain ⟨rfl, rfl⟩ := Reporting.mk.inj hreporting
    obtain ⟨hnames, hknown, hsettled⟩ := (hiff _ hhands).mp hreported
    obtain ⟨hapart, hnamedApart⟩ := (nodup_reportedNames_iff hnodup).mp hnames
    exact ⟨named_iff_known.mp hknown, hcounts, hapart, hnamedApart, hsettled⟩
  · intro h
    obtain ⟨nb', messages, hrecv, hhands⟩ := hfits h.count
    exact ⟨nb', _, messages, hrecv, (hiff messages hhands).mpr
      ⟨(nodup_reportedNames_iff hnodup).mpr ⟨h.apart, h.namedApart⟩, named_iff_known.mpr h.known,
        h.settled⟩⟩

/-- Both functions report completely under their conditions only. -/
theorem reports_iff (now : Time) (hop src : Ipv4Address) (nb : Neighbors) (t : RoutingTable)
    {flag reserved dest : UInt8} {records : ℕ → Ipv4Address × UInt32}
    (h : RerrHeader.deserialize flag reserved dest records = some header) :
    (ReportsBroken now hop t ↔ Reportable hop (t.purge now)) ∧
      (ReportsReceived now header src nb t ↔
        ReceivedReportable now header src nb (t.purge now)) := by
  obtain ⟨hnodup, hcount⟩ := RerrHeader.of_deserialize h
  exact ⟨reportsBroken_iff now hop t, reportsReceived_iff now src nb t hnodup hcount⟩

/-- A valid route with a precursor -/
def routeOver (nextHop : Ipv4Address) : RoutingTableEntry :=
  ⟨true, 1, 1, 5, nextHop, .valid, [9], 0⟩

/-- Node 3 lies behind node 2. -/
def chain : RoutingTable := ⟨[(2, routeOver 2), (3, routeOver 2)], by decide⟩

theorem reports_chain : ReportsBroken 0 2 chain ∧
    ReportsReceived 0 ⟨0, 0, [(3, 7)]⟩ 2 ⟨[⟨2, 100, false⟩], by decide, true⟩ chain := by
  have hpurge : chain.purge 0 = chain := by decide
  have hsettled : ∀ row ∈ chain.rows, row.2.flag ≠ .inSearch := by decide
  obtain ⟨hbroken, hreceived⟩ := reports_iff 0 2 2 ⟨[⟨2, 100, false⟩], by decide, true⟩ chain
    (show RerrHeader.deserialize 0 0 1 (fun _ => (3, 7)) = some ⟨0, 0, [(3, 7)]⟩ by decide)
  rw [hpurge] at hbroken hreceived
  have hnone : ∀ hop, hop ∉ brokenHops 0 ⟨[⟨2, 100, false⟩], by decide, true⟩
      ⟨0, 0, [(3, 7)]⟩ := by
    rw [← List.eq_nil_iff_forall_not_mem]
    decide
  have hkey : 2 ∈ chain.keys := by decide
  refine ⟨hbroken.mpr ⟨fun d _ => hkey, by decide, fun d e hrow _ => hsettled (d, e) hrow⟩,
    hreceived.mpr ?_⟩
  exact
    { known := fun hop hmem => absurd hmem (hnone hop)
      count := fun hop hmem => absurd hmem (hnone hop)
      apart := fun hop e hmem => absurd hmem (hnone hop)
      namedApart := fun d _ => ⟨hnone d, fun hsrc => hnone 2 hsrc.1⟩
      settled := fun d e hrow _ => hsettled (d, e) hrow }

/-- `n` destinations from 1 on, all with node 1 as the next hop -/
def fan (n : ℕ) (h : n < 2 ^ 32) : RoutingTable where
  rows := (List.range n).map fun i => (BitVec.ofNat 32 (i + 1), routeOver 1)
  nodup := by
    rw [List.map_map]
    refine List.Nodup.map_on (fun i hi j hj heq => ?_) List.nodup_range
    rw [List.mem_range] at hi hj
    have hmod := congrArg BitVec.toNat heq
    simp only [Function.comp_apply, BitVec.toNat_ofNat] at hmod
    omega

theorem behind_fan (n : ℕ) (h : n < 2 ^ 32) : ((fan n h).behind 1).length = n := by
  have hall : ∀ row ∈ (fan n h).rows, row.1 = 1 ∨ row.2.nextHop = 1 := by
    intro row hrow
    obtain ⟨i, -, rfl⟩ := List.mem_map.mp hrow
    exact .inr rfl
  rw [RoutingTable.behind, List.filter_eq_self.mpr fun row hrow => decide_eq_true (hall row hrow),
    List.length_map, fan, List.length_map, List.length_range]

theorem purge_fan (n : ℕ) (h : n < 2 ^ 32) : (fan n h).purge 0 = fan n h := by
  apply RoutingTable.purge_eq_self
  intro row hrow
  obtain ⟨i, -, rfl⟩ := List.mem_map.mp hrow
  rfl

/-- One message does not hold the destinations behind node 1. -/
theorem not_reportsBroken_fan : ¬ReportsBroken 0 1 (fan 256 (by omega)) := by
  rw [reportsBroken_iff, purge_fan]
  intro h
  have hcount := h.count
  rw [behind_fan] at hcount
  omega

end Received

end Ns3Noc.Aodv

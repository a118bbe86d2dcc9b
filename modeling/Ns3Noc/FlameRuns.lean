import Ns3Noc.FlameTurns

/-!
# Runs of a mesh

The numbers that a node stores for a source only go up, so that each frame is handled at most once.
-/
namespace Ns3Noc.Flame

open Wifi (Mac48Address)
open PartialRuns FlameProtocol FlameRtable

variable {mesh : Mesh} {net net' : Network} {m : Mac48Address} {origin : Sighting}
  {s : FlameProtocol} {events : List Event} {inFlight frames : List Frame}

/-! ## The frames of one source at one node -/

/-- The number that is stored for the source is that of the last frame accepted, and no frame in
flight is half the range behind it. -/
structure Tracks (source n : Mac48Address) (net : Network) : Prop where
  seqnum_eq : ((net.node n).routes source).map Route.seqnum =
    (net.stored n source).getLast?.map fun x => seqnoOf x.index
  seqnum_increases : (net.stored n source).IsChain fun x y =>
    x.index < y.index ∧ (seqnoOf x.index - seqnoOf y.index).toInt16 < 0
  index_lt : ∀ x ∈ net.stored n source, x.index < net.sent source
  index_le : ∀ x ∈ net.stored n source, ∀ f ∈ net.inFlight, f.source = source →
    x.index ≤ f.sighting.index + (2 ^ 15 - 1)
  passedUp_sublist : (net.passedUp n source).Sublist (net.stored n source)
  forwarded_sublist : List.Sublist ((net.forwarded n source).map Sighting.index)
    ((net.stored n source).map Sighting.index)

theorem Tracks.create (source n : Mac48Address) : Tracks source n .create where
  seqnum_eq := rfl
  seqnum_increases := .nil
  index_lt _ hx := absurd hx List.not_mem_nil
  index_le _ hx := absurd hx List.not_mem_nil
  passedUp_sublist := List.nil_sublist _
  forwarded_sublist := List.nil_sublist _

variable {source n : Mac48Address}

/-- A turn that stores nothing for the source keeps track of it. -/
theorem Tracks.after (h : Tracks source n net) (hsub : inFlight ⊆ net.inFlight)
    (hroutes : ((net.after m origin s events inFlight frames).node n).routes source =
      (net.node n).routes source)
    (hstored : (entries m origin (net.sent m) events).filterMap (Entry.stored n source) = [])
    (hpassed : (entries m origin (net.sent m) events).filterMap (Entry.passedUp n source) = [])
    (hforwarded : (entries m origin (net.sent m) events).filterMap (Entry.forwarded n source) = [])
    (hframes : ∀ f ∈ frames, f.source = source → net.sent source ≤ f.sighting.index ∨
      ∃ f₀ ∈ net.inFlight, f₀.source = source ∧ f.sighting.index = f₀.sighting.index) :
    Tracks source n (net.after m origin s events inFlight frames) where
  seqnum_eq := by
    rw [hroutes, Network.after_stored, hstored, List.append_nil]
    exact h.seqnum_eq
  seqnum_increases := by
    rw [Network.after_stored, hstored, List.append_nil]
    exact h.seqnum_increases
  index_lt x hx := by
    rw [Network.after_stored, hstored, List.append_nil] at hx
    exact (h.index_lt x hx).trans_le (Network.sent_le_after source)
  index_le x hx f hf hsource := by
    rw [Network.after_stored, hstored, List.append_nil] at hx
    cases List.mem_append.mp hf with
    | inl hf => exact h.index_le x hx f (hsub hf) hsource
    | inr hf =>
      obtain hle | ⟨f₀, hf₀, hsource₀, heq⟩ := hframes f hf hsource
      · have hlt := h.index_lt x hx
        omega
      · rw [heq]
        exact h.index_le x hx f₀ hf₀ hsource₀
  passedUp_sublist := by
    rw [Network.after_stored, Network.after_passedUp, hstored, hpassed, List.append_nil,
      List.append_nil]
    exact h.passedUp_sublist
  forwarded_sublist := by
    rw [Network.after_stored, Network.after_forwarded, hstored, hforwarded, List.append_nil,
      List.append_nil]
    exact h.forwarded_sublist

/-- The frames that an accepted frame puts on the air are new or have its number. -/
theorem FlameProtocol.Accepted.frames_index (h : Sane mesh net) {f₀ : Frame} {hdr : FlameHeader}
    {route : Route}
    (hacc : Accepted (mesh.device m) m net.now (net.node m) s f₀.source hdr route events)
    (hcopies : net.Copies (mesh.device m) m f₀.sighting events frames) :
    ∀ f ∈ frames, net.sent f.source ≤ f.sighting.index ∨
      f₀.source = f.source ∧ f.sighting.index = f₀.sighting.index := by
  intro f hf
  obtain ⟨entry, hentry, hloud, hcopy⟩ := hcopies f hf
  obtain hsilent | hown | hforwards :=
    (hacc.numbered f₀.sighting (net.sent m) (h.myLastSeqno_eq m)).2 entry hentry
  · exact absurd hsilent hloud
  · obtain ⟨hm, hle⟩ := hown.copy hcopy
    rw [hm]
    exact .inl hle
  · obtain ⟨hsource, hindex⟩ := hforwards.copy hcopy
    exact .inr ⟨hsource.symm, hindex⟩

/-- A newer frame of the source is accepted. -/
theorem Tracks.accept (h : Tracks source m net) (hsane : Sane mesh net) {f₀ : Frame}
    {hdr : FlameHeader} {route : Route} (hsub : inFlight ⊆ net.inFlight)
    (hf₀ : f₀ ∈ net.inFlight) (hsource : f₀.source = source)
    (hheader : f₀.packet.header = some hdr) (hseqnum : route.seqnum = hdr.seqno)
    (hacc : Accepted (mesh.device m) m net.now (net.node m) s f₀.source hdr route events)
    (hcopies : net.Copies (mesh.device m) m f₀.sighting events frames)
    (hunexpired : ∀ route, (net.node m).routes source = some route → net.now ≤ route.whenExpire)
    (hwithin : net.Within source (2 ^ 15 - 1)) :
    Tracks source m (net.after m f₀.sighting s events inFlight frames) := by
  subst hsource
  obtain ⟨-, -, -, hdr', hheader', hseqno, -, hindex, -⟩ := hsane.frames f₀ hf₀
  obtain rfl := Option.some.inj (hheader.symm.trans hheader')
  obtain ⟨hstored, hpassed, hforwarded⟩ :=
    hacc.filterMap_eq m f₀.source f₀.sighting (net.sent m)
  have hpair : ∀ x, ofPair m m f₀.source f₀.source x = [x] := fun x => if_pos ⟨rfl, rfl⟩
  rw [hpair] at hstored hpassed hforwarded
  -- the number that is stored is older, so its frame is
  have hlast : ∀ x ∈ (net.stored m f₀.source).getLast?, x.index < f₀.sighting.index ∧
      (seqnoOf x.index - seqnoOf f₀.sighting.index).toInt16 < 0 := by
    intro x hx
    have hseq := h.seqnum_eq
    rw [hx, Option.map_some, Option.map_eq_some_iff] at hseq
    obtain ⟨route', hroute', hnum⟩ := hseq
    have hneg := hacc.newer route' hroute' (hunexpired route' hroute')
    rw [hnum, hseqno] at hneg
    have hmem : x ∈ net.stored m f₀.source := List.mem_of_getLast? hx
    exact ⟨index_lt_of_toInt16_neg (h.index_le x hmem f₀ hf₀ rfl) hneg, hneg⟩
  constructor
  · rw [Network.after_node_self, hacc.learned.1, Network.after_stored, hstored,
      List.getLast?_append, List.getLast?_singleton, Option.map_some, Option.some_or,
      Option.map_some, hseqnum, hseqno]
  · rw [Network.after_stored, hstored, List.isChain_append]
    refine ⟨h.seqnum_increases, .singleton _, fun x hx y hy => ?_⟩
    rw [Option.mem_def, List.head?_cons] at hy
    exact Option.some.inj hy ▸ hlast x hx
  · intro x hx
    rw [Network.after_stored, hstored] at hx
    refine Nat.lt_of_lt_of_le ?_ (Network.sent_le_after f₀.source)
    cases List.mem_append.mp hx with
    | inl hx => exact h.index_lt x hx
    | inr hx => exact List.mem_singleton.mp hx ▸ hindex
  · intro x hx f hf hfs
    rw [Network.after_stored, hstored] at hx
    have hold : net.sent f₀.source ≤ f.sighting.index ∨
        ∃ f' ∈ net.inFlight, f'.source = f₀.source ∧ f.sighting.index = f'.sighting.index := by
      cases List.mem_append.mp hf with
      | inl hf => exact .inr ⟨f, hsub hf, hfs, rfl⟩
      | inr hf =>
        rw [← hfs]
        cases hacc.frames_index hsane hcopies f hf with
        | inl hle => exact .inl hle
        | inr heq => exact .inr ⟨f₀, hf₀, heq⟩
    obtain hle | ⟨f', hf', hsource', heq⟩ := hold
    · cases List.mem_append.mp hx with
      | inl hx =>
        have hlt := h.index_lt x hx
        omega
      | inr hx =>
        rw [List.mem_singleton.mp hx]
        omega
    · rw [heq]
      cases List.mem_append.mp hx with
      | inl hx => exact h.index_le x hx f' hf' hsource'
      | inr hx =>
        rw [List.mem_singleton.mp hx]
        exact hwithin f₀ hf₀ f' hf' rfl hsource'
  · rw [Network.after_stored, Network.after_passedUp, hstored]
    exact h.passedUp_sublist.append hpassed
  · rw [Network.after_stored, Network.after_forwarded, hstored, List.map_append, List.map_append]
    exact h.forwarded_sublist.append (hforwarded.map Sighting.index)

theorem Tracks.of_turn (h : Tracks source n net) (hsane : Sane mesh net)
    (hunexpired : ∀ route, (net.node n).routes source = some route → net.now ≤ route.whenExpire)
    (hwithin : net.Within source (2 ^ 15 - 1)) (hturn : Turn mesh net net') :
    Tracks source n net' := by
  cases hturn with
  | wait now =>
    exact ⟨h.seqnum_eq, h.seqnum_increases, h.index_lt, h.index_le, h.passedUp_sublist,
      h.forwarded_sublist⟩
  | air inFlight hsub =>
    exact ⟨h.seqnum_eq, h.seqnum_increases, h.index_lt,
      fun x hx f hf => h.index_le x hx f (hsub hf), h.passedUp_sublist, h.forwarded_sublist⟩
  | @quiet m origin s events inFlight frames hm hsub horig htrim hcopies =>
    obtain ⟨hstored, hpassed, hforwarded⟩ := horig.filterMap_eq n source origin (net.sent m)
    refine h.after hsub ?_ hstored hpassed hforwarded fun f hf hsource => ?_
    · by_cases hn : n = m
      · subst hn
        rw [Network.after_node_self, htrim.eq_of_unexpired hunexpired]
      · rw [Network.after_node_of_ne hn]
    · obtain ⟨entry, hentry, -, hcopy⟩ := hcopies f hf
      have hown := (horig.numbered origin (net.sent m) (hsane.myLastSeqno_eq m)).2 entry hentry
      obtain ⟨hm, hle⟩ := hown.copy hcopy
      rw [← hsource, hm]
      exact .inl hle
  | @accept m f₀ hdr route s events inFlight frames hm hsub hf₀ hheader hseqnum hroute hacc
      hcopies =>
    by_cases hpair : m = n ∧ f₀.source = source
    · obtain ⟨rfl, hsource⟩ := hpair
      exact h.accept hsane hsub hf₀ hsource hheader hseqnum hacc hcopies hunexpired hwithin
    · obtain ⟨hstored, hpassed, hforwarded⟩ :=
        hacc.filterMap_eq n source f₀.sighting (net.sent m)
      have hnil : ∀ x, ofPair m n f₀.source source x = [] := fun x => if_neg hpair
      rw [hnil] at hstored hpassed hforwarded
      refine h.after hsub ?_ hstored (List.sublist_nil.mp hpassed) (List.sublist_nil.mp hforwarded)
        fun f hf hsource => ?_
      · by_cases hn : n = m
        · subst hn
          have hne : source ≠ f₀.source := fun heq => hpair ⟨rfl, heq.symm⟩
          rw [Network.after_node_self]
          cases hacc.learned.2 source hne with
          | inl heq => exact heq
          | inr hgone =>
            obtain ⟨-, route, hroute, hexpired⟩ := hgone
            exact absurd (hunexpired route hroute) (Nat.not_le.mpr hexpired)
        · rw [Network.after_node_of_ne hn]
      · cases hacc.frames_index hsane hcopies f hf with
        | inl hle => exact .inl (hsource ▸ hle)
        | inr heq => exact .inr ⟨f₀, hf₀, heq.1.trans hsource, heq.2⟩

/-- No frame is stored twice. -/
theorem Tracks.nodup (h : Tracks source n net) :
    ((net.stored n source).map Sighting.index).Nodup := by
  have hchain : (net.stored n source).IsChain fun x y => x.index < y.index :=
    h.seqnum_increases.imp fun _ _ hxy => hxy.1
  have htrans : IsTrans Sighting fun x y => x.index < y.index := ⟨fun _ _ _ => Nat.lt_trans⟩
  rw [List.Nodup, List.pairwise_map]
  exact (List.isChain_iff_pairwise.mp hchain).imp Nat.ne_of_lt

theorem handlesOnce_of_tracks (hsane : Sane mesh net) {watch : Finset Mac48Address}
    (h : ∀ n ∈ watch, Tracks source n net) : mesh.HandlesOnce source watch net where
  passedUp_nodup n hn := (h n hn).nodup.sublist ((h n hn).passedUp_sublist.map Sighting.index)
  forwarded_nodup n hn := (h n hn).nodup.sublist (h n hn).forwarded_sublist
  own_frames := hsane.own_frames source
  frames_numbered f hf _ := (hsane.frames f hf).2.2.2
  seqnum_eq n hn := (h n hn).seqnum_eq
  seqnum_increases n hn := (h n hn).seqnum_increases
  hops_le n hn := hsane.hops_le n hn source
  forwarded_hops_le n hn := hsane.forwarded_hops_le n hn source
  flood_le index := by
    have hone : ∀ n ∈ watch, (net.forwarded n source).countP (·.index = index) ≤ 1 := by
      intro n hn
      have hnodup := (h n hn).nodup.sublist (h n hn).forwarded_sublist
      have hcount := List.nodup_iff_count_le_one.mp hnodup index
      rw [List.count, List.countP_map] at hcount
      exact hcount
    have hsum := Finset.sum_le_card_nsmul watch _ 1 hone
    rw [smul_eq_mul, Nat.mul_one] at hsum
    exact hsum

/-- The steps that the mesh can be held to: no route to the source expires at a watched node, and the
numbers of the source that are in flight differ by at most `width`. -/
def Mesh.Kept (mesh : Mesh) (width : ℕ) (source : Mac48Address) (watch : Finset Mac48Address)
    (net : Network) (l : Label) : Prop :=
  mesh.Legal net l ∧ net.Unexpired source watch ∧ net.Within source width

/-- Where the numbers in flight differ by less than half the range, no run of a mesh stops on a fatal
error or a failed assertion, and each frame is handled at most once. -/
theorem Mesh.always_handlesOnce (mesh : Mesh)
    (hmax : ∀ n ∈ mesh.nodes, (mesh.device n).maxCost < 255) (source : Mac48Address)
    (watch : Finset Mac48Address) (ls : List Label)
    (hls : Allowed mesh.step (mesh.Kept (2 ^ 15 - 1) source watch) .create ls) :
    (run mesh.step .create ls).isSome ∧
      Always mesh.step (mesh.HandlesOnce source watch) .create ls := by
  have hstep : ∀ net l, (Sane mesh net ∧ ∀ n ∈ watch, Tracks source n net) →
      mesh.Kept (2 ^ 15 - 1) source watch net l → ∃ net', mesh.step net l = some net' ∧
        Sane mesh net' ∧ ∀ n ∈ watch, Tracks source n net' := by
    rintro net l ⟨hsane, htracks⟩ ⟨hlegal, hunexpired, hwithin⟩
    obtain ⟨net', hnet', hturn⟩ := hsane.turn hlegal
    exact ⟨net', hnet', hsane.of_turn hmax hturn, fun n hn =>
      (htracks n hn).of_turn hsane (hunexpired n hn) hwithin hturn⟩
  exact completes_of_allowed (fun net h => handlesOnce_of_tracks h.1 h.2) hstep
    ⟨Sane.create mesh, fun n _ => Tracks.create source n⟩ hls

instance Mesh.decidableKept (mesh : Mesh) (width : ℕ) (source : Mac48Address)
    (watch : Finset Mac48Address) (net : Network) (l : Label) :
    Decidable (mesh.Kept width source watch net l) :=
  inferInstanceAs (Decidable
    (mesh.Legal net l ∧ net.Unexpired source watch ∧ net.Within source width))

/-! ## Half the range -/

def alice : Mac48Address := 0x000000000001
def bob : Mac48Address := 0x000000000002

theorem alice_ne_broadcast : ∀ i ∈ [((1 : ℕ), alice)], i.2 ≠ broadcast := by decide
theorem bob_ne_broadcast : ∀ i ∈ [((1 : ℕ), bob)], i.2 ≠ broadcast := by decide
theorem zero_notMem_pairOf (address : Mac48Address) : 0 ∉ [((1 : ℕ), address)].map Prod.fst := by
  simp
theorem three_le_maxCost_pair : (3 : UInt8) ≤ 32 := by decide

theorem isGroup_pair : ∀ n ∈ ({alice, bob} : Finset Mac48Address), n.isGroup = false := by
  intro n hn
  obtain rfl | rfl := by simpa using hn
  · decide
  · decide

/-- Two mesh points with the default attributes, in milliseconds -/
def pair : Mesh where
  nodes := {alice, bob}
  device n :=
    if n = alice then
      ⟨0, [(1, alice)], 5000, 32, 120000, three_le_maxCost_pair, zero_notMem_pairOf alice,
        alice_ne_broadcast⟩
    else
      ⟨0, [(1, bob)], 5000, 32, 120000, three_le_maxCost_pair, zero_notMem_pairOf bob,
        bob_ne_broadcast⟩
  isGroup_eq_false := isGroup_pair

theorem alice_mem_pair : alice ∈ pair.nodes := by decide

theorem bob_mem_pair : bob ∈ pair.nodes := by decide

def hello : Sending := ⟨[], broadcast, 0⟩

/-- The frame of `hello` -/
def helloFrame (index : ℕ) : Frame :=
  ⟨⟨[], some ⟨0, seqnoOf index, broadcast, alice, 0⟩, none⟩, broadcast, alice, broadcast, alice,
    flameProtocol, ⟨index, 0⟩⟩

/-- The frame when it has been sent on -/
def helloFrame' (index : ℕ) : Frame :=
  ⟨⟨[], some ⟨1, seqnoOf index, broadcast, alice, 0⟩, none⟩, broadcast, bob, broadcast, alice,
    flameProtocol, ⟨index, 1⟩⟩

/-- `bob` has stored the number of a frame. -/
def stored (index : ℕ) : FlameRtable :=
  Function.update (fun _ => none) alice (some ⟨alice, 1, 0, 120000, seqnoOf index⟩)

/-- `alice` has sent `k` frames, and `bob` has stored the number of one. -/
def talk (k index : ℕ) (inFlight : List Frame) (log : List Entry) : Network where
  now := 0
  node := Function.update (Function.update (fun _ => .create) alice ⟨0, seqnoOf k, fun _ => none⟩)
    bob ⟨0, 1, stored index⟩
  inFlight := inFlight
  sent := Function.update (Function.update (fun _ => 0) alice k) bob 0
  log := log

variable (k index : ℕ) (inFlight : List Frame) (log : List Entry)

/-- The frame that `alice` sends. -/
def sentHello (index : ℕ) : Event :=
  .doSend ⟨[], some ⟨0, seqnoOf index, broadcast, alice, 0⟩, some (.create broadcast)⟩ alice
    broadcast flameProtocol interfaceAny

theorem send_hello : pair.step (talk k index inFlight log) (.send alice hello) =
    some (talk (k + 1) index (inFlight ++ [helloFrame k])
      (log ++ [⟨alice, sentHello k, ⟨k, 0⟩⟩])) := by
  have hsend : FlameProtocol.send (pair.device alice) alice 0 ⟨0, seqnoOf k, fun _ => none⟩ hello =
      .ok (false, ⟨0, seqnoOf (k + 1), fun _ => none⟩, [sentHello k]) := by
    rw [← seqnoOf_succ]
    rfl
  have hreact : pair.react (talk k index inFlight log) alice ⟨0, 0⟩
      ⟨0, seqnoOf (k + 1), fun _ => none⟩ [sentHello k] =
      .ok (talk (k + 1) index (inFlight ++ [helloFrame k])
        (log ++ [⟨alice, sentHello k, ⟨k, 0⟩⟩])) := by
    have hframes : (pair.device alice).transmitAll (entries alice ⟨0, 0⟩ k [sentHello k]) =
        .ok [helloFrame k] := rfl
    have hne : bob ≠ alice := by decide
    have hsent : (talk k index inFlight log).sent alice = k := rfl
    rw [Mesh.react, hsent]
    simp only [bind, Except.bind, hframes]
    simp only [talk, Function.update_comm hne, Function.update_idem]
    rfl
  have hnode : (talk k index inFlight log).node alice = ⟨0, seqnoOf k, fun _ => none⟩ := rfl
  have hnow : (talk k index inFlight log).now = 0 := rfl
  rw [Mesh.step, hnode, hnow]
  simp only [bind, Except.bind, hsend, hreact]
  rfl

/-- What `bob` does with the frame. -/
def receivedHello (index : ℕ) : List Event :=
  [.addPath alice alice 1 0 (seqnoOf index), .rxCallback ⟨[], none, none⟩ 0 alice,
    .doSend ⟨[], some ⟨1, seqnoOf index, broadcast, alice, 0⟩, some (.create broadcast)⟩ alice
      broadcast flameProtocol interfaceAny]

theorem deliver_hello (j : ℕ)
    (hreceive : FlameProtocol.receiveFromDevice (pair.device bob) bob 0 ⟨0, 1, stored index⟩ 1
        ⟨[], some ⟨0, seqnoOf j, broadcast, alice, 0⟩, some ⟨broadcast, alice⟩⟩ flameProtocol alice
        broadcast [] =
      .ok (⟨0, 1, Function.update (stored index) alice (some ⟨alice, 1, 0, 120000, seqnoOf j⟩)⟩,
        receivedHello j)) :
    pair.deliver (talk k index inFlight log) (helloFrame j) bob 1 [] =
      .ok (talk k j (inFlight ++ [helloFrame' j])
        (log ++ entries bob ⟨j, 0⟩ 0 (receivedHello j))) := by
  have hframes : (pair.device bob).transmitAll (entries bob ⟨j, 0⟩ 0 (receivedHello j)) =
      .ok [helloFrame' j] := rfl
  have hpacket : (helloFrame j).receive =
      .ok ⟨[], some ⟨0, seqnoOf j, broadcast, alice, 0⟩, some ⟨broadcast, alice⟩⟩ := rfl
  have hreact : pair.react (talk k index inFlight log) bob ⟨j, 0⟩
      ⟨0, 1, Function.update (stored index) alice (some ⟨alice, 1, 0, 120000, seqnoOf j⟩)⟩
      (receivedHello j) =
      .ok (talk k j (inFlight ++ [helloFrame' j])
        (log ++ entries bob ⟨j, 0⟩ 0 (receivedHello j))) := by
    have hsent : (talk k index inFlight log).sent bob = 0 := rfl
    rw [Mesh.react, hsent]
    simp only [bind, Except.bind, hframes]
    simp only [talk, stored, Function.update_idem]
    rfl
  have hnode : (talk k index inFlight log).node bob = ⟨0, 1, stored index⟩ := rfl
  have hnow : (talk k index inFlight log).now = 0 := rfl
  have hsource : (helloFrame j).source = alice := rfl
  have hdestination : (helloFrame j).destination = broadcast := rfl
  have hprotocol : (helloFrame j).protocol = flameProtocol := rfl
  rw [Mesh.deliver, hnode, hnow, hsource, hdestination, hprotocol]
  simp only [bind, Except.bind, hpacket, hreceive]
  exact hreact

/-- At the start no route has expired. -/
theorem kept_of_now {width : ℕ} {net : Network} (hnow : net.now = 0)
    (hsmall : ∀ f ∈ net.inFlight, f.sighting.index ≤ width) {l : Label}
    (hlegal : pair.Legal net l) : pair.Kept width alice {bob} net l :=
  ⟨hlegal, fun _ _ route _ => hnow ▸ Nat.zero_le route.whenExpire,
    fun f hf _ _ _ _ => (hsmall f hf).trans (Nat.le_add_left ..)⟩

theorem index_helloFrame_le {c width : ℕ} (hc : c ≤ width) :
    ∀ f ∈ [helloFrame 0, helloFrame c], f.sighting.index ≤ width := by
  intro f hf
  obtain rfl | rfl := by simpa using hf
  · exact Nat.zero_le _
  · exact hc

/-- Frames of `alice` that are all lost -/
def lostHellos : ℕ → List Label
  | 0 => []
  | k + 1 => .send alice hello :: .lose 1 :: lostHellos k

theorem run_lostHellos (c : ℕ) (hk : c + k ≤ 2 ^ 15) :
    ∃ log', log'.filterMap (Entry.passedUp bob alice) = log.filterMap (Entry.passedUp bob alice) ∧
      run pair.step (talk c 0 [helloFrame 0] log) (lostHellos k) =
        some (talk (c + k) 0 [helloFrame 0] log') ∧
      Allowed pair.step (pair.Kept (2 ^ 15) alice {bob}) (talk c 0 [helloFrame 0] log)
        (lostHellos k) := by
  induction k generalizing c log with
  | zero => exact ⟨log, rfl, rfl, True.intro⟩
  | succ k ih =>
    obtain ⟨log', hlog', hrun, hallowed⟩ :=
      ih (log ++ [⟨alice, sentHello c, ⟨c, 0⟩⟩]) (c + 1) (by omega)
    have hlose : pair.step (talk (c + 1) 0 [helloFrame 0, helloFrame c]
        (log ++ [⟨alice, sentHello c, ⟨c, 0⟩⟩])) (.lose 1) =
        some (talk (c + 1) 0 [helloFrame 0] (log ++ [⟨alice, sentHello c, ⟨c, 0⟩⟩])) := rfl
    refine ⟨log', ?_, ?_, ?_⟩
    · rw [hlog', List.filterMap_append]
      exact List.append_nil _
    · rw [lostHellos, run_cons, send_hello, Option.bind_some, List.singleton_append, run_cons,
        hlose, Option.bind_some, hrun, Nat.add_assoc, Nat.add_comm 1]
    · have hfirst : ∀ f ∈ [helloFrame 0], f.sighting.index ≤ 2 ^ 15 := fun f hf =>
        index_helloFrame_le (Nat.zero_le _) f (List.mem_cons_of_mem (helloFrame 0) hf)
      have hboth : ∀ f ∈ [helloFrame 0, helloFrame c], f.sighting.index ≤ 2 ^ 15 :=
        index_helloFrame_le ((Nat.le_add_right c (k + 1)).trans hk)
      refine ⟨kept_of_now rfl hfirst alice_mem_pair, fun net hnet => ?_⟩
      rw [send_hello, List.singleton_append] at hnet
      obtain rfl := Option.some.inj hnet
      refine ⟨kept_of_now rfl hboth Nat.one_lt_two, fun net hnet => ?_⟩
      rw [hlose] at hnet
      exact Option.some.inj hnet ▸ hallowed

/-- `alice` has sent the first frame. -/
def greeting (inFlight : List Frame) : Network where
  now := 0
  node := Function.update (fun _ => .create) alice ⟨0, seqnoOf 1, fun _ => none⟩
  inFlight := inFlight
  sent := Function.update (fun _ => 0) alice 1
  log := [⟨alice, sentHello 0, ⟨0, 0⟩⟩]

theorem step_create_hello :
    pair.step .create (.send alice hello) = some (greeting [helloFrame 0]) := rfl

theorem step_greeting_duplicate : pair.step (greeting [helloFrame 0]) (.duplicate 0) =
    some (greeting [helloFrame 0, helloFrame 0]) := rfl

/-- The entries of the first frame -/
def firstLog : List Entry :=
  ⟨alice, sentHello 0, ⟨0, 0⟩⟩ :: entries bob ⟨0, 0⟩ 0 (receivedHello 0)

theorem step_greeting_deliver :
    pair.step (greeting [helloFrame 0, helloFrame 0]) (.deliver 0 bob 1 []) =
      some (talk 1 0 [helloFrame 0, helloFrame' 0] firstLog) := rfl

theorem step_deliver_hello {i j : ℕ} (hi : inFlight[i]? = some (helloFrame j))
    (hreceive : FlameProtocol.receiveFromDevice (pair.device bob) bob 0 ⟨0, 1, stored index⟩ 1
        ⟨[], some ⟨0, seqnoOf j, broadcast, alice, 0⟩, some ⟨broadcast, alice⟩⟩ flameProtocol alice
        broadcast [] =
      .ok (⟨0, 1, Function.update (stored index) alice (some ⟨alice, 1, 0, 120000, seqnoOf j⟩)⟩,
        receivedHello j)) :
    pair.step (talk k index inFlight log) (.deliver i bob 1 []) =
      some (talk k j (inFlight.eraseIdx i ++ [helloFrame' j])
        (log ++ entries bob ⟨j, 0⟩ 0 (receivedHello j))) := by
  have hget : (talk k index inFlight log).inFlight[i]? = some (helloFrame j) := hi
  have hdeliver := deliver_hello k index (inFlight.eraseIdx i) log j hreceive
  rw [Mesh.step, hget, Option.bind_some]
  exact congrArg Except.toOption hdeliver

/-- The first frame is sent, and one of two copies reaches `bob`. -/
def firstHello : List Label :=
  [.send alice hello, .duplicate 0, .deliver 0 bob 1 [], .lose 1]

theorem run_firstHello :
    run pair.step .create firstHello = some (talk 1 0 [helloFrame 0] firstLog) := rfl

theorem allowed_firstHello (width : ℕ) :
    Allowed pair.step (pair.Kept width alice {bob}) .create firstHello := by
  have hzero : ∀ f ∈ [helloFrame 0, helloFrame 0], f.sighting.index ≤ width :=
    index_helloFrame_le (Nat.zero_le width)
  refine ⟨kept_of_now rfl (fun f hf => absurd hf List.not_mem_nil) alice_mem_pair, fun net hnet => ?_⟩
  obtain rfl := Option.some.inj (step_create_hello.symm.trans hnet)
  refine ⟨kept_of_now rfl (fun f hf => hzero f (List.mem_cons_of_mem _ hf)) Nat.one_pos,
    fun net hnet => ?_⟩
  obtain rfl := Option.some.inj (step_greeting_duplicate.symm.trans hnet)
  refine ⟨kept_of_now rfl hzero ⟨Nat.two_pos, bob_mem_pair, List.mem_singleton_self 1⟩,
    fun net hnet => ?_⟩
  obtain rfl := Option.some.inj (step_greeting_deliver.symm.trans hnet)
  refine ⟨kept_of_now rfl (fun f hf => ?_) Nat.one_lt_two, fun _ _ => True.intro⟩
  obtain rfl | rfl : f = helloFrame 0 ∨ f = helloFrame' 0 := by simpa [talk] using hf
  · exact Nat.zero_le width
  · exact Nat.zero_le width

theorem maxCost_pair_lt : ∀ n ∈ pair.nodes, (pair.device n).maxCost < 255 := by
  intro n hn
  obtain rfl | rfl : n = alice ∨ n = bob := by simpa [pair] using hn
  · decide
  · decide

theorem Mesh.always_handlesOnce_firstHello :
    (∀ n ∈ pair.nodes, (pair.device n).maxCost < 255) ∧
      (run pair.step .create firstHello).isSome ∧
      Always pair.step (pair.HandlesOnce alice {bob}) .create firstHello :=
  ⟨maxCost_pair_lt, Mesh.always_handlesOnce pair maxCost_pair_lt alice {bob} firstHello
    (allowed_firstHello (2 ^ 15 - 1))⟩

/-- The last frames: one half the range ahead, and then the copy of the first one -/
def lastHellos : List Label :=
  [.send alice hello, .deliver 1 bob 1 [], .deliver 0 bob 1 []]

def lastLog (log : List Entry) : List Entry :=
  log ++ [⟨alice, sentHello (2 ^ 15), ⟨2 ^ 15, 0⟩⟩] ++
    entries bob ⟨2 ^ 15, 0⟩ 0 (receivedHello (2 ^ 15)) ++ entries bob ⟨0, 0⟩ 0 (receivedHello 0)

/-- The copy of the first frame is accepted again. -/
theorem run_lastHellos (log : List Entry) :
    run pair.step (talk (2 ^ 15) 0 [helloFrame 0] log) lastHellos =
        some (talk (2 ^ 15 + 1) 0 [helloFrame' (2 ^ 15), helloFrame' 0] (lastLog log)) ∧
      Allowed pair.step (pair.Kept (2 ^ 15) alice {bob}) (talk (2 ^ 15) 0 [helloFrame 0] log)
        lastHellos := by
  have hboth : ∀ f ∈ [helloFrame 0, helloFrame (2 ^ 15)], f.sighting.index ≤ 2 ^ 15 :=
    index_helloFrame_le (Nat.le_refl (2 ^ 15))
  have hsend := send_hello (2 ^ 15) 0 [helloFrame 0] log
  rw [List.singleton_append] at hsend
  have hahead : pair.step (talk (2 ^ 15 + 1) 0 [helloFrame 0, helloFrame (2 ^ 15)]
      (log ++ [⟨alice, sentHello (2 ^ 15), ⟨2 ^ 15, 0⟩⟩])) (.deliver 1 bob 1 []) =
      some (talk (2 ^ 15 + 1) (2 ^ 15) [helloFrame 0, helloFrame' (2 ^ 15)]
        (log ++ [⟨alice, sentHello (2 ^ 15), ⟨2 ^ 15, 0⟩⟩] ++
          entries bob ⟨2 ^ 15, 0⟩ 0 (receivedHello (2 ^ 15)))) :=
    step_deliver_hello _ 0 [helloFrame 0, helloFrame (2 ^ 15)] _ rfl rfl
  have hagain : pair.step (talk (2 ^ 15 + 1) (2 ^ 15) [helloFrame 0, helloFrame' (2 ^ 15)]
      (log ++ [⟨alice, sentHello (2 ^ 15), ⟨2 ^ 15, 0⟩⟩] ++
        entries bob ⟨2 ^ 15, 0⟩ 0 (receivedHello (2 ^ 15)))) (.deliver 0 bob 1 []) =
      some (talk (2 ^ 15 + 1) 0 [helloFrame' (2 ^ 15), helloFrame' 0] (lastLog log)) :=
    step_deliver_hello _ (2 ^ 15) [helloFrame 0, helloFrame' (2 ^ 15)] _ rfl rfl
  constructor
  · rw [lastHellos, run_cons, hsend, Option.bind_some, run_cons, hahead, Option.bind_some,
      run_cons, hagain, Option.bind_some, run_nil]
  · refine ⟨kept_of_now rfl (fun f hf => hboth f ?_) alice_mem_pair, fun net hnet => ?_⟩
    · exact List.mem_append_left [helloFrame (2 ^ 15)] hf
    · obtain rfl := Option.some.inj (hsend.symm.trans hnet)
      have hport : 1 ∈ (pair.device bob).interfaces.map Prod.fst := List.mem_singleton_self 1
      refine ⟨kept_of_now rfl hboth ⟨Nat.one_lt_two, bob_mem_pair, hport⟩, fun net hnet => ?_⟩
      obtain rfl := Option.some.inj (hahead.symm.trans hnet)
      refine ⟨kept_of_now rfl (fun f hf => ?_) ⟨Nat.two_pos, bob_mem_pair, hport⟩,
        fun _ _ => True.intro⟩
      obtain rfl | rfl : f = helloFrame 0 ∨ f = helloFrame' (2 ^ 15) := by
        cases List.mem_cons.mp hf with
        | inl heq => exact .inl heq
        | inr hmem => exact .inr (List.mem_singleton.mp hmem)
      · exact Nat.zero_le (2 ^ 15)
      · exact Nat.le_refl (2 ^ 15)

/-- With numbers in flight that are half the range apart, a frame is passed up twice. -/
theorem not_always_handlesOnce_half_range :
    ¬∀ (mesh : Mesh) (source : Mac48Address) (watch : Finset Mac48Address) (ls : List Label),
      (∀ n ∈ mesh.nodes, (mesh.device n).maxCost < 255) →
      Allowed mesh.step (mesh.Kept (2 ^ 15) source watch) .create ls →
      (run mesh.step .create ls).isSome ∧
        Always mesh.step (mesh.HandlesOnce source watch) .create ls := by
  intro h
  obtain ⟨log, hlog, hrun, hallowed⟩ :=
    run_lostHellos (2 ^ 15 - 1) firstLog 1 (by omega)
  obtain ⟨hlast, hallowed'⟩ := run_lastHellos log
  have hrun' : run pair.step .create (firstHello ++ lostHellos (2 ^ 15 - 1) ++ lastHellos) =
      some (talk (2 ^ 15 + 1) 0 [helloFrame' (2 ^ 15), helloFrame' 0] (lastLog log)) := by
    rw [run_append, run_append, run_firstHello, Option.bind_some, hrun, Option.bind_some]
    exact hlast
  have hall : Allowed pair.step (pair.Kept (2 ^ 15) alice {bob}) .create
      (firstHello ++ lostHellos (2 ^ 15 - 1) ++ lastHellos) := by
    refine ((allowed_firstHello (2 ^ 15)).append fun net hnet => ?_).append fun net hnet => ?_
    · exact Option.some.inj (run_firstHello.symm.trans hnet) ▸ hallowed
    · rw [run_append, run_firstHello, Option.bind_some, hrun] at hnet
      exact Option.some.inj hnet ▸ hallowed'
  have honce := ((h pair alice {bob} _ maxCost_pair_lt hall).2.last hrun').passedUp_nodup bob
    (Finset.mem_singleton_self bob)
  have hpassed : (talk (2 ^ 15 + 1) 0 [helloFrame' (2 ^ 15), helloFrame' 0]
      (lastLog log)).passedUp bob alice = [⟨0, 0⟩, ⟨2 ^ 15, 0⟩, ⟨0, 0⟩] := by
    have hfilter : (lastLog log).filterMap (Entry.passedUp bob alice) =
        [⟨0, 0⟩, ⟨2 ^ 15, 0⟩, ⟨0, 0⟩] := by
      rw [lastLog, List.filterMap_append, List.filterMap_append, List.filterMap_append, hlog]
      rfl
    exact hfilter
  rw [hpassed] at honce
  exact absurd honce (by decide)

end Ns3Noc.Flame

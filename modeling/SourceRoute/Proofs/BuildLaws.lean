import SourceRoute.Build.Plan
import SourceRoute.Proofs.ChainLaws

/-!
# Laws of building

A plan without mistakes is one whose segment sizes a header can hold, whose keys match its hops,
whose seeds are there exactly if two adjacent segments have the peering flag, and whose position
names the segment that owns the current hop.  In the path that it stands for, every hop passes the
check that a node makes with the key and the seed of the plan.
-/

namespace SourceRoute

/-! ## Mistakes in segments and keys -/

namespace BuildFault

theorem ofSegments?_eq_none_iff {segments : List SegmentOutline} :
    ofSegments? segments = none ↔ ValidSizes (segments.map SegmentOutline.size) := by
  have heach : (segments.zipIdx.findSome? fun x => x.1.fault? x.2) = none ↔
      ∀ s ∈ segments, 0 < s.size ∧ s.size ≤ maxSegmentLength := by
    have hsegment (s : SegmentOutline) (index : Nat) :
        s.fault? index = none ↔ 0 < s.size ∧ s.size ≤ maxSegmentLength := by
      rw [SegmentOutline.fault?, SegmentOutline.size, List.length_pos_iff]
      by_cases hnil : s.hops = [] <;> simp [hnil]
    rw [List.findSome?_eq_none_iff]
    conv => rhs; rw [← List.zipIdx_map_fst 0 segments]
    rw [List.forall_mem_map]
    exact forall₂_congr fun x _ => hsegment x.1 x.2
  -- each of the checks is one of the fields of valid sizes
  rw [ofSegments?]
  split
  next hnil =>
    simp only [reduceCtorEq, false_iff]
    exact fun h => h.ne_nil (by simp [hnil])
  next hne =>
    split
    next hmany =>
      simp only [reduceCtorEq, false_iff]
      intro h
      have hcount := h.count_le
      rw [List.length_map] at hcount
      omega
    next hcount =>
      split
      next fault hfault =>
        simp only [reduceCtorEq, false_iff]
        intro h
        have hnone := heach.mpr fun s hs => ⟨h.pos _ (List.mem_map_of_mem hs),
          h.le _ (List.mem_map_of_mem hs)⟩
        exact absurd (hfault.symm.trans hnone) (by simp)
      next hnone =>
        have hbounds := heach.mp hnone
        simp only [ite_eq_right_iff, reduceCtorEq, imp_false, Nat.not_lt]
        constructor
        · intro htotal
          exact
            { ne_nil := by simpa using hne
              count_le := by
                rw [List.length_map]
                exact Nat.le_of_not_lt hcount
              pos := List.forall_mem_map.mpr fun s hs => (hbounds s hs).1
              le := List.forall_mem_map.mpr fun s hs => (hbounds s hs).2
              total_le := htotal }
        · exact fun h => h.total_le

theorem ofKeyCounts?_eq_none_iff {α : Type} {segments : List SegmentOutline}
    {keys : List (List α)} : ofKeyCounts? segments keys = none ↔
      ∀ (s : Nat) outline ks, segments[s]? = some outline → keys[s]? = some ks →
        ks.length = outline.size := by
  rw [ofKeyCounts?, List.findSome?_eq_none_iff]
  constructor
  · intro h s outline ks houtline hks
    have hmem : ((outline, ks), s) ∈ (segments.zip keys).zipIdx :=
      List.mem_zipIdx_iff_getElem?.mpr (List.getElem?_zip_eq_some.mpr ⟨houtline, hks⟩)
    have hcount := h _ hmem
    simp only [ite_eq_left_iff, reduceCtorEq, imp_false, not_not] at hcount
    exact hcount.symm
  · rintro h ⟨⟨outline, ks⟩, s⟩ hmem
    obtain ⟨houtline, hks⟩ :=
      List.getElem?_zip_eq_some.mp (List.mem_zipIdx_iff_getElem?.mp hmem)
    exact if_pos (h s outline ks houtline hks).symm

end BuildFault

namespace PathPlan

/-! ## Peering junctions -/

/-- The segment and the one behind it both have the peering flag. -/
def PeersAfter (P : PathPlan) (s : Nat) : Prop :=
  ∃ before after, P.segments[s]? = some before ∧ P.segments[s + 1]? = some after ∧
    before.flags.peering = true ∧ after.flags.peering = true

variable {P : PathPlan} {s k : Nat}

theorem getElem?_junctions (P : PathPlan) (s : Nat) :
    P.junctions[s]? = match P.segments[s]?, P.segments[s + 1]? with
      | some before, some after => some (before.flags.peering && after.flags.peering)
      | _, _ => none := by
  rw [junctions, List.getElem?_zipWith, List.getElem?_tail]
  cases P.segments[s]? <;> cases P.segments[s + 1]? <;> rfl

theorem junctionAfter_iff : P.junctionAfter s = true ↔ P.PeersAfter s := by
  rw [junctionAfter, List.getD_eq_getElem?_getD, getElem?_junctions, PeersAfter]
  cases P.segments[s]? with
  | none => simp
  | some before =>
    cases P.segments[s + 1]? with
    | none => simp
    | some after => simp

theorem seedFault?_eq_none_iff :
    P.seedFault? = none ↔ (P.seeds.isSome = true ↔ ∃ s, P.PeersAfter s) := by
  have hfind : (P.junctions.findIdx? id).isSome = true ↔ ∃ s, P.PeersAfter s := by
    simp only [← junctionAfter_iff, junctionAfter, List.findIdx?_isSome, List.any_eq_true, id_eq,
      exists_eq_right, List.getD_eq_getElem?_getD]
    constructor
    · intro hmem
      obtain ⟨s, hs⟩ := List.getElem?_of_mem hmem
      exact ⟨s, by rw [hs]; rfl⟩
    · rintro ⟨s, hs⟩
      apply List.mem_of_getElem? (i := s)
      cases hget : P.junctions[s]? with
      | none => simp [hget] at hs
      | some junction =>
        rw [hget, Option.getD_some] at hs
        rw [hs]
  -- seeds without a junction and a junction without seeds are the two mistakes
  rw [seedFault?, ← hfind]
  cases P.junctions.findIdx? id with
  | none => cases P.seeds <;> simp
  | some s => cases P.seeds <;> simp

/-! ## Plans without mistakes -/

/-- The segment sizes of the planned path. -/
def sizes (P : PathPlan) : List Nat := P.segments.map SegmentOutline.size

/-- What a plan has to fulfil. -/
structure Valid (P : PathPlan) : Prop where
  sizes : ValidSizes P.sizes
  groupCount : P.keys.length = P.segments.length
  keyCount : ∀ (s : Nat) outline keys, P.segments[s]? = some outline → P.keys[s]? = some keys →
    keys.length = outline.size
  seeds : P.seeds.isSome = true ↔ ∃ s, P.PeersAfter s
  position : ∃ k, Runs.locate P.sizes P.currentHop.toNat = some (P.currentInfo.toNat, k)

theorem describes_header (hsizes : ValidSizes P.sizes) : P.header.lengths.Describes P.sizes := by
  have hget (s : Nat) : (UInt8.ofNat (P.sizes.getD s 0)).toNat = P.sizes.getD s 0 := by
    have hle : P.sizes.getD s 0 ≤ 63 := Runs.getD_le hsizes.le s
    have hsmall : P.sizes.getD s 0 < 256 := by omega
    exact UInt8.toNat_ofNat_of_lt' hsmall
  exact (SegmentLengths.describes_iff hsizes.count_le).mpr ⟨hget 0, hget 1, hget 2⟩

/-- The first mistake is missing exactly if the plan fulfils everything. -/
theorem fault?_eq_none_iff : P.fault? = none ↔ P.Valid := by
  have hkeys : P.keyFault? = none ↔ P.keys.length = P.segments.length ∧
      ∀ (s : Nat) outline keys, P.segments[s]? = some outline → P.keys[s]? = some keys →
        keys.length = outline.size := by
    rw [keyFault?]
    split
    next hcount => simp [hcount, BuildFault.ofKeyCounts?_eq_none_iff]
    next hcount => simp [hcount]
  rw [fault?, Option.or_eq_none_iff, Option.or_eq_none_iff, Option.or_eq_none_iff,
    BuildFault.ofSegments?_eq_none_iff, hkeys, seedFault?_eq_none_iff, Option.map_eq_none_iff]
  constructor
  · rintro ⟨hsizes, ⟨hgroups, hcounts⟩, hseeds, hheader⟩
    have hposition :=
      (Header.fault?_eq_none_iff_locate (h := P.header) hsizes (describes_header hsizes)).mp hheader
    exact ⟨hsizes, hgroups, hcounts, hseeds, hposition⟩
  · intro h
    have hheader := (Header.fault?_eq_none_iff_locate (h := P.header) h.sizes
      (describes_header h.sizes)).mpr h.position
    exact ⟨h.sizes, ⟨h.groupCount, h.keyCount⟩, h.seeds, hheader⟩

theorem build_eq_ok_iff {p : Path} : P.build = .ok p ↔ P.Valid ∧ P.path = p := by
  rw [build, ← fault?_eq_none_iff]
  split
  next fault hfault => simp [hfault]
  next hnone => simp [hnone]

/-! ## The planned path -/

section Built

variable {outline : SegmentOutline} {keys : List ForwardingKey}

theorem Valid.exists_keys (h : P.Valid) (houtline : P.segments[s]? = some outline) :
    ∃ keys, P.keys[s]? = some keys ∧ keys.length = outline.size := by
  have hs : s < P.keys.length := by
    rw [h.groupCount]
    exact (List.getElem?_eq_some_iff.mp houtline).1
  have hkeys := List.getElem?_eq_getElem hs
  exact ⟨_, hkeys, h.keyCount s _ _ houtline hkeys⟩

theorem getElem?_segments_path (houtline : P.segments[s]? = some outline)
    (hkeys : P.keys[s]? = some keys) :
    P.path.segments[s]? = some (outline.toSegment.signed keys (P.outerSeeds s)) := by
  have hzip : (P.segments.zip P.keys)[s]? = some (outline, keys) :=
    List.getElem?_zip_eq_some.mpr ⟨houtline, hkeys⟩
  rw [path, List.getElem?_mapIdx, hzip]
  rfl

theorem Valid.length_segments_path (h : P.Valid) :
    P.path.segments.length = P.segments.length := by
  rw [path, List.length_mapIdx, List.length_zip, h.groupCount, Nat.min_self]

theorem size_toSegment (outline : SegmentOutline) : outline.toSegment.size = outline.size := by
  simp [SegmentOutline.toSegment, Segment.size, SegmentOutline.size]

theorem Valid.sizes_path (h : P.Valid) : P.path.sizes = P.sizes := by
  -- signing keeps the number of hops of each segment
  apply List.ext_getElem?
  intro s
  rw [Path.sizes, PathPlan.sizes, List.getElem?_map, List.getElem?_map]
  cases houtline : P.segments[s]? with
  | none =>
    have hs := List.getElem?_eq_none_iff.mp houtline
    rw [List.getElem?_eq_none (by rwa [h.length_segments_path])]
    rfl
  | some outline =>
    obtain ⟨keys, hkeys, hcount⟩ := h.exists_keys houtline
    rw [getElem?_segments_path houtline hkeys, Option.map_some, Option.map_some,
      Segment.size_signed (by rw [hcount, size_toSegment]), size_toSegment]

/-- The planned path is well formed. -/
theorem Valid.wellFormed_path (h : P.Valid) : P.path.WellFormed where
  sizes := by
    rw [h.sizes_path]
    exact h.sizes
  position := by
    rw [h.sizes_path]
    exact h.position

/-- The keys are cut into groups as the hops are cut into segments. -/
theorem Valid.map_length_keys (h : P.Valid) : P.keys.map List.length = P.sizes := by
  apply List.ext_getElem?
  intro s
  rw [PathPlan.sizes, List.getElem?_map, List.getElem?_map]
  cases houtline : P.segments[s]? with
  | none =>
    rw [List.getElem?_eq_none (h.groupCount ▸ List.getElem?_eq_none_iff.mp houtline)]
    rfl
  | some outline =>
    obtain ⟨keys, hkeys, hcount⟩ := h.exists_keys houtline
    rw [hkeys, Option.map_some, Option.map_some, hcount]

/-- Every hop has a key, and counting over the whole path finds the same one as counting inside its
segment. -/
theorem Valid.exists_key (h : P.Valid) {i : Nat} (hi : i < P.path.hopCount) :
    ∃ s k keys key, P.path.locate? i = some (s, k) ∧ P.keys[s]? = some keys ∧
      keys[k]? = some key ∧ P.keys.flatten[i]? = some key := by
  obtain ⟨s, k, hlocate⟩ := Runs.exists_locate hi
  have hplace : Runs.locate (P.keys.map List.length) i = some (s, k) := by
    rw [h.map_length_keys, ← h.sizes_path]
    exact hlocate
  have hs : s < P.keys.length := by
    rw [← List.length_map List.length]
    exact Runs.lt_length_of_locate hplace
  have hk : k < P.keys[s].length := by
    have hsize := (Runs.locate_eq_some_iff.mp hplace).1
    rwa [List.getD_eq_getElem _ _ (by rwa [List.length_map]), List.getElem_map] at hsize
  have hkeys := List.getElem?_eq_getElem hs
  have hkey := List.getElem?_eq_getElem hk
  refine ⟨s, k, P.keys[s], P.keys[s][k], hlocate, hkeys, hkey, ?_⟩
  rw [← List.flatMap_id, Runs.getElem?_flatMap]
  show ((Runs.locate (P.keys.map List.length) i).bind _) = _
  rw [hplace, Option.bind_some, hkeys, Option.bind_some]
  exact hkey

theorem Valid.info?_path (h : P.Valid) (s : Nat) :
    P.path.info? s = P.segments[s]?.map SegmentOutline.info := by
  rw [Path.info?]
  cases houtline : P.segments[s]? with
  | none =>
    have hs := List.getElem?_eq_none_iff.mp houtline
    rw [List.getElem?_eq_none (by rwa [h.length_segments_path])]
    rfl
  | some outline =>
    obtain ⟨keys, hkeys, -⟩ := h.exists_keys houtline
    rw [getElem?_segments_path houtline hkeys]
    rfl

/-- The boundary behind a segment is a peering junction of the path exactly if it is one of the
plan. -/
theorem Valid.peering_path (h : P.Valid) (s : Nat) :
    (hasPeering P.path.info? s && hasPeering P.path.info? (s + 1)) = P.junctionAfter s := by
  rw [hasPeering, hasPeering, h.info?_path, h.info?_path, junctionAfter,
    List.getD_eq_getElem?_getD, getElem?_junctions]
  cases P.segments[s]? with
  | none => rfl
  | some before => cases P.segments[s + 1]? <;> simp [SegmentOutline.info]

theorem Valid.junctionAt_path (h : P.Valid) (s k : Nat) :
    P.path.junctionAt s k =
      ((k + 1 = P.sizes.getD s 0 && P.junctionAfter s) || (k = 0 && P.junctionBefore s)) := by
  rw [Path.junctionAt, h.sizes_path, ← h.peering_path s, junctionBefore]
  -- the first segment has no junction before it
  cases s with
  | zero =>
    simp only [Nat.lt_irrefl, decide_false, Bool.false_and, Bool.and_false, Bool.or_false]
    exact Bool.and_left_comm _ _ _
  | succ s =>
    rw [Nat.add_sub_cancel, ← h.peering_path s]
    simp only [Nat.zero_lt_succ, decide_true, Bool.true_and, Bool.and_true]
    rw [Bool.and_or_distrib_left, Bool.and_left_comm, Bool.and_left_comm (hasPeering _ (s + 1)),
      Bool.and_comm (hasPeering _ (s + 1)) (hasPeering _ s)]

/-- A seed that is right for hop `k` of segment `s`: the first one at the last hop before a peering
junction, else the second one at the first hop behind one, and any elsewhere. -/
structure SeedFits (P : PathPlan) (s k : Nat) (seed : Option PeeringSeed) : Prop where
  before : k + 1 = P.sizes.getD s 0 → P.PeersAfter s → seed = P.seeds.map PeeringSeeds.before
  after : k = 0 → 0 < s → P.PeersAfter (s - 1) → ¬ (k + 1 = P.sizes.getD s 0 ∧ P.PeersAfter s) →
    seed = P.seeds.map PeeringSeeds.after

/-- Where a seed counts, a fitting one is the one that the hop is built with. -/
theorem Valid.seedAt_eq (h : P.Valid) {seed : Option PeeringSeed} (hseed : P.SeedFits s k seed) :
    (P.outerSeeds s).seedAt k (P.sizes.getD s 0) =
      if P.path.junctionAt s k then seed else none := by
  have hsome (t : Nat) (ht : P.PeersAfter t) : ∃ seeds, P.seeds = some seeds :=
    Option.isSome_iff_exists.mp (h.seeds.mpr ⟨t, ht⟩)
  rw [h.junctionAt_path, OuterSeeds.seedAt, outerSeeds]
  simp only [Bool.or_eq_true, Bool.and_eq_true, decide_eq_true_eq]
  by_cases hlast : k + 1 = P.sizes.getD s 0 ∧ P.junctionAfter s = true
  -- the last hop before a junction
  · obtain ⟨seeds, hseeds⟩ := hsome s (junctionAfter_iff.mp hlast.2)
    have hfits := hseed.before hlast.1 (junctionAfter_iff.mp hlast.2)
    have hbefore : (if P.junctionAfter s then P.seeds.map PeeringSeeds.before else none) =
        some seeds.before := by
      rw [if_pos hlast.2, hseeds]
      rfl
    rw [hbefore, if_pos ⟨hlast.1, rfl⟩, if_pos (.inl hlast), hfits, hseeds]
    rfl
  · have hnolast : ¬ (k + 1 = P.sizes.getD s 0 ∧ (if P.junctionAfter s then
        P.seeds.map PeeringSeeds.before else none).isSome = true) := by
      rintro ⟨hend, hsome⟩
      by_cases hpeers : P.junctionAfter s = true
      · exact hlast ⟨hend, hpeers⟩
      · simp [hpeers] at hsome
    rw [if_neg hnolast]
    by_cases hzero : k = 0
    · rw [if_pos hzero]
      by_cases hpeers : P.junctionBefore s = true
      -- the first hop behind a junction
      · have hbefore := hpeers
        rw [junctionBefore, Bool.and_eq_true, decide_eq_true_eq, junctionAfter_iff] at hbefore
        rw [junctionAfter_iff] at hlast
        rw [if_pos hpeers, if_pos (.inr ⟨hzero, hpeers⟩),
          hseed.after hzero hbefore.1 hbefore.2 hlast]
      · rw [if_neg hpeers, if_neg]
        rintro (hafter | ⟨-, hbefore⟩)
        · exact hlast hafter
        · exact hpeers hbefore
    · rw [if_neg hzero, if_neg]
      rintro (hafter | ⟨hfirst, -⟩)
      · exact hlast hafter
      · exact hzero hfirst

/-- Every hop of the planned path passes the check that a node makes with the key and a fitting
seed. -/
theorem Valid.verify_path (h : P.Valid) {i : Nat} (hlocate : P.path.locate? i = some (s, k))
    {key : ForwardingKey} (hkeys : P.keys[s]? = some keys) (hkey : keys[k]? = some key)
    {seed : Option PeeringSeed} (hseed : P.SeedFits s k seed) :
    (P.path.placedAt i).records.verify key seed = true := by
  have hsizes := h.wellFormed_path.sizes
  have hs : s < P.segments.length := by
    rw [← h.length_segments_path, ← Path.length_sizes]
    exact Runs.lt_length_of_locate hlocate
  have houtline := List.getElem?_eq_getElem hs
  have hcount : keys.length = P.segments[s].toSegment.size := by
    rw [size_toSegment, h.keyCount s _ _ houtline hkeys]
  have hsegment := getElem?_segments_path houtline hkeys
  have hk : k < P.segments[s].toSegment.size := by
    rw [← hcount]
    exact (List.getElem?_eq_some_iff.mp hkey).1
  have hhop := List.getElem?_eq_getElem (l := P.segments[s].toSegment.hops) hk
  -- the code that building gave the hop is compared with the one that the node computes
  have hsigned := Segment.getElem?_hops_signed hcount hhop hkey (P.outerSeeds s)
  have hsize : P.segments[s].toSegment.size = P.sizes.getD s 0 := by
    rw [← h.sizes_path, Path.getD_sizes hsegment, Segment.size_signed hcount]
  have hcurrent := Path.locate_placedAt hsizes hlocate hsegment hsigned
  rw [hsize, h.seedAt_eq hseed] at hcurrent
  rw [RecordSource.verify_of_locate hcurrent, CurrentHop.verify, decide_eq_true_eq]
  -- the block leaves out the code of its own hop
  rfl

end Built

end PathPlan

end SourceRoute

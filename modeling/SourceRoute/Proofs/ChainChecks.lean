import Mathlib.Data.List.Find
import SourceRoute.Build.Plan
import SourceRoute.Proofs.ChainLaws

/-!
# Checking whole chains

A segment is checked as a whole by working through its chain of codes, and hop by hop by the nodes
that the path crosses.  `firstBadMac?_eq_find?` says that the walk along the chain is a search, in
construction order, for a hop that does not carry the code of its own block.  In a path that has a
wire form each of these codes is the one that a node computes, so both checks come to the same.
-/

namespace SourceRoute

/-! ## Slots -/

namespace ChainSlot

/-- The slots of a chain, each with the code that the slot before it carries. -/
def withCodeBefore (chain : Mac) (slots : List ChainSlot) : List (ChainSlot × Mac) :=
  slots.zip (chain :: slots.map fun slot => slot.hop.mac)

@[simp] theorem map_fst_withCodeBefore (chain : Mac) (slots : List ChainSlot) :
    (withCodeBefore chain slots).map Prod.fst = slots :=
  List.map_fst_zip (by simp)

/-- As long as all codes are right, the code that was computed last is the one that the hop
carries, so the walk only compares each hop with the hop before it. -/
theorem firstBad?_eq_find? (info : InfoField) (chain : Mac) (slots : List ChainSlot) :
    firstBad? info chain slots = ((withCodeBefore chain slots).find? fun x =>
      !decide (x.1.expected info x.2 = x.1.hop.mac)).map fun x => x.1.index := by
  induction slots generalizing chain with
  | nil => rfl
  | cons slot slots ih =>
    have hcons : withCodeBefore chain (slot :: slots) =
        (slot, chain) :: withCodeBefore slot.hop.mac slots := rfl
    rw [firstBad?, hcons, List.find?_cons]
    -- where the code is right, the one computed is the one that the hop carries
    by_cases hmac : slot.expected info chain = slot.hop.mac
    · rw [if_pos hmac, ih]
      simp only [hmac, decide_true, Bool.not_true]
    · rw [if_neg hmac]
      simp only [hmac, decide_false, Bool.not_false, Option.map_some]

theorem exists_of_mem_withCodeBefore {chain code : Mac} {slots : List ChainSlot}
    {slot : ChainSlot} (hmem : (slot, code) ∈ withCodeBefore chain slots) :
    ∃ j, slots[j]? = some slot ∧ code = codeBefore chain (slots.map ChainSlot.hop) j := by
  obtain ⟨j, hj⟩ := List.getElem?_of_mem hmem
  obtain ⟨hslot, hcode⟩ := List.getElem?_zip_eq_some.mp hj
  refine ⟨j, hslot, ?_⟩
  cases j with
  | zero =>
    rw [List.getElem?_cons_zero, Option.some.injEq] at hcode
    exact hcode.symm
  | succ j =>
    rw [List.getElem?_cons_succ, List.getElem?_map] at hcode
    rw [codeBefore, List.getElem?_map, Option.map_map]
    exact (congrArg (Option.getD · Mac.zero) hcode).symm

end ChainSlot

/-! ## Segments -/

namespace Segment

theorem map_orient {α β : Type} (f : α → β) (consDir : Bool) (l : List α) :
    (orient consDir l).map f = orient consDir (l.map f) := by
  cases consDir
  · exact List.map_reverse
  · rfl

theorem constructionIndex_constructionIndex {n k : Nat} (consDir : Bool) (hk : k < n) :
    constructionIndex consDir n (constructionIndex consDir n k) = k := by
  cases consDir
  · simp only [constructionIndex, Bool.false_eq_true, if_false]
    omega
  · rfl

variable {s : Segment} {keys : List ForwardingKey} {seeds : OuterSeeds} {k : Nat}

theorem of_getElem?_slots {slot : ChainSlot} (hslot : (s.slots keys seeds)[k]? = some slot) :
    s.hops[k]? = some slot.hop ∧ keys[k]? = some slot.key ∧ slot.index = k ∧
      slot.seed = seeds.seedAt k s.size := by
  rw [slots, List.getElem?_mapIdx, Option.map_eq_some_iff] at hslot
  obtain ⟨⟨hop, key⟩, hzip, rfl⟩ := hslot
  obtain ⟨hhop, hkey⟩ := List.getElem?_zip_eq_some.mp hzip
  exact ⟨hhop, hkey, rfl, rfl⟩

theorem map_index_slots (hkeys : keys.length = s.size) :
    (s.slots keys seeds).map ChainSlot.index = List.range s.size := by
  have hlength := length_slots hkeys seeds
  apply List.ext_getElem?
  intro k
  rw [List.getElem?_map]
  cases hslot : (s.slots keys seeds)[k]? with
  | none =>
    have hk := List.getElem?_eq_none_iff.mp hslot
    rw [List.getElem?_eq_none (by rw [List.length_range]; omega)]
    rfl
  | some slot =>
    have hk := (List.getElem?_eq_some_iff.mp hslot).1
    rw [List.getElem?_range (by omega), Option.map_some, (of_getElem?_slots hslot).2.2.1]

/-- In construction order, the slots name the hops in construction order. -/
theorem map_index_orient_slots (hkeys : keys.length = s.size) (seeds : OuterSeeds) :
    (orient s.info.flags.consDir (s.slots keys seeds)).map ChainSlot.index =
      s.constructionIndices := by
  rw [map_orient, map_index_slots hkeys]
  rfl

theorem map_hop_slots (hkeys : keys.length = s.size) :
    (s.slots keys seeds).map ChainSlot.hop = s.hops := by
  have hlength := length_slots hkeys seeds
  apply List.ext_getElem?
  intro k
  rw [List.getElem?_map]
  cases hslot : (s.slots keys seeds)[k]? with
  | none =>
    have hk := List.getElem?_eq_none_iff.mp hslot
    rw [hlength] at hk
    rw [List.getElem?_eq_none hk]
    rfl
  | some slot => rw [Option.map_some, (of_getElem?_slots hslot).1]

/-- Whether hop `k` carries the code of its block, chained to the code that the hop before it in
construction order carries. -/
def carriesMac (s : Segment) (keys : List ForwardingKey) (seeds : OuterSeeds) (k : Nat) : Bool :=
  match s.hops[k]?, keys[k]? with
  | some hop, some key =>
    key.hopMac s.info hop (s.chainBefore k) (seeds.seedAt k s.size) = hop.mac
  | _, _ => false

/-- A list put into construction order, read at a place there. -/
theorem getElem?_of_orient {α : Type} (consDir : Bool) {l : List α} {j : Nat} (hj : j < l.length) :
    l[constructionIndex consDir l.length j]? = (orient consDir l)[j]? := by
  have hread := getElem?_orient consDir (l := orient consDir l) (k := j) (by rwa [length_orient])
  rwa [orient_orient, length_orient] at hread

/-- The slot at place `j` of the construction order knows its index in the order of the visit. -/
theorem of_getElem?_orient_slots (hkeys : keys.length = s.size) {slot : ChainSlot} {j : Nat}
    (hslot : (orient s.info.flags.consDir (s.slots keys seeds))[j]? = some slot) :
    j < s.size ∧ slot.index = constructionIndex s.info.flags.consDir s.size j ∧
      (s.slots keys seeds)[slot.index]? = some slot := by
  have hlength := length_slots hkeys seeds
  have hj : j < s.size := by
    rw [← hlength, ← length_orient s.info.flags.consDir]
    exact (List.getElem?_eq_some_iff.mp hslot).1
  have hread : (s.slots keys seeds)[constructionIndex s.info.flags.consDir s.size j]? =
      some slot := by
    rw [← hslot, ← hlength]
    exact getElem?_of_orient _ (by rwa [hlength])
  have hindex := (of_getElem?_slots hread).2.2.1
  exact ⟨hj, hindex, by rw [hindex]; exact hread⟩

/-- The code that the walk expects of a slot is the one of its block. -/
theorem carriesMac_of_mem (hkeys : keys.length = s.size) {slot : ChainSlot} {code : Mac}
    (hmem : (slot, code) ∈
      ChainSlot.withCodeBefore Mac.zero (orient s.info.flags.consDir (s.slots keys seeds))) :
    s.carriesMac keys seeds slot.index = decide (slot.expected s.info code = slot.hop.mac) := by
  obtain ⟨j, hj, rfl⟩ := ChainSlot.exists_of_mem_withCodeBefore hmem
  obtain ⟨hjlt, hindex, hslot⟩ := of_getElem?_orient_slots hkeys hj
  obtain ⟨hhop, hkey, -, hseed⟩ := of_getElem?_slots hslot
  have hk : slot.index < s.size := (List.getElem?_eq_some_iff.mp hhop).1
  rw [hindex] at hhop hkey hseed hk
  -- the code before the slot is the one that the hop is chained to
  have hchain := chainBefore_eq_codeBefore hk
  rw [constructionIndex_constructionIndex _ hjlt] at hchain
  rw [hindex, carriesMac, hhop, hkey, map_orient, map_hop_slots hkeys, ← hchain,
    ChainSlot.expected, hseed]

/-- Checking a segment is looking, in construction order, for a hop that does not carry the code of
its block. -/
theorem firstBadMac?_eq_find? (hkeys : keys.length = s.size) (seeds : OuterSeeds) :
    s.firstBadMac? keys seeds =
      s.constructionIndices.find? fun k => !s.carriesMac keys seeds k := by
  have horder : ((ChainSlot.withCodeBefore Mac.zero
      (orient s.info.flags.consDir (s.slots keys seeds))).map Prod.fst).map ChainSlot.index =
      s.constructionIndices := by
    rw [ChainSlot.map_fst_withCodeBefore, map_index_orient_slots hkeys]
  rw [firstBadMac?, if_pos hkeys, ChainSlot.firstBad?_eq_find?, ← horder, List.map_map,
    List.find?_map]
  congr 1
  exact List.find?_congr fun x hx => congrArg (!·) (carriesMac_of_mem hkeys hx).symm

theorem mem_constructionIndices : k ∈ s.constructionIndices ↔ k < s.size := by
  rw [constructionIndices, orient]
  split
  · exact List.mem_range
  · rw [List.mem_reverse, List.mem_range]

theorem firstBadMac?_eq_none_iff (hkeys : keys.length = s.size) :
    s.firstBadMac? keys seeds = none ↔ ∀ k < s.size, s.carriesMac keys seeds k = true := by
  rw [firstBadMac?_eq_find? hkeys, List.find?_eq_none]
  simp only [mem_constructionIndices, Bool.not_eq_true, Bool.not_eq_false']

/-- The hop that a failed check names has a wrong code, and all hops before it in construction order
have the right one. -/
theorem firstBadMac?_eq_some_iff (hkeys : keys.length = s.size) :
    s.firstBadMac? keys seeds = some k ↔ s.carriesMac keys seeds k = false ∧
      ∃ before after, s.constructionIndices = before ++ k :: after ∧
        ∀ j ∈ before, s.carriesMac keys seeds j = true := by
  rw [firstBadMac?_eq_find? hkeys, List.find?_eq_some_iff_append]
  simp only [Bool.not_eq_true', Bool.not_not]

/-- A signed segment passes the check with the keys and seeds that it was signed with. -/
theorem firstBadMac?_signed (hkeys : keys.length = s.size) (seeds : OuterSeeds) :
    (s.signed keys seeds).firstBadMac? keys seeds = none := by
  have hsize := size_signed hkeys seeds
  rw [firstBadMac?_eq_none_iff (hkeys.trans hsize.symm), hsize]
  intro k hk
  have hhop := List.getElem?_eq_getElem (l := s.hops) hk
  have hkey := List.getElem?_eq_getElem (l := keys) (i := k) (by rwa [hkeys])
  rw [carriesMac, getElem?_hops_signed hkeys hhop hkey seeds, hkey, hsize]
  -- the block leaves out the code of its own hop
  exact decide_eq_true rfl

end Segment

/-! ## Paths -/

namespace Path

/-- The seeds of the outer hops of a segment: the first seed goes to its last hop if the segment and
the one behind it both have the peering flag, the second one to its first hop if the segment and the
one before it do. -/
def outerSeeds (p : Path) (seeds : Option PeeringSeeds) (s : Nat) : OuterSeeds where
  first :=
    if 0 < s && hasPeering p.info? (s - 1) && hasPeering p.info? s then
      seeds.map PeeringSeeds.after
    else none
  last :=
    if hasPeering p.info? s && hasPeering p.info? (s + 1) then seeds.map PeeringSeeds.before
    else none

/-- What the node at a hop says of its code, with the key of the hop and the seed that the hop takes
from the outer seeds of its segment.  The keys are grouped like the segments. -/
def nodeAnswer? (p : Path) (keys : List (List ForwardingKey)) (seeds : Option PeeringSeeds)
    (i : Nat) : Option Bool :=
  (p.locate? i).bind fun (s, k) =>
    (keys[s]?.bind fun ks => ks[k]?).map fun key =>
      (p.placedAt i).records.verify key ((p.outerSeeds seeds s).seedAt k (p.sizes.getD s 0))

variable {p : Path} {keys : List (List ForwardingKey)} {seeds : Option PeeringSeeds} {s k i : Nat}
  {segment : Segment} {ks : List ForwardingKey}

/-- A hop that is not next to a peering junction takes no seed, so none is lost if a node does not
look at it. -/
theorem seedAt_outerSeeds (p : Path) (seeds : Option PeeringSeeds) (s k : Nat) :
    (if p.junctionAt s k then (p.outerSeeds seeds s).seedAt k (p.sizes.getD s 0) else none) =
      (p.outerSeeds seeds s).seedAt k (p.sizes.getD s 0) := by
  by_cases hjunction : p.junctionAt s k = true
  · rw [if_pos hjunction]
  · rw [if_neg hjunction]
    simp only [junctionAt, Bool.and_eq_true, Bool.or_eq_true, decide_eq_true_eq, not_and,
      not_or] at hjunction
    -- at either end the outer seed is there only next to a peering junction
    have hlast : k + 1 = p.sizes.getD s 0 → (p.outerSeeds seeds s).last = none := by
      intro hk
      refine if_neg ?_
      rw [Bool.and_eq_true]
      rintro ⟨hhere, hafter⟩
      exact (hjunction hhere).1 hk hafter
    have hfirst : k = 0 → (p.outerSeeds seeds s).first = none := by
      intro hk
      refine if_neg ?_
      rw [Bool.and_eq_true, Bool.and_eq_true, decide_eq_true_eq]
      rintro ⟨⟨hpos, hbefore⟩, hhere⟩
      exact (hjunction hhere).2 ⟨hk, hpos⟩ hbefore
    rw [OuterSeeds.seedAt]
    split
    next hend => simp [hlast hend.1] at hend
    next =>
      split
      next hzero => exact (hfirst hzero).symm
      next => rfl

theorem nodeAnswer?_eq (hsizes : ValidSizes p.sizes) (hs : p.segments[s]? = some segment)
    (hks : keys[s]? = some ks) (hcount : ks.length = segment.size) (hk : k < segment.size) :
    p.nodeAnswer? keys seeds ((Runs.span p.sizes s).start + k) =
      some (segment.carriesMac ks (p.outerSeeds seeds s) k) := by
  have hsize := getD_sizes hs
  have hlocate : p.locate? ((Runs.span p.sizes s).start + k) = some (s, k) :=
    Runs.locate_eq_some_iff.mpr ⟨by rwa [hsize], rfl⟩
  have hhop := List.getElem?_eq_getElem (l := segment.hops) hk
  have hkey := List.getElem?_eq_getElem (l := ks) (i := k) (by rwa [hcount])
  have hcurrent := locate_placedAt hsizes hlocate hs hhop
  rw [nodeAnswer?, hlocate, Option.bind_some]
  simp only [hks, Option.bind_some, hkey, Option.map_some]
  rw [RecordSource.verify_of_locate hcurrent, CurrentHop.verify, CurrentHop.authBlock]
  simp only [seedAt_outerSeeds]
  rw [hsize, Segment.carriesMac, hhop, hkey]
  rfl

/-- Checking each segment as a whole and checking hop by hop come to the same.  In a path that has a
wire form, with a key for every hop and any seeds, all segments pass exactly if all nodes accept
their hops.  Where a segment fails, the hop that the check names is refused by its node, and all
hops before it in construction order are accepted by theirs. -/
theorem segments_checked_iff_nodes_accept {p : Path} (hwire : p.structureFault? = none)
    {keys : List (List ForwardingKey)} (hkeys : keys.map List.length = p.sizes)
    (seeds : Option PeeringSeeds) :
    ((∀ (s : Nat) segment ks, p.segments[s]? = some segment → keys[s]? = some ks →
        segment.firstBadMac? ks (p.outerSeeds seeds s) = none) ↔
      ∀ i < p.hopCount, p.nodeAnswer? keys seeds i = some true) ∧
    ∀ (s k : Nat) segment ks, p.segments[s]? = some segment → keys[s]? = some ks →
      segment.firstBadMac? ks (p.outerSeeds seeds s) = some k →
        p.nodeAnswer? keys seeds ((Runs.span p.sizes s).start + k) = some false ∧
        ∃ before after, segment.constructionIndices = before ++ k :: after ∧
          ∀ j ∈ before,
            p.nodeAnswer? keys seeds ((Runs.span p.sizes s).start + j) = some true := by
  have hsizes := (structureFault?_eq_none_iff.mp hwire).sizes
  have hcount {s : Nat} {segment : Segment} {ks : List ForwardingKey}
      (hs : p.segments[s]? = some segment) (hks : keys[s]? = some ks) :
      ks.length = segment.size := by
    have hlength := congrArg (·[s]?) hkeys
    simpa only [List.getElem?_map, hks, sizes, hs, Option.map_some, Option.some.injEq]
      using hlength
  refine ⟨⟨?_, ?_⟩, ?_⟩
  -- every hop lies in a segment, which passes as a whole
  · intro hchecked i hi
    obtain ⟨s, k, hlocate⟩ := Runs.exists_locate hi
    obtain ⟨segment, hop, hs, hk⟩ := exists_segment_of_locate hlocate
    obtain ⟨-, rfl⟩ := Runs.locate_eq_some_iff.mp hlocate
    have hslt : s < keys.length := by
      rw [← List.length_map (f := List.length), hkeys]
      exact Runs.lt_length_of_locate hlocate
    have hks := List.getElem?_eq_getElem hslt
    have hksize := lt_size_of_locate hlocate hs
    have hpasses := hchecked s segment _ hs hks
    rw [Segment.firstBadMac?_eq_none_iff (hcount hs hks)] at hpasses
    exact (nodeAnswer?_eq hsizes hs hks (hcount hs hks) hksize).trans
      (congrArg some (hpasses k hksize))
  · intro haccepted s segment ks hs hks
    rw [Segment.firstBadMac?_eq_none_iff (hcount hs hks)]
    intro k hk
    have hi : (Runs.span p.sizes s).start + k < p.hopCount := by
      refine Runs.lt_total_of_locate (s := s) (k := k) (Runs.locate_eq_some_iff.mpr ⟨?_, rfl⟩)
      rwa [getD_sizes hs]
    have hanswer := haccepted _ hi
    rw [nodeAnswer?_eq hsizes hs hks (hcount hs hks) hk] at hanswer
    exact Option.some.inj hanswer
  · intro s k segment ks hs hks hbad
    obtain ⟨hwrong, before, after, horder, hright⟩ :=
      (Segment.firstBadMac?_eq_some_iff (hcount hs hks)).mp hbad
    have hmem {j : Nat} (hj : j ∈ before ++ k :: after) : j < segment.size := by
      rw [← horder] at hj
      exact Segment.mem_constructionIndices.mp hj
    refine ⟨?_, before, after, horder, ?_⟩
    · rw [nodeAnswer?_eq hsizes hs hks (hcount hs hks) (hmem (by simp)), hwrong]
    · intro j hj
      rw [nodeAnswer?_eq hsizes hs hks (hcount hs hks) (hmem (List.mem_append_left _ hj)),
        hright j hj]

/-- The case of two segments of one and two hops, visited in different directions, with a peering
junction between them. -/
theorem segments_checked_iff_nodes_accept_of_peering :
    let hop : HopField := ⟨HopFlags.none, 63, 4, 5, Mac.zero⟩
    let p : Path := ⟨0, 0, [⟨⟨⟨2⟩, 7, 1000⟩, [hop]⟩, ⟨⟨⟨3⟩, 9, 1000⟩, [hop, hop]⟩]⟩
    let key : ForwardingKey := ForwardingKey.zero
    let keys : List (List ForwardingKey) := [[key], [key, key]]
    let seeds : Option PeeringSeeds := some ⟨⟨1#48⟩, ⟨2#48⟩⟩
    p.structureFault? = none ∧ keys.map List.length = p.sizes ∧
      ((∀ (s : Nat) segment ks, p.segments[s]? = some segment → keys[s]? = some ks →
          segment.firstBadMac? ks (p.outerSeeds seeds s) = none) ↔
        ∀ i < p.hopCount, p.nodeAnswer? keys seeds i = some true) := by
  intro hop p key keys seeds
  have hwire : p.structureFault? = none := by decide
  have hkeys : keys.map List.length = p.sizes := rfl
  exact ⟨hwire, hkeys, (segments_checked_iff_nodes_accept hwire hkeys seeds).1⟩

end Path

end SourceRoute

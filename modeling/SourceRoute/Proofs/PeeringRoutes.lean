import SourceRoute.Build.Peering
import SourceRoute.Proofs.ChainBinding
import SourceRoute.Proofs.ConsecutiveLinks
import SourceRoute.Proofs.KeyedSegments

/-!
# Laws of paths over a peering link

Both segments of a path over a peering link have the peering flag, so no link is left out, and the
two hops next to the link are the ones at which a seed counts.  There the seed is part of the block
that the code is computed over, and another seed that is accepted gives another block with the same
code.
-/

namespace SourceRoute

@[simp] theorem InfoFlags.peering_withPeering (f : InfoFlags) : f.withPeering.peering = true := by
  rw [peering_eq_getLsbD, withPeering, UInt8.toBitVec_or, BitVec.getLsbD_or]
  simp [peeringBit]

/-! ## Seeds at a junction -/

namespace CurrentHop

variable {current : CurrentHop} {key : ForwardingKey} {seed right : PeeringSeed}

/-- Two seeds give different blocks for the hop, of 32 bytes each, that have the same code under a
key. -/
structure SeedsCollide (current : CurrentHop) (key : ForwardingKey)
    (seed seed' : Option PeeringSeed) : Prop where
  length : (current.authBlock seed).bytes.length = 32
  length' : (current.authBlock seed').bytes.length = 32
  blocks_ne : (current.authBlock seed).bytes ≠ (current.authBlock seed').bytes
  codes_eq : key.authenticate (current.authBlock seed).bytes =
    key.authenticate (current.authBlock seed').bytes

/-- Next to a junction a block tells the seed that it was made with. -/
theorem seed_eq_of_bytes_eq (hjunction : current.atJunction = true) {seed seed' : Option PeeringSeed}
    (h : (current.authBlock seed).bytes = (current.authBlock seed').bytes) :
    seed.getD PeeringSeed.zero = seed'.getD PeeringSeed.zero := by
  have hblock := congrArg AuthBlock.seed (AuthBlock.bytes_injective h)
  rw [authBlock, authBlock, if_pos hjunction, if_pos hjunction] at hblock
  exact hblock

/-- Two seeds that are accepted next to a junction are the same or collide. -/
theorem eq_or_seedsCollide (hjunction : current.atJunction = true)
    {seed seed' : Option PeeringSeed} (h : current.verify key seed = true)
    (h' : current.verify key seed' = true) :
    seed.getD PeeringSeed.zero = seed'.getD PeeringSeed.zero ∨
      current.SeedsCollide key seed seed' := by
  -- if the blocks differ, both of them have the code that the hop carries
  rcases Decidable.em ((current.authBlock seed).bytes = (current.authBlock seed').bytes) with
    hsame | hother
  · exact .inl (seed_eq_of_bytes_eq hjunction hsame)
  · right
    exact
      { length := AuthBlock.length_bytes _
        length' := AuthBlock.length_bytes _
        blocks_ne := hother
        codes_eq := (of_decide_eq_true h).trans (of_decide_eq_true h').symm }

end CurrentHop

/-- The same, asked of a path. -/
theorem Path.eq_or_seedsCollide {p : Path} {t s k : Nat} (hsizes : ValidSizes p.sizes)
    (hlocate : p.locate? t = some (s, k)) (hjunction : p.junctionAt s k = true)
    {key : ForwardingKey} {seed seed' : Option PeeringSeed}
    (h : (p.placedAt t).records.verify key seed = true)
    (h' : (p.placedAt t).records.verify key seed' = true) :
    seed.getD PeeringSeed.zero = seed'.getD PeeringSeed.zero ∨
      ∃ current, CurrentHop.locate (p.placedAt t).records = .ok current ∧
        current.SeedsCollide key seed seed' := by
  obtain ⟨segment, hop, hs, hk⟩ := exists_segment_of_locate hlocate
  have hcurrent := locate_placedAt hsizes hlocate hs hk
  rw [RecordSource.verify_of_locate hcurrent] at h h'
  rcases CurrentHop.eq_or_seedsCollide hjunction h h' with hsame | hcollide
  · exact .inl hsame
  · exact .inr ⟨_, hcurrent, hcollide⟩

namespace PeeringRoute

/-- The two segments with the peering flag set. -/
def parts (r : PeeringRoute) : List KeyedSegment :=
  [⟨r.up.outline.withPeering, r.up.keys⟩, ⟨r.down.outline.withPeering, r.down.keys⟩]

/-- The seed that counts at a hop of the path, if the hop is next to the peering link. -/
def seed? (r : PeeringRoute) (t : Nat) : Option PeeringSeed :=
  if t + 1 = r.up.outline.hops.length then some r.seeds.before
  else if t = r.up.outline.hops.length then some r.seeds.after
  else none

variable {r : PeeringRoute} {p : Path} {s k t : Nat}

theorem seed?_of_last (h : t + 1 = r.up.size) : r.seed? t = some r.seeds.before := if_pos h

theorem seed?_of_first (h : t = r.up.size) : r.seed? t = some r.seeds.after := by
  subst h
  unfold seed?
  exact (if_neg (Nat.succ_ne_self r.up.size)).trans (if_pos rfl)

/-- A seed counts at the last hop of the up segment and at the first one of the down segment. -/
theorem eq_of_seed?_eq_some {right : PeeringSeed} (h : r.seed? t = some right) :
    t + 1 = r.up.size ∨ t = r.up.size := by
  unfold seed? at h
  split at h
  next hlast => exact .inl hlast
  next =>
    split at h
    next hfirst => exact .inr hfirst
    next => exact absurd h (Option.some_ne_none right).symm

theorem plan_eq_ofKeyed (r : PeeringRoute) : r.plan = .ofKeyed r.parts (some r.seeds) := rfl

theorem peersAfter_iff : r.plan.PeersAfter s ↔ s = 0 := by
  rw [plan_eq_ofKeyed]
  exact (PathPlan.peersAfter_pair_iff ..).trans
    (and_iff_left ⟨InfoFlags.peering_withPeering _, InfoFlags.peering_withPeering _⟩)

theorem valid_plan_iff : r.plan.Valid ↔
    ValidSizes [r.up.size, r.down.size] ∧ r.up.Matched ∧ r.down.Matched := by
  -- a peering route has seeds, and both of its segments have the flag that calls for them
  have hseeds : (some r.seeds).isSome = true ↔ ∃ s, r.plan.PeersAfter s :=
    iff_of_true rfl ⟨0, peersAfter_iff.mpr rfl⟩
  rw [plan_eq_ofKeyed] at hseeds ⊢
  rw [PathPlan.valid_ofKeyed_iff, and_iff_left hseeds]
  apply and_congr_right
  intro _
  exact List.forall_mem_cons.trans (and_congr_right fun _ => List.forall_mem_singleton)

/-- A hop of the path lies on the up segment or on the down segment. -/
theorem locate_cases (h : Runs.locate r.plan.sizes t = some (s, k)) :
    (s = 0 ∧ t = k ∧ k < r.up.size) ∨ (s = 1 ∧ t = r.up.size + k ∧ k < r.down.size) := by
  obtain ⟨hk, ht⟩ := Runs.locate_eq_some_iff.mp h
  have hs : s < 2 := Runs.lt_length_of_locate h
  match s, hs with
  | 0, _ => exact .inl ⟨rfl, ht.trans (Nat.zero_add k), hk⟩
  | 1, _ => exact .inr ⟨rfl, ht, hk⟩

/-- At a hop next to the link the seed of that hop fits, and elsewhere every seed does. -/
theorem seedFits (hlocate : Runs.locate r.plan.sizes t = some (s, k)) {seed : Option PeeringSeed}
    (hseed : ∀ right, r.seed? t = some right → seed = some right) :
    r.plan.SeedFits s k seed := by
  refine ⟨?_, ?_⟩
  · -- before the link, at the last hop of the up segment
    intro hlast hpeers
    obtain rfl := peersAfter_iff.mp hpeers
    rcases locate_cases hlocate with ⟨-, rfl, -⟩ | ⟨hs, -⟩
    · exact hseed r.seeds.before (seed?_of_last hlast)
    · exact absurd hs Nat.zero_ne_one
  · -- behind the link, at the first hop of the down segment
    intro hfirst hs hpeers _
    rcases locate_cases hlocate with ⟨rfl, -⟩ | ⟨-, rfl, -⟩
    · exact absurd hs (Nat.lt_irrefl 0)
    · exact hseed r.seeds.after (seed?_of_first (congrArg (r.up.size + ·) hfirst))

/-- The hops at which a seed counts are those next to a junction of the path. -/
theorem junctionAt_path (hvalid : r.plan.Valid)
    (hlocate : Runs.locate r.plan.sizes t = some (s, k)) {right : PeeringSeed}
    (hseed : r.seed? t = some right) : r.plan.path.junctionAt s k = true := by
  have hafter : r.plan.junctionAfter 0 = true :=
    PathPlan.junctionAfter_iff.mpr (peersAfter_iff.mpr rfl)
  rw [hvalid.junctionAt_path, Bool.or_eq_true, Bool.and_eq_true, Bool.and_eq_true,
    decide_eq_true_eq, decide_eq_true_eq]
  -- on the up segment a seed counts at the end, on the down segment at the start
  rcases locate_cases hlocate with ⟨rfl, rfl, hk⟩ | ⟨rfl, rfl, -⟩
  · rcases eq_of_seed?_eq_some hseed with hlast | hfirst
    · exact .inl ⟨hlast, hafter⟩
    · exact absurd hfirst (Nat.ne_of_lt hk)
  · rcases eq_of_seed?_eq_some hseed with hlast | hfirst
    · exact absurd hlast (Nat.ne_of_gt (Nat.lt_succ_of_le (Nat.le_add_right _ k)))
    · exact .inr ⟨Nat.left_eq_add.mp hfirst.symm, hafter⟩

theorem hasPeering_path (hvalid : r.plan.Valid) (hs : s < 2) :
    hasPeering r.plan.path.info? s = true := by
  rw [hasPeering, hvalid.info?_path]
  obtain rfl | rfl : s = 0 ∨ s = 1 := by omega
  · exact InfoFlags.peering_withPeering _
  · exact InfoFlags.peering_withPeering _

theorem follows_hops (hvalid : r.plan.Valid) : List.Forall₂ HopField.Follows r.plan.path.hops
    (r.up.outline.hops ++ r.down.outline.hops) := by
  have hhops := Path.follows_hops hvalid.follows_path
  rw [← List.append_nil r.down.outline.hops]
  exact hhops

/-- The link between the two segments. -/
theorem exists_peeringLink (hvalid : r.plan.Valid) : ∃ last first,
    r.up.outline.hops.getLast? = some last ∧ r.down.outline.hops.head? = some first ∧
      (Link.consecutive r.plan.path.hops)[r.up.outline.hops.length - 1]? =
        some ⟨last.egress, first.ingress⟩ := by
  obtain ⟨⟨hup, -⟩, ⟨hdown, -⟩, -⟩ := validSizes_pair_iff.mp (valid_plan_iff.mp hvalid).1
  have hlast := List.getLast?_eq_some_getLast (List.ne_nil_of_length_pos hup)
  have hfirst := List.head?_eq_some_head (List.ne_nil_of_length_pos hdown)
  refine ⟨_, _, hlast, hfirst, ?_⟩
  -- the hop fields next to the link are made from these two outlines
  have hlastField := congrArg (Option.map HopOutline.toField) hlast
  have hfirstField := congrArg (Option.map HopOutline.toField) hfirst
  rw [← List.getLast?_map] at hlastField
  rw [← List.head?_map] at hfirstField
  have hlink := Link.getElem?_consecutive_append hlastField hfirstField
  rw [List.length_map] at hlink
  rw [HopField.Follows.consecutive_eq (follows_hops hvalid), List.map_append]
  exact hlink

/-- Every hop of the path passes its check with its key.  Next to the link only the seed of the hop
is accepted, or one that collides with it; elsewhere every seed is. -/
theorem exists_key_verify (hvalid : r.plan.Valid) (ht : t < r.plan.path.hopCount) :
    ∃ key, (r.up.keys ++ r.down.keys)[t]? = some key ∧
      (r.seed? t = none → ∀ seed, (r.plan.path.placedAt t).records.verify key seed = true) ∧
      ∀ right, r.seed? t = some right →
        (r.plan.path.placedAt t).records.verify key (some right) = true ∧
        ∀ seed, (r.plan.path.placedAt t).records.verify key seed = true →
          seed.getD PeeringSeed.zero = right ∨
          ∃ current, CurrentHop.locate (r.plan.path.placedAt t).records = .ok current ∧
            current.SeedsCollide key seed (some right) := by
  obtain ⟨s, k, keys, key, hlocate, hkeys, hkey, hflat⟩ := hvalid.exists_key ht
  have hplace : Runs.locate r.plan.sizes t = some (s, k) := by
    rw [← hvalid.sizes_path]
    exact hlocate
  -- a seed that fits the hop is accepted with its key
  have hverify {seed : Option PeeringSeed} (hseed : ∀ right, r.seed? t = some right →
      seed = some right) : (r.plan.path.placedAt t).records.verify key seed = true :=
    hvalid.verify_path hlocate hkeys hkey (seedFits hplace hseed)
  have hgiven : (r.up.keys ++ r.down.keys)[t]? = some key := by
    rw [← List.append_nil r.down.keys]
    exact hflat
  refine ⟨key, hgiven, ?_, ?_⟩
  · -- away from the link all seeds fit
    intro hnone seed
    exact hverify fun right hright => absurd (hnone.symm.trans hright) (Option.some_ne_none right).symm
  · intro right hright
    have haccepted : (r.plan.path.placedAt t).records.verify key (some right) = true :=
      hverify fun right' hright' => hright.symm.trans hright'
    refine ⟨haccepted, ?_⟩
    intro seed hseed
    -- two seeds that are accepted next to a junction agree, or their blocks collide
    exact Path.eq_or_seedsCollide hvalid.wellFormed_path.sizes hlocate
      (junctionAt_path hvalid hplace hright) hseed haccepted

/-! ## Building -/

/-- A path over a peering link is built exactly if the two segments fit a header and the keys match.
Its links are all those between consecutive hops, in both directions, and every hop passes its check
with its key: next to the link with the seed of the hop, elsewhere with any seed.  Another seed that
is accepted next to the link gives another block with the same code. -/
theorem build_crosses_link (r : PeeringRoute) :
    ((∃ p, r.build = .ok p) ↔
      (1 ≤ r.up.outline.hops.length ∧ r.up.outline.hops.length ≤ 63) ∧
      (1 ≤ r.down.outline.hops.length ∧ r.down.outline.hops.length ≤ 63) ∧
      r.up.outline.hops.length + r.down.outline.hops.length ≤ 64 ∧
      r.up.keys.length = r.up.outline.hops.length ∧
      r.down.keys.length = r.down.outline.hops.length) ∧
    ∀ p, r.build = .ok p →
      p.infos = [{ r.up.outline.info with flags := ⟨r.up.outline.flags.bits ||| 2⟩ },
        { r.down.outline.info with flags := ⟨r.down.outline.flags.bits ||| 2⟩ }] ∧
      List.Forall₂ HopField.Follows p.hops (r.up.outline.hops ++ r.down.outline.hops) ∧
      p.records.links = Link.consecutive p.hops ∧
      p.records.links.length = p.hopCount - 1 ∧
      (∃ last first, r.up.outline.hops.getLast? = some last ∧
        r.down.outline.hops.head? = some first ∧
        p.records.links[r.up.outline.hops.length - 1]? = some ⟨last.egress, first.ingress⟩) ∧
      p.reversed.records.links = (p.records.links.map Link.reversed).reverse ∧
      ∀ t < p.hopCount, ∃ key, (r.up.keys ++ r.down.keys)[t]? = some key ∧
        (r.seed? t = none → ∀ seed, (p.placedAt t).records.verify key seed = true) ∧
        ∀ right, r.seed? t = some right →
          (p.placedAt t).records.verify key (some right) = true ∧
          ∀ seed, seed.getD PeeringSeed.zero ≠ right →
            (p.placedAt t).records.verify key seed = true →
            ∃ current, CurrentHop.locate (p.placedAt t).records = .ok current ∧
              current.SeedsCollide key seed (some right) := by
  refine ⟨⟨?_, ?_⟩, ?_⟩
  · -- what is built has a valid plan, which bounds both segments
    rintro ⟨p, hbuild⟩
    obtain ⟨hvalid, -⟩ := PathPlan.build_eq_ok_iff.mp hbuild
    obtain ⟨hsizes, hup, hdown⟩ := valid_plan_iff.mp hvalid
    obtain ⟨hupSize, hdownSize, htotal⟩ := validSizes_pair_iff.mp hsizes
    exact ⟨hupSize, hdownSize, htotal, hup, hdown⟩
  · -- the bounds are all that a plan with two flagged segments and seeds needs
    rintro ⟨hupSize, hdownSize, htotal, hup, hdown⟩
    have hsizes := validSizes_pair_iff.mpr ⟨hupSize, hdownSize, htotal⟩
    have hvalid := valid_plan_iff.mpr ⟨hsizes, hup, hdown⟩
    exact ⟨_, PathPlan.build_eq_ok_iff.mpr ⟨hvalid, rfl⟩⟩
  · intro p hbuild
    obtain ⟨hvalid, rfl⟩ := PathPlan.build_eq_ok_iff.mp hbuild
    have hsizes := hvalid.wellFormed_path.sizes
    -- both segments have the flag, so no link is left out in either direction
    have hpeering (s : Nat) (hs : s < r.plan.path.segments.length) :
        hasPeering r.plan.path.info? s = true :=
      hasPeering_path hvalid (Nat.lt_of_lt_of_eq hs hvalid.length_segments_path)
    have hlinks : r.plan.path.records.links = Link.consecutive r.plan.path.hops :=
      Path.links_eq_consecutive hsizes fun s hs => hpeering (s + 1) hs
    refine ⟨rfl, follows_hops hvalid, hlinks, ?_, ?_, Path.links_reversed_eq hsizes hpeering, ?_⟩
    · rw [hlinks, Link.length_consecutive, Path.length_hops]
    · rw [hlinks]
      exact exists_peeringLink hvalid
    · intro t ht
      obtain ⟨key, hkey, hany, hright⟩ := exists_key_verify hvalid ht
      refine ⟨key, hkey, hany, ?_⟩
      intro right hseed
      -- a seed other than that of the hop is accepted only if it collides with it
      obtain ⟨haccepted, hother⟩ := hright right hseed
      exact ⟨haccepted, fun seed hne hverify => (hother seed hverify).resolve_left hne⟩

end PeeringRoute

end SourceRoute

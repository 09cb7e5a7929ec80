import Mathlib.Data.List.Forall2
import SourceRoute.Proofs.BuildLaws
import SourceRoute.Proofs.ChainChecks

/-!
# Which plans are built, and into what

A path is built from a plan exactly if its segments fit a header, its keys match its hops, its seeds
are there exactly if two adjacent segments have the peering flag, and its position exists.  The path
then has the values of the plan at every place, and each of its segments passes the check as a
whole.
-/

namespace SourceRoute

/-! ## Values of a plan -/

/-- The hop field has the values of the description.  Its code may be any. -/
structure HopField.Follows (f : HopField) (outline : HopOutline) : Prop where
  flags : f.flags = outline.flags
  expTime : f.expTime = outline.expTime
  ingress : f.ingress = outline.ingress
  egress : f.egress = outline.egress

/-- The segment has the values of the description, its hops in the same order. -/
structure Segment.Follows (s : Segment) (outline : SegmentOutline) : Prop where
  flags : s.info.flags = outline.flags
  segmentId : s.info.segmentId = outline.segmentId
  timestamp : s.info.timestamp = outline.timestamp
  hops : List.Forall₂ HopField.Follows s.hops outline.hops

private theorem forall₂_of_getElem? {α β : Type} {R : α → β → Prop} {l : List α} {m : List β}
    (hlength : l.length = m.length)
    (h : ∀ (i : Nat) a b, l[i]? = some a → m[i]? = some b → R a b) : List.Forall₂ R l m :=
  List.forall₂_iff_get.mpr ⟨hlength, fun i hl hm =>
    h i _ _ (List.getElem?_eq_getElem hl) (List.getElem?_eq_getElem hm)⟩

/-- Signing changes nothing but codes. -/
theorem SegmentOutline.follows_signed {outline : SegmentOutline} {keys : List ForwardingKey}
    (hkeys : keys.length = outline.size) (seeds : OuterSeeds) :
    (outline.toSegment.signed keys seeds).Follows outline where
  flags := rfl
  segmentId := rfl
  timestamp := rfl
  hops := by
    have hcount : keys.length = outline.toSegment.size := by
      rw [PathPlan.size_toSegment, hkeys]
    -- signing leaves each hop in its place and changes its code alone
    refine forall₂_of_getElem? ?_ ?_
    · exact (Segment.size_signed hcount seeds).trans (PathPlan.size_toSegment outline)
    · intro k field hop hfield hhop
      have hk := (List.getElem?_eq_some_iff.mp hhop).1
      have hkey := List.getElem?_eq_getElem (l := keys) (i := k) (by rwa [hkeys])
      have hzero : outline.toSegment.hops[k]? = some hop.toField := by
        rw [SegmentOutline.toSegment, List.getElem?_map, hhop]
        rfl
      rw [Segment.getElem?_hops_signed hcount hzero hkey seeds, Option.some.injEq] at hfield
      subst hfield
      exact ⟨rfl, rfl, rfl, rfl⟩

namespace PathPlan

variable {P : PathPlan}

instance (P : PathPlan) (s : Nat) : Decidable (P.PeersAfter s) :=
  decidable_of_iff (P.junctionAfter s = true) junctionAfter_iff

theorem outerSeeds_eq (P : PathPlan) (s : Nat) : P.outerSeeds s =
    { first := if 0 < s ∧ P.PeersAfter (s - 1) then P.seeds.map PeeringSeeds.after else none
      last := if P.PeersAfter s then P.seeds.map PeeringSeeds.before else none } := by
  simp only [outerSeeds, junctionBefore, Bool.and_eq_true, decide_eq_true_eq, junctionAfter_iff]

theorem Valid.follows_path (h : P.Valid) :
    List.Forall₂ Segment.Follows P.path.segments P.segments := by
  refine forall₂_of_getElem? h.length_segments_path ?_
  intro s segment outline hsegment houtline
  obtain ⟨keys, hkeys, hcount⟩ := h.exists_keys houtline
  -- segment `s` of the path is outline `s`, signed with group `s` of the keys
  rw [getElem?_segments_path houtline hkeys, Option.some.injEq] at hsegment
  subst hsegment
  exact SegmentOutline.follows_signed hcount _

/-- Every segment of the planned path passes the check as a whole. -/
theorem Valid.firstBadMac?_path (h : P.Valid) {s : Nat} {segment : Segment}
    (hsegment : P.path.segments[s]? = some segment) :
    ∃ keys, P.keys[s]? = some keys ∧ segment.firstBadMac? keys (P.outerSeeds s) = none := by
  have hs := (List.getElem?_eq_some_iff.mp hsegment).1
  rw [h.length_segments_path] at hs
  have houtline := List.getElem?_eq_getElem hs
  obtain ⟨keys, hkeys, hcount⟩ := h.exists_keys houtline
  rw [getElem?_segments_path houtline hkeys, Option.some.injEq] at hsegment
  subst hsegment
  exact ⟨keys, hkeys, Segment.firstBadMac?_signed (by rw [size_toSegment, hcount]) _⟩

/-- What it means for the segments of a plan to fit a header, bound by bound. -/
theorem validSizes_sizes_iff : ValidSizes P.sizes ↔
    (1 ≤ P.segments.length ∧ P.segments.length ≤ 3) ∧
      (∀ outline ∈ P.segments, 1 ≤ outline.hops.length ∧ outline.hops.length ≤ 63) ∧
      Runs.total P.sizes ≤ 64 := by
  -- the sizes are those of the outlines, so a bound on the one is a bound on the other
  have hbounds (n : Nat) : n ∈ P.sizes ↔ ∃ outline ∈ P.segments, outline.hops.length = n :=
    List.mem_map
  have hlength : P.sizes.length = P.segments.length := List.length_map ..
  rw [← hlength]
  constructor
  · intro h
    have hsize {outline : SegmentOutline} (hmem : outline ∈ P.segments) :=
      (hbounds outline.hops.length).mpr ⟨outline, hmem, rfl⟩
    exact ⟨⟨List.length_pos_iff.mpr h.ne_nil, h.count_le⟩,
      fun _ hmem => ⟨h.pos _ (hsize hmem), h.le _ (hsize hmem)⟩, h.total_le⟩
  · rintro ⟨⟨hpos, hcount⟩, heach, htotal⟩
    refine ⟨List.length_pos_iff.mp hpos, hcount, ?_, ?_, htotal⟩ <;> intro n hn
    · obtain ⟨outline, hmem, rfl⟩ := (hbounds n).mp hn
      exact (heach outline hmem).1
    · obtain ⟨outline, hmem, rfl⟩ := (hbounds n).mp hn
      exact (heach outline hmem).2

/-- A path is built exactly from the plans that describe one.  It has a wire form, the position and
all values of the plan, and each of its segments passes the check with its keys and with the seeds
of the junctions next to it. -/
theorem build_exact (P : PathPlan) :
    ((∃ p, P.build = .ok p) ↔
      (1 ≤ P.segments.length ∧ P.segments.length ≤ 3) ∧
      (∀ outline ∈ P.segments, 1 ≤ outline.hops.length ∧ outline.hops.length ≤ 63) ∧
      Runs.total P.sizes ≤ 64 ∧
      P.keys.length = P.segments.length ∧
      (∀ (s : Nat) outline keys, P.segments[s]? = some outline → P.keys[s]? = some keys →
        keys.length = outline.hops.length) ∧
      (P.seeds.isSome = true ↔ ∃ s, P.PeersAfter s) ∧
      P.currentHop.toNat < Runs.total P.sizes ∧
      P.currentHop.toNat ∈ Runs.span P.sizes P.currentInfo.toNat) ∧
    ∀ p, P.build = .ok p →
      p.structureFault? = none ∧
      p.currentInfo = P.currentInfo ∧ p.currentHop = P.currentHop ∧
      List.Forall₂ Segment.Follows p.segments P.segments ∧
      ∀ (s : Nat) segment, p.segments[s]? = some segment →
        ∃ keys, P.keys[s]? = some keys ∧
          segment.firstBadMac? keys
            { first := if 0 < s ∧ P.PeersAfter (s - 1) then P.seeds.map PeeringSeeds.after
                else none
              last := if P.PeersAfter s then P.seeds.map PeeringSeeds.before
                else none } = none := by
  refine ⟨⟨?_, ?_⟩, ?_⟩
  · -- what is built comes from a plan without a mistake
    rintro ⟨p, hbuild⟩
    obtain ⟨h, -⟩ := build_eq_ok_iff.mp hbuild
    obtain ⟨k, hlocate⟩ := h.position
    obtain ⟨hcount, hbounds, htotal⟩ := validSizes_sizes_iff.mp h.sizes
    exact ⟨hcount, hbounds, htotal, h.groupCount, h.keyCount, h.seeds,
      Runs.lt_total_of_locate hlocate, Runs.mem_span_iff.mpr ⟨k, hlocate⟩⟩
  · -- a hop in the span of a segment is below the total, so that bound is not needed
    rintro ⟨hcount, hbounds, htotal, hgroups, hkeys, hseeds, -, hposition⟩
    exact ⟨P.path, build_eq_ok_iff.mpr ⟨⟨validSizes_sizes_iff.mpr ⟨hcount, hbounds, htotal⟩,
      hgroups, hkeys, hseeds, Runs.mem_span_iff.mp hposition⟩, rfl⟩⟩
  · intro p hbuild
    obtain ⟨h, rfl⟩ := build_eq_ok_iff.mp hbuild
    refine ⟨Path.structureFault?_eq_none_iff.mpr h.wellFormed_path, rfl, rfl, h.follows_path, ?_⟩
    intro s segment hsegment
    -- the seeds of the junctions at both ends are those that the segment was signed with
    rw [← outerSeeds_eq]
    exact h.firstBadMac?_path hsegment

end PathPlan

end SourceRoute

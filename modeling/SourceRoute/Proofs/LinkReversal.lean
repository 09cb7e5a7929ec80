import Mathlib.Data.List.Basic
import SourceRoute.Proofs.PathLinks
import SourceRoute.Proofs.ViewReversal

/-!
# Links of a path the other way round

The path the other way round has the same hops in the opposite order, so its links are those of the
path, turned, as long as the same ones are kept.  At a boundary between two segments a link is kept
for the flag of the segment that comes later in the visit.  On the way back that is the other one of
the two, so both directions agree exactly where both segments have the peering flag or neither has.
-/

namespace SourceRoute

/-! ## Links between the hops of a turned list -/

namespace Link

/-- The link crossed the other way. -/
def reversed (link : Link) : Link := ⟨link.ingress, link.egress⟩

variable {kept kept' : Nat → Bool} {hops : List HopField} {j : Nat}

theorem behind?_reversed (hj : j + 1 < hops.length) :
    behind? (hops.reverse.map HopField.reversed) (hops.length - 2 - j) =
      (behind? hops j).map Link.reversed := by
  have hlater : hops.length - 2 - j = hops.length - 1 - (j + 1) := by omega
  have hearlier : hops.length - 2 - j + 1 = hops.length - 1 - j := by omega
  unfold behind?
  rw [hearlier, getElem?_map_reverse _ (Nat.lt_of_succ_lt hj), hlater, getElem?_map_reverse _ hj]
  cases hops[j]? <;> cases hops[j + 1]? <;> rfl

private theorem reverse_range (n : Nat) :
    (List.range n).reverse = (List.range n).map fun j => n - 1 - j := by
  rw [List.range_eq_range', List.reverse_range']
  simp [List.range_eq_range']

/-- If the mirrored links are kept, they are the same ones in the opposite order. -/
theorem ofHops_reversed (hkept : ∀ j, j + 1 < hops.length → kept' (hops.length - 2 - j) = kept j) :
    ofHops kept' (hops.reverse.map HopField.reversed) =
      ((ofHops kept hops).map Link.reversed).reverse := by
  have hlength : (hops.reverse.map HopField.reversed).length - 1 = hops.length - 1 := by simp
  have hfilter : (List.range (hops.length - 1)).filter (kept' ∘ fun j => hops.length - 2 - j) =
      (List.range (hops.length - 1)).filter kept :=
    List.filter_congr fun j hj => hkept j (mem_range_iff.mp hj)
  have hread : ((List.range (hops.length - 1)).filter kept).filterMap
      (behind? (hops.reverse.map HopField.reversed) ∘ fun j => hops.length - 2 - j) =
      ((List.range (hops.length - 1)).filter kept).filterMap
        fun j => (behind? hops j).map Link.reversed :=
    List.filterMap_congr fun j hj =>
      behind?_reversed (mem_range_iff.mp (List.mem_filter.mp hj).1)
  -- read from the back, place `j` of the turned list is place `n - 2 - j` of the list
  apply List.reverse_injective
  calc (ofHops kept' (hops.reverse.map HopField.reversed)).reverse
      = ((List.range (hops.length - 1)).reverse.filter kept').filterMap
          (behind? (hops.reverse.map HopField.reversed)) := by
        rw [ofHops, hlength, List.filter_reverse, List.filterMap_reverse]
    _ = ((List.range (hops.length - 1)).filter kept).filterMap
          (behind? (hops.reverse.map HopField.reversed) ∘ fun j => hops.length - 2 - j) := by
        rw [reverse_range, List.filter_map, List.filterMap_map]
        exact congrArg _ hfilter
    _ = (ofHops kept hops).map Link.reversed := by
        rw [hread, ofHops, List.map_filterMap]
    _ = ((ofHops kept hops).map Link.reversed).reverse.reverse := (List.reverse_reverse _).symm

end Link

/-! ## Links on the way back -/

namespace Path

variable {p : Path} {j s : Nat}

/-- Whether the link from hop `j` to the next one is kept on the way back: both lie in the same
segment, or the segment of the earlier one has the peering flag. -/
def joinedBack (p : Path) (j : Nat) : Bool :=
  match p.locate? j, p.locate? (j + 1) with
  | some (earlier, _), some (later, _) => earlier = later || hasPeering p.info? earlier
  | _, _ => false

theorem joinedBack_of_locate {t k m : Nat} (hlocate : p.locate? j = some (s, k))
    (hnext : p.locate? (j + 1) = some (t, m)) :
    p.joinedBack j = (decide (s = t) || hasPeering p.info? s) := by
  unfold joinedBack
  simp only [hlocate, hnext]

theorem joined_reversed (hj : j + 1 < p.hopCount) :
    p.reversed.joined (p.hopCount - 2 - j) = p.joinedBack j := by
  obtain ⟨s, k, t, m, hlocate, hnext⟩ := exists_locate?_succ hj
  have hs := lt_length_of_locate? hlocate
  have ht := lt_length_of_locate? hnext
  have hsame : (p.segments.length - 1 - t = p.segments.length - 1 - s) = (s = t) := by
    rw [eq_iff_iff]
    omega
  -- the later hop is the first of the two on the way back
  have hfirst := locate?_reversed hnext
  have hsecond := locate?_reversed hlocate
  have hplace : p.hopCount - 1 - (j + 1) = p.hopCount - 2 - j := by omega
  have hplace' : p.hopCount - 1 - j = p.hopCount - 2 - j + 1 := by omega
  rw [hplace] at hfirst
  rw [hplace'] at hsecond
  rw [joined_of_locate hfirst hsecond, joinedBack_of_locate hlocate hnext, hasPeering_reversed hs]
  simp only [hsame]

/-- The path the other way round should have the turned links that are kept on the way back. -/
theorem crossings_reversed (p : Path) : p.reversed.crossings =
    ((Link.ofHops p.joinedBack p.hops).map Link.reversed).reverse := by
  unfold crossings
  rw [hops_reversed]
  apply Link.ofHops_reversed
  rw [length_hops]
  exact fun j hj => joined_reversed hj

/-- Where the two segments agree on the peering flag, and only there, a link is kept both ways or
neither way. -/
theorem joinedBack_eq_joined_iff (hsizes : ValidSizes p.sizes) :
    (∀ j, j + 1 < p.hopCount → p.joinedBack j = p.joined j) ↔
      ∀ s, s + 1 < p.segments.length → hasPeering p.info? s = hasPeering p.info? (s + 1) := by
  have hpos {s : Nat} (hs : s < p.segments.length) : 0 < p.sizes.getD s 0 := by
    rw [← length_sizes] at hs
    rw [List.getD_eq_getElem _ _ hs]
    exact hsizes.pos _ (List.getElem_mem hs)
  constructor
  · intro hboth s hs
    -- the last hop of the segment and the first one of the next
    have hsize := hpos (Nat.lt_of_succ_lt hs)
    have hlocate : p.locate? (Runs.total (p.sizes.take s) + (p.sizes.getD s 0 - 1)) =
        some (s, p.sizes.getD s 0 - 1) :=
      Runs.locate_eq_some_iff.mpr ⟨Nat.sub_lt hsize Nat.zero_lt_one, rfl⟩
    have hnext : p.locate? (Runs.total (p.sizes.take s) + (p.sizes.getD s 0 - 1) + 1) =
        some (s + 1, 0) := by
      apply Runs.locate_eq_some_iff.mpr
      rw [Runs.total_take_succ, Nat.add_assoc, Nat.sub_add_cancel hsize]
      exact ⟨hpos hs, rfl⟩
    have hsame := hboth _ (Runs.lt_total_of_locate hnext)
    rw [joinedBack_of_locate hlocate hnext, joined_of_locate hlocate hnext] at hsame
    simpa using hsame
  · intro hagree j hj
    obtain ⟨s, k, t, m, hlocate, hnext⟩ := exists_locate?_succ hj
    have ht := lt_length_of_locate? hnext
    rw [joinedBack_of_locate hlocate hnext, joined_of_locate hlocate hnext]
    rcases (fitsHeader_of_validSizes hsizes).locate?_succ hlocate hnext with ⟨rfl, -⟩ | ⟨rfl, -⟩
    · rfl
    · rw [hagree s ht]

/-- Without segments of a single hop the links are the ones that the path should have. -/
theorem links_eq_crossings (hsizes : ValidSizes p.sizes) (hsize : ∀ n ∈ p.sizes, 2 ≤ n) :
    p.records.links = p.crossings := by
  apply (links_eq_crossings_iff (fitsHeader_of_validSizes hsizes)).mpr
  intro s hover
  have hsingle := hover.single
  rcases Nat.lt_or_ge s p.sizes.length with hs | hs
  · rw [List.getD_eq_getElem _ _ hs] at hsingle
    exact absurd (hsize _ (List.getElem_mem hs)) (by omega)
  · rw [List.getD_eq_default _ _ hs] at hsingle
    exact absurd hsingle Nat.zero_ne_one

/-- In a path with a wire form and at least two hops in each segment, the links are those between
hops in the same segment and those to a segment with the peering flag, and on the way back they are
the turned ones between hops in the same segment and from a segment with the flag.  A link is kept
both ways or neither way exactly if neighbouring segments agree on the flag, and the links of the
way back are then the turned ones of the path. -/
theorem links_reversed_of_agreeing_flags {p : Path} (hwire : p.structureFault? = none)
    (hsize : ∀ n ∈ p.sizes, 2 ≤ n) :
    p.records.links = Link.ofHops p.joined p.hops ∧
    p.reversed.records.links =
      ((Link.ofHops p.joinedBack p.hops).map Link.reversed).reverse ∧
    ((∀ j, j + 1 < p.hopCount → p.joinedBack j = p.joined j) ↔
      ∀ s, s + 1 < p.segments.length → hasPeering p.info? s = hasPeering p.info? (s + 1)) ∧
    ((∀ s, s + 1 < p.segments.length → hasPeering p.info? s = hasPeering p.info? (s + 1)) →
      p.reversed.records.links = (p.records.links.map Link.reversed).reverse) := by
  have hsizes := (structureFault?_eq_none_iff.mp hwire).sizes
  have hthere : p.records.links = Link.ofHops p.joined p.hops := links_eq_crossings hsizes hsize
  have hback : p.reversed.records.links =
      ((Link.ofHops p.joinedBack p.hops).map Link.reversed).reverse := by
    rw [← crossings_reversed]
    apply links_eq_crossings (wellFormed_reversed hsizes).sizes
    intro n hn
    rw [sizes_reversed] at hn
    exact hsize n (List.mem_reverse.mp hn)
  refine ⟨hthere, hback, joinedBack_eq_joined_iff hsizes, ?_⟩
  intro hagree
  have hsame := (joinedBack_eq_joined_iff hsizes).mpr hagree
  rw [hback, hthere, Link.ofHops_congr fun j hj => hsame j (by rwa [length_hops] at hj)]

/-- The case of two segments with the peering flag, where the link between them is kept. -/
theorem links_reversed_of_agreeing_flags_peering :
    let hop (ingress egress : UInt16) : HopField := ⟨HopFlags.none, 63, ingress, egress, Mac.zero⟩
    let p : Path := ⟨0, 0, [⟨⟨⟨2⟩, 7, 1000⟩, [hop 0 1, hop 2 5]⟩,
      ⟨⟨⟨3⟩, 7, 1000⟩, [hop 6 3, hop 4 0]⟩]⟩
    p.structureFault? = none ∧ (∀ n ∈ p.sizes, 2 ≤ n) ∧
      p.records.links = [⟨1, 2⟩, ⟨5, 6⟩, ⟨3, 4⟩] ∧
      p.reversed.records.links = [⟨4, 3⟩, ⟨6, 5⟩, ⟨2, 1⟩] := by
  intro hop p
  have hwire : p.structureFault? = none := by decide
  have hsize : ∀ n ∈ p.sizes, 2 ≤ n := by decide
  obtain ⟨hthere, -, -, hlaw⟩ := links_reversed_of_agreeing_flags hwire hsize
  have hagree : ∀ s, s + 1 < p.segments.length →
      hasPeering p.info? s = hasPeering p.info? (s + 1) := by
    intro s hs
    have hzero : s = 0 := Nat.lt_one_iff.mp (Nat.lt_of_succ_lt_succ hs)
    rw [hzero]
    decide
  rw [hlaw hagree, hthere]
  exact ⟨hwire, hsize, by decide, by decide⟩

/-- Two segments of which only the later one has the peering flag.  The link between them is kept
there and left out on the way back. -/
theorem links_reversed_of_one_peering_flag :
    let hop (ingress egress : UInt16) : HopField := ⟨HopFlags.none, 63, ingress, egress, Mac.zero⟩
    let p : Path := ⟨0, 0, [⟨⟨⟨0⟩, 7, 1000⟩, [hop 0 1, hop 2 5]⟩,
      ⟨⟨⟨3⟩, 7, 1000⟩, [hop 6 3, hop 4 0]⟩]⟩
    p.structureFault? = none ∧ (∀ n ∈ p.sizes, 2 ≤ n) ∧
      p.records.links = [⟨1, 2⟩, ⟨5, 6⟩, ⟨3, 4⟩] ∧
      p.reversed.records.links = [⟨4, 3⟩, ⟨2, 1⟩] := by
  intro hop p
  have hwire : p.structureFault? = none := by decide
  have hsizes := (structureFault?_eq_none_iff.mp hwire).sizes
  have hsize : ∀ n ∈ p.sizes, 2 ≤ n := by decide
  have hback := links_eq_crossings (p := p.reversed) (wellFormed_reversed hsizes).sizes (by decide)
  rw [links_eq_crossings hsizes hsize, hback]
  exact ⟨hwire, hsize, by decide, by decide⟩

end Path

end SourceRoute

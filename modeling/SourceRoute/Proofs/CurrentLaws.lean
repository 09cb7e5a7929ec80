import SourceRoute.Auth.Current
import SourceRoute.Proofs.PositionLaws

/-!
# Laws of the current hop

Which hop a node authenticates is found through the header.  In a path with valid sizes it is said by
the segment and the place inside the segment alone: `chainBefore` is the code that the hop is chained
to, and `junctionAt` says whether a seed counts.
-/

namespace SourceRoute

/-- The code of the hop before hop `k` in construction order, zero for the first one. -/
def Segment.chainBefore (s : Segment) (k : Nat) : Mac :=
  let before :=
    if s.info.flags.consDir then if 0 < k then s.hops[k - 1]? else none
    else s.hops[k + 1]?
  (before.map HopField.mac).getD Mac.zero

/-- Whether a code is right is asked of the current hop, if there is one. -/
theorem RecordSource.verify_of_locate {source : RecordSource} {current : CurrentHop}
    (hcurrent : CurrentHop.locate source = .ok current) (key : ForwardingKey)
    (seed : Option PeeringSeed) : source.verify key seed = current.verify key seed := by
  rw [verify, authenticate, hcurrent]
  simp only [CurrentHop.authenticate]
  cases current.verify key seed <;> rfl

namespace Path

/-- Whether hop `k` of segment `s` is next to a boundary where both segments have the peering
flag. -/
def junctionAt (p : Path) (s k : Nat) : Bool :=
  let after := k + 1 = p.sizes.getD s 0 && hasPeering p.info? (s + 1)
  let before := k = 0 && 0 < s && hasPeering p.info? (s - 1)
  hasPeering p.info? s && (after || before)

variable {p : Path} {i s k : Nat} {segment : Segment} {hop : HopField}

theorem hop?_of_locate (hlocate : p.locate? i = some (s, k)) (hs : p.segments[s]? = some segment) :
    p.hop? i = segment.hops[k]? := by
  simp only [hop?, hlocate, Option.bind_some, hs]

theorem getD_sizes (hs : p.segments[s]? = some segment) : p.sizes.getD s 0 = segment.size := by
  rw [List.getD_eq_getElem?_getD, sizes, List.getElem?_map, hs]
  rfl

theorem lt_size_of_locate (hlocate : p.locate? i = some (s, k))
    (hs : p.segments[s]? = some segment) : k < segment.size := by
  rw [← getD_sizes hs]
  exact (Runs.locate_eq_some_iff.mp hlocate).1

theorem exists_segment_of_locate (hlocate : p.locate? i = some (s, k)) :
    ∃ segment hop, p.segments[s]? = some segment ∧ segment.hops[k]? = some hop := by
  have hlength : s < p.segments.length := by
    rw [← length_sizes]
    exact Runs.lt_length_of_locate hlocate
  have hs := List.getElem?_eq_getElem hlength
  exact ⟨_, _, hs, List.getElem?_eq_getElem (lt_size_of_locate hlocate hs)⟩

/-- The hop before in construction order is a neighbour inside the segment. -/
theorem chain_eq_chainBefore (hlocate : p.locate? i = some (s, k))
    (hs : p.segments[s]? = some segment) :
    (((previousInChain? (Runs.span p.sizes s) i segment.info.flags.consDir).bind p.hop?).map
      HopField.mac).getD Mac.zero = segment.chainBefore k := by
  have hsize := getD_sizes hs
  obtain ⟨hk, hi⟩ := Runs.locate_eq_some_iff.mp hlocate
  -- the places of the segment are consecutive places of the path
  have hhop {j : Nat} (hj : j < segment.size) :
      p.hop? (Runs.total (p.sizes.take s) + j) = segment.hops[j]? := by
    refine hop?_of_locate (Runs.locate_eq_some_iff.mpr ⟨?_, rfl⟩) hs
    rwa [hsize]
  suffices hbefore : (previousInChain? (Runs.span p.sizes s) i
      segment.info.flags.consDir).bind p.hop? =
      if segment.info.flags.consDir then if 0 < k then segment.hops[k - 1]? else none
      else segment.hops[k + 1]? by
    rw [hbefore, Segment.chainBefore]
  rw [previousInChain?, Runs.start_span, Runs.stop_span, hsize]
  split
  -- visited in construction order: the hop before in the visit
  next =>
    by_cases hfirst : 0 < k
    · have hprevious : i - 1 = Runs.total (p.sizes.take s) + (k - 1) := by omega
      rw [if_pos (by omega), if_pos hfirst, Option.bind_some, hprevious, hhop (by omega)]
    · rw [if_neg (by omega), if_neg hfirst]
      rfl
  -- visited against it: the hop behind in the visit
  next =>
    by_cases hlast : k + 1 < segment.size
    · have hnext : i + 1 = Runs.total (p.sizes.take s) + (k + 1) := by omega
      rw [if_pos (by omega), Option.bind_some, hnext, hhop hlast]
    · have hnone : segment.hops[k + 1]? = none :=
        List.getElem?_eq_none (Nat.le_of_not_lt hlast)
      rw [if_neg (by omega), hnone]
      rfl

theorem hasPeering_eq_false (hs : p.segments.length ≤ s) : hasPeering p.info? s = false := by
  rw [hasPeering, info?, List.getElem?_eq_none hs]
  rfl

theorem bordersJunction_eq_junctionAt (hsizes : ValidSizes p.sizes)
    (hlocate : p.locate? i = some (s, k)) :
    bordersJunction p.lengths p.info? i = p.junctionAt s k := by
  have hd := describes_of_validSizes hsizes
  have hsegment : p.lengths.segmentOf? i = some s := by
    rw [hd.segmentOf?_eq, ← locate?, hlocate]
    rfl
  obtain ⟨hk, hi⟩ := Runs.locate_eq_some_iff.mp hlocate
  -- the first and the last place of the span are those of the segment
  have hlast : (i + 1 = (Runs.span p.sizes s).stop) = (k + 1 = p.sizes.getD s 0) := by
    rw [Runs.stop_span, eq_iff_iff]
    omega
  have hfirst : (i = (Runs.span p.sizes s).start) = (k = 0) := by
    rw [Runs.start_span, eq_iff_iff]
    omega
  simp only [bordersJunction, hsegment, hd.segmentSpan_eq, hlast, hfirst, junctionAt,
    hd.infoCount_eq hsizes.pos, length_sizes]
  -- a segment with the peering flag is there
  rcases Nat.lt_or_ge (s + 1) p.segments.length with hnext | hnext
  · simp [hnext]
  · simp [hasPeering_eq_false hnext]

/-- The current hop of a path that is placed at a hop. -/
theorem locate_placedAt (hsizes : ValidSizes p.sizes) (hlocate : p.locate? i = some (s, k))
    (hs : p.segments[s]? = some segment) (hk : segment.hops[k]? = some hop) :
    CurrentHop.locate (p.placedAt i).records = .ok
      { index := i
        segment := s
        info := segment.info
        hop := hop
        chain := segment.chainBefore k
        atJunction := p.junctionAt s k } := by
  have hi : i < p.hopCount := Runs.lt_total_of_locate hlocate
  have hp := wellFormed_placedAt hsizes hi
  have hcurrentHop : (p.placedAt i).header.currentHop.toNat = i := currentHop_placedAt hsizes hi
  have hcurrentInfo : (p.placedAt i).header.currentInfo.toNat = s :=
    currentInfo_placedAt hsizes hlocate
  have hinfo : p.info? s = some segment.info := by
    rw [info?, hs]
    rfl
  have hhop : p.hop? i = some hop := by
    rw [hop?_of_locate hlocate hs, hk]
  have hspan : p.lengths.segmentSpan s = Runs.span p.sizes s :=
    (describes_of_validSizes hsizes).segmentSpan_eq s
  have hheader : (p.placedAt i).records.header = .ok (p.placedAt i).header := hp.checkedHeader_eq
  have hlengths : (p.placedAt i).header.lengths = p.lengths := rfl
  have hinfo? : (p.placedAt i).records.info? = p.info? := rfl
  have hhop? : (p.placedAt i).records.hop? = p.hop? := rfl
  simp only [CurrentHop.locate, hheader, hcurrentHop, hcurrentInfo, hlengths, hinfo?, hhop?, hinfo,
    hhop, hspan]
  rw [chain_eq_chainBefore hlocate hs, bordersJunction_eq_junctionAt hsizes hlocate]

/-- Every well-formed path has a current hop, in the segment that its position names. -/
theorem WellFormed.exists_current (h : p.WellFormed) :
    ∃ current, CurrentHop.locate p.records = .ok current ∧
      current.index = p.currentHop.toNat ∧ current.segment = p.currentInfo.toNat ∧
      p.info? p.currentInfo.toNat = some current.info ∧ p.currentHop? = some current.hop := by
  obtain ⟨k, hlocate⟩ := h.position
  obtain ⟨segment, hop, hs, hk⟩ := exists_segment_of_locate hlocate
  have hcurrent := locate_placedAt h.sizes hlocate hs hk
  rw [h.placedAt_currentHop] at hcurrent
  refine ⟨_, hcurrent, rfl, rfl, ?_, ?_⟩
  · rw [info?, hs]
    rfl
  · rw [currentHop?, hop?_of_locate hlocate hs, hk]

end Path

end SourceRoute

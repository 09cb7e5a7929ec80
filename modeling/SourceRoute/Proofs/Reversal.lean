import SourceRoute.Proofs.CurrentLaws

/-!
# Turning a path round

The segments of the path the other way round are the turned segments in the opposite order, so hop
`i` of `n` becomes hop `n - 1 - i`.  Each segment flips its direction of construction while its hops
and interfaces change places, so what comes before in construction order stays the same, and with it
everything that authentication codes are computed over.
-/

namespace SourceRoute

/-- Place `i` of `n` of a list becomes place `n - 1 - i` of the list of turned items. -/
theorem getElem?_map_reverse {α β : Type} (f : α → β) {l : List α} {i : Nat} (hi : i < l.length) :
    (l.reverse.map f)[l.length - 1 - i]? = l[i]?.map f := by
  have hindex : l.length - 1 - (l.length - 1 - i) = i := by omega
  rw [List.getElem?_map, List.getElem?_reverse (by omega), hindex]

/-! ## Flags -/

namespace InfoFlags

private theorem bits_and_one (x : BitVec 8) : decide (x &&& 1#8 ≠ 0#8) = x.getLsbD 0 := by
  revert x
  decide +kernel

private theorem bits_and_two (x : BitVec 8) : decide (x &&& 2#8 ≠ 0#8) = x.getLsbD 1 := by
  revert x
  decide +kernel

theorem consDir_eq_getLsbD (f : InfoFlags) : f.consDir = f.bits.toBitVec.getLsbD 0 := by
  -- the flag is tested with a mask, and a mask of one bit reads that bit
  rw [← bits_and_one, consDir]
  apply decide_eq_decide.mpr
  rw [Ne, ← UInt8.toBitVec_inj]
  rfl

theorem peering_eq_getLsbD (f : InfoFlags) : f.peering = f.bits.toBitVec.getLsbD 1 := by
  rw [← bits_and_two, peering]
  apply decide_eq_decide.mpr
  rw [Ne, ← UInt8.toBitVec_inj]
  rfl

@[simp] theorem consDir_flipConsDir (f : InfoFlags) : f.flipConsDir.consDir = !f.consDir := by
  rw [consDir_eq_getLsbD, consDir_eq_getLsbD, flipConsDir, UInt8.toBitVec_xor, BitVec.getLsbD_xor]
  simp [consDirBit]

@[simp] theorem peering_flipConsDir (f : InfoFlags) : f.flipConsDir.peering = f.peering := by
  rw [peering_eq_getLsbD, peering_eq_getLsbD, flipConsDir, UInt8.toBitVec_xor, BitVec.getLsbD_xor]
  simp [consDirBit]

end InfoFlags

/-! ## Segments -/

namespace Segment

variable {s : Segment} {k : Nat}

@[simp] theorem size_reversed (s : Segment) : s.reversed.size = s.size := by
  simp [size, reversed]

theorem getElem?_hops_reversed (hk : k < s.size) :
    s.reversed.hops[s.size - 1 - k]? = s.hops[k]?.map HopField.reversed :=
  getElem?_map_reverse HopField.reversed hk

/-- A hop is chained to the same code in both directions of the visit. -/
theorem chainBefore_reversed (hk : k < s.size) :
    s.reversed.chainBefore (s.size - 1 - k) = s.chainBefore k := by
  have hlength : s.reversed.hops.length = s.size := s.size_reversed
  have hmac (o : Option HopField) : (o.map HopField.reversed).map HopField.mac =
      o.map HopField.mac := by
    cases o <;> rfl
  have hdir : s.reversed.info.flags.consDir = !s.info.flags.consDir :=
    InfoFlags.consDir_flipConsDir _
  rw [chainBefore, chainBefore, hdir]
  cases s.info.flags.consDir with
  | true =>
    -- what came before in the visit now comes behind
    by_cases hfirst : 0 < k
    · have hindex : s.size - 1 - k + 1 = s.size - 1 - (k - 1) := by omega
      simp only [Bool.not_true, Bool.false_eq_true, if_false, if_true, if_pos hfirst, hindex,
        getElem?_hops_reversed (s := s) (k := k - 1) (by omega), hmac]
    · have hnone : s.reversed.hops[s.size - 1 - k + 1]? = none :=
        List.getElem?_eq_none (by omega)
      simp only [Bool.not_true, Bool.false_eq_true, if_false, if_true, if_neg hfirst, hnone]
  | false =>
    by_cases hlast : k + 1 < s.size
    · have hindex : s.size - 1 - k - 1 = s.size - 1 - (k + 1) := by omega
      have hpos : 0 < s.size - 1 - k := by omega
      simp only [Bool.not_false, Bool.false_eq_true, if_false, if_true, if_pos hpos, hindex,
        getElem?_hops_reversed hlast, hmac]
    · have hzero : ¬ 0 < s.size - 1 - k := by omega
      have hnone : s.hops[k + 1]? = none := List.getElem?_eq_none (Nat.le_of_not_lt hlast)
      simp only [Bool.not_false, Bool.false_eq_true, if_false, if_true, if_neg hzero, hnone]

end Segment

/-! ## Authenticated blocks -/

/-- Turning a hop and its segment round leaves the authenticated block as it is. -/
theorem AuthBlock.ofHop_reversed (info : InfoField) (hop : HopField) (chain : Mac)
    (seed : Option PeeringSeed) :
    ofHop info.reversed hop.reversed chain seed = ofHop info hop chain seed := by
  have hdir : info.reversed.flags.consDir = !info.flags.consDir :=
    InfoFlags.consDir_flipConsDir _
  simp only [ofHop, hdir]
  cases info.flags.consDir <;> rfl

/-! ## Paths -/

namespace Path

variable {p : Path} {i s k : Nat}

@[simp] theorem sizes_reversed (p : Path) : p.reversed.sizes = p.sizes.reverse := by
  have hsize : Segment.size ∘ Segment.reversed = Segment.size := by
    funext s
    exact s.size_reversed
  rw [sizes, reversed, List.map_map, hsize, List.map_reverse]
  rfl

@[simp] theorem hopCount_reversed (p : Path) : p.reversed.hopCount = p.hopCount := by
  rw [hopCount, sizes_reversed, Runs.total_reverse]
  rfl

@[simp] theorem length_segments_reversed (p : Path) :
    p.reversed.segments.length = p.segments.length := by
  simp [reversed]

theorem getElem?_segments_reversed (hs : s < p.segments.length) :
    p.reversed.segments[p.segments.length - 1 - s]? = p.segments[s]?.map Segment.reversed :=
  getElem?_map_reverse Segment.reversed hs

/-- The path the other way round is well formed at its first hop. -/
theorem wellFormed_reversed (hsizes : ValidSizes p.sizes) : p.reversed.WellFormed where
  sizes := by
    rw [sizes_reversed]
    exact hsizes.reverse
  position := by
    rw [sizes_reversed]
    exact ⟨0, Runs.locate_zero hsizes.reverse.ne_nil hsizes.reverse.pos⟩

/-- Hop `i` of `n` becomes hop `n - 1 - i`. -/
theorem locate?_reversed (hlocate : p.locate? i = some (s, k)) :
    p.reversed.locate? (p.hopCount - 1 - i) =
      some (p.segments.length - 1 - s, p.sizes.getD s 0 - 1 - k) := by
  rw [locate?, sizes_reversed, hopCount, ← length_sizes]
  exact Runs.locate_reverse hlocate

theorem hasPeering_reversed (hs : s < p.segments.length) :
    hasPeering p.reversed.info? (p.segments.length - 1 - s) = hasPeering p.info? s := by
  rw [hasPeering, hasPeering, info?, info?, getElem?_segments_reversed hs]
  cases p.segments[s]? with
  | none => rfl
  | some segment => exact InfoFlags.peering_flipConsDir _

/-- A hop is next to a peering junction in both directions of the visit or in none. -/
theorem junctionAt_reversed (hs : s < p.segments.length) (hk : k < p.sizes.getD s 0) :
    p.reversed.junctionAt (p.segments.length - 1 - s) (p.sizes.getD s 0 - 1 - k) =
      p.junctionAt s k := by
  have hsize : p.reversed.sizes.getD (p.segments.length - 1 - s) 0 = p.sizes.getD s 0 := by
    have hs' : s < p.sizes.length := by rwa [length_sizes]
    have hindex : p.sizes.length - 1 - (p.segments.length - 1 - s) = s := by
      rw [length_sizes]
      omega
    rw [sizes_reversed, List.getD_eq_getElem?_getD, List.getElem?_reverse (by rw [length_sizes]; omega),
      hindex, List.getD_eq_getElem?_getD]
  have hafter : (p.sizes.getD s 0 - 1 - k + 1 = p.sizes.getD s 0) = (k = 0) := by
    rw [eq_iff_iff]
    omega
  have hbefore : (p.sizes.getD s 0 - 1 - k = 0) = (k + 1 = p.sizes.getD s 0) := by
    rw [eq_iff_iff]
    omega
  -- the neighbours of the segment change sides, and at the ends there are none
  have hsuccessor : hasPeering p.reversed.info? (p.segments.length - 1 - s + 1) =
      (decide (0 < s) && hasPeering p.info? (s - 1)) := by
    by_cases hfirst : 0 < s
    · have hindex : p.segments.length - 1 - s + 1 = p.segments.length - 1 - (s - 1) := by omega
      rw [hindex, hasPeering_reversed (by omega)]
      simp [hfirst]
    · rw [hasPeering_eq_false (by rw [length_segments_reversed]; omega)]
      simp [hfirst]
  have hpredecessor : (decide (0 < p.segments.length - 1 - s) &&
      hasPeering p.reversed.info? (p.segments.length - 1 - s - 1)) = hasPeering p.info? (s + 1) := by
    by_cases hlast : s + 1 < p.segments.length
    · have hindex : p.segments.length - 1 - s - 1 = p.segments.length - 1 - (s + 1) := by omega
      have hpos : 0 < p.segments.length - 1 - s := by omega
      rw [hindex, hasPeering_reversed hlast]
      simp [hpos]
    · have hzero : ¬ 0 < p.segments.length - 1 - s := by omega
      rw [hasPeering_eq_false (Nat.le_of_not_lt hlast)]
      simp [hzero]
  simp only [junctionAt, hsize, hafter, hbefore, hsuccessor, Bool.and_assoc, hpredecessor,
    hasPeering_reversed hs]
  rw [Bool.or_comm]

/-- What the current hop is once the path is turned round. -/
theorem locate_reversed_placedAt (hsizes : ValidSizes p.sizes) {segment : Segment} {hop : HopField}
    (hlocate : p.locate? i = some (s, k)) (hs : p.segments[s]? = some segment)
    (hk : segment.hops[k]? = some hop) :
    CurrentHop.locate (p.reversed.placedAt (p.hopCount - 1 - i)).records = .ok
      { index := p.hopCount - 1 - i
        segment := p.segments.length - 1 - s
        info := segment.info.reversed
        hop := hop.reversed
        chain := segment.chainBefore k
        atJunction := p.junctionAt s k } := by
  have hsLength : s < p.segments.length := by
    rw [← length_sizes]
    exact Runs.lt_length_of_locate hlocate
  have hkSize := lt_size_of_locate hlocate hs
  have hsize := getD_sizes hs
  -- the turned segment and hop, at the mirrored places
  have hs' : p.reversed.segments[p.segments.length - 1 - s]? = some segment.reversed := by
    rw [getElem?_segments_reversed hsLength, hs]
    rfl
  have hk' : segment.reversed.hops[p.sizes.getD s 0 - 1 - k]? = some hop.reversed := by
    rw [hsize, Segment.getElem?_hops_reversed hkSize, hk]
    rfl
  have hlocate' := locate?_reversed hlocate
  have hsizes' : ValidSizes p.reversed.sizes := (wellFormed_reversed hsizes).sizes
  rw [locate_placedAt hsizes' hlocate' hs' hk', junctionAt_reversed hsLength (by rwa [hsize]), hsize,
    Segment.chainBefore_reversed hkSize]
  rfl

/-! ## Authentication -/

theorem verify_placedAt_reversed (hsizes : ValidSizes p.sizes) (hi : i < p.hopCount)
    (key : ForwardingKey) (seed : Option PeeringSeed) :
    (p.reversed.placedAt (p.hopCount - 1 - i)).records.verify key seed =
      (p.placedAt i).records.verify key seed := by
  obtain ⟨s, k, hlocate⟩ := Runs.exists_locate hi
  obtain ⟨segment, hop, hs, hk⟩ := exists_segment_of_locate hlocate
  have hcurrent := locate_placedAt hsizes hlocate hs hk
  have hturned := locate_reversed_placedAt hsizes hlocate hs hk
  rw [RecordSource.verify_of_locate hcurrent, RecordSource.verify_of_locate hturned,
    CurrentHop.verify, CurrentHop.verify, CurrentHop.authBlock, CurrentHop.authBlock,
    AuthBlock.ofHop_reversed]
  rfl

/-- Authentication codes survive the turn: hop `i` of `n` carries the right code exactly if hop
`n - 1 - i` of the path the other way round does, and both codes are computed over the same
block. -/
theorem verify_reversed {p : Path} (hwire : p.structureFault? = none) {i : Nat}
    (hi : i < p.hopCount) :
    (∀ key seed, (p.reversed.placedAt (p.hopCount - 1 - i)).records.verify key seed =
      (p.placedAt i).records.verify key seed) ∧
    ∃ current turned, CurrentHop.locate (p.placedAt i).records = .ok current ∧
      CurrentHop.locate (p.reversed.placedAt (p.hopCount - 1 - i)).records = .ok turned ∧
      current.index = i ∧ turned.index = p.hopCount - 1 - i ∧
      turned.chain = current.chain ∧ turned.atJunction = current.atJunction ∧
      ∀ seed, (turned.authBlock seed).bytes = (current.authBlock seed).bytes := by
  have hsizes := (structureFault?_eq_none_iff.mp hwire).sizes
  obtain ⟨s, k, hlocate⟩ := Runs.exists_locate hi
  obtain ⟨segment, hop, hs, hk⟩ := exists_segment_of_locate hlocate
  have hcurrent := locate_placedAt hsizes hlocate hs hk
  have hturned := locate_reversed_placedAt hsizes hlocate hs hk
  refine ⟨verify_placedAt_reversed hsizes hi, _, _, hcurrent, hturned, rfl, rfl, rfl, rfl, ?_⟩
  intro seed
  rw [CurrentHop.authBlock, CurrentHop.authBlock, AuthBlock.ofHop_reversed]

/-- The last hop before a peering junction becomes the first one behind it. -/
theorem verify_reversed_of_peering :
    let hop : HopField := ⟨HopFlags.none, 63, 4, 5, Mac.zero⟩
    let segment : Segment := ⟨⟨⟨3⟩, 7, 1000⟩, [hop, hop]⟩
    let p : Path := ⟨0, 0, [segment, segment]⟩
    p.structureFault? = none ∧ 1 < p.hopCount ∧
      ∀ key seed, (p.reversed.placedAt 2).records.verify key seed =
        (p.placedAt 1).records.verify key seed := by
  intro hop segment p
  have hwire : p.structureFault? = none := by decide
  have hi : 1 < p.hopCount := by decide
  exact ⟨hwire, hi, (verify_reversed hwire hi).1⟩

end Path

end SourceRoute

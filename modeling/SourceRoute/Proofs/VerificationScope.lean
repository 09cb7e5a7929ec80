import SourceRoute.Proofs.CurrentLaws
import SourceRoute.Proofs.ViewSimulation

/-!
# What a verification depends on

Verifying the current hop of a path reads the hop, the code of the hop before it in construction
order, parts of the info field of its segment, and the peering flags of the segments beside that
one.  Nothing else in the path can change the answer, and the code that the hop carries is what the
answer is about: one code is right, and every other one is wrong.
-/

namespace SourceRoute

namespace Segment

/-- The hop before hop `k` in construction order, which is in the same segment. -/
def hopBefore? (s : Segment) (k : Nat) : Option HopField :=
  if s.info.flags.consDir then if 0 < k then s.hops[k - 1]? else none
  else s.hops[k + 1]?

theorem chainBefore_eq (s : Segment) (k : Nat) :
    s.chainBefore k = ((s.hopBefore? k).map HopField.mac).getD Mac.zero := rfl

/-- The segment with one of its hops changed. -/
def modifyHop (s : Segment) (k : Nat) (f : HopField → HopField) : Segment :=
  { s with hops := s.hops.modify k f }

/-- No hop is chained to itself. -/
theorem hopBefore?_modifyHop (s : Segment) (k : Nat) (f : HopField → HopField) :
    (s.modifyHop k f).hopBefore? k = s.hopBefore? k := by
  have hinfo : (s.modifyHop k f).info = s.info := rfl
  have hother {j : Nat} (hj : k ≠ j) : (s.modifyHop k f).hops[j]? = s.hops[j]? :=
    List.getElem?_modify_ne _ _ hj
  rw [hopBefore?, hopBefore?, hinfo]
  -- either neighbour is another hop
  split
  · split
    · exact hother (by omega)
    · rfl
  · exact hother (by omega)

end Segment

/-- The code of a hop does not depend on the code that the hop carries, nor on the flags that only
say how the hop is handled. -/
theorem ForwardingKey.hopMac_congr (key : ForwardingKey) {info info' : InfoField}
    {hop hop' : HopField} (hsegmentId : info.segmentId = info'.segmentId)
    (htimestamp : info.timestamp = info'.timestamp)
    (hconsDir : info.flags.consDir = info'.flags.consDir) (hexpTime : hop.expTime = hop'.expTime)
    (hingress : hop.ingress = hop'.ingress) (hegress : hop.egress = hop'.egress) (chain : Mac)
    (seed : Option PeeringSeed) :
    key.hopMac info hop chain seed = key.hopMac info' hop' chain seed := by
  have hblock : AuthBlock.ofHop info hop chain seed = AuthBlock.ofHop info' hop' chain seed := by
    simp only [AuthBlock.ofHop, hsegmentId, htimestamp, hconsDir, hexpTime, hingress, hegress]
  rw [hopMac, hopMac, hblock]

namespace Path

/-- The code of the hop before the current hop in construction order, if there is one. -/
def codeBeforeCurrent? (p : Path) : Option Mac :=
  (p.locate? p.currentHop.toNat).bind fun (s, k) =>
    p.segments[s]?.bind fun segment => (segment.hopBefore? k).map HopField.mac

/-- The paths have the same segment sizes and the same position, and there they agree in all that
a verification is to depend on. -/
structure AgreesAtCurrent (p q : Path) : Prop where
  sizes : p.sizes = q.sizes
  currentInfo : p.currentInfo = q.currentInfo
  currentHop : p.currentHop = q.currentHop
  info : (p.info? p.currentInfo.toNat).map (fun info =>
      (info.segmentId, info.timestamp, info.flags.consDir, info.flags.peering)) =
    (q.info? q.currentInfo.toNat).map fun info =>
      (info.segmentId, info.timestamp, info.flags.consDir, info.flags.peering)
  hop : p.currentHop?.map (fun hop => (hop.expTime, hop.ingress, hop.egress, hop.mac)) =
    q.currentHop?.map fun hop => (hop.expTime, hop.ingress, hop.egress, hop.mac)
  codeBefore : p.codeBeforeCurrent? = q.codeBeforeCurrent?
  beside : ∀ s, s + 1 = p.currentInfo.toNat ∨ s = p.currentInfo.toNat + 1 →
    (p.info? s).map (fun info => info.flags.peering) =
      (q.info? s).map fun info => info.flags.peering

/-- The path with another code in its current hop. -/
def withCurrentMac (p : Path) (mac : Mac) : Path :=
  p.modifyHop p.currentHop.toNat fun hop => { hop with mac }

/-! ## Verifying a well-formed path -/

/-- The current hop of a path, with its segment and its place there. -/
structure CurrentAt (p : Path) (s k : Nat) (segment : Segment) (hop : HopField) : Prop where
  locate : p.locate? p.currentHop.toNat = some (s, k)
  currentInfo : p.currentInfo.toNat = s
  getElem?_segments : p.segments[s]? = some segment
  getElem?_hops : segment.hops[k]? = some hop

section

variable {p q : Path} {s k : Nat} {segment : Segment} {hop : HopField}

theorem WellFormed.exists_currentAt (h : p.WellFormed) :
    ∃ s k segment hop, p.CurrentAt s k segment hop := by
  obtain ⟨k, hlocate⟩ := h.position
  obtain ⟨segment, hop, hs, hk⟩ := exists_segment_of_locate hlocate
  exact ⟨_, k, segment, hop, hlocate, rfl, hs, hk⟩

namespace CurrentAt

theorem info?_eq (h : p.CurrentAt s k segment hop) : p.info? s = some segment.info := by
  rw [info?, h.getElem?_segments]
  rfl

theorem currentHop?_eq (h : p.CurrentAt s k segment hop) : p.currentHop? = some hop := by
  rw [currentHop?, hop?_of_locate h.locate h.getElem?_segments, h.getElem?_hops]

theorem codeBeforeCurrent?_eq (h : p.CurrentAt s k segment hop) :
    p.codeBeforeCurrent? = (segment.hopBefore? k).map HopField.mac := by
  simp only [codeBeforeCurrent?, h.locate, Option.bind_some, h.getElem?_segments]

/-- The current hop is verified against one code, which the path determines together with the key
and, next to a peering junction, the seed. -/
theorem verify_eq (h : p.CurrentAt s k segment hop) (hp : p.WellFormed) (key : ForwardingKey)
    (seed : Option PeeringSeed) : p.records.verify key seed =
      decide (key.hopMac segment.info hop (segment.chainBefore k)
        (if p.junctionAt s k then seed else none) = hop.mac) := by
  have hcurrent := locate_placedAt hp.sizes h.locate h.getElem?_segments h.getElem?_hops
  rw [hp.placedAt_currentHop] at hcurrent
  exact RecordSource.verify_of_locate hcurrent key seed

end CurrentAt

/-! ## Paths that agree at the current hop -/

theorem hasPeering_congr {info? info?' : Nat → Option InfoField} {s : Nat}
    (h : (info? s).map (fun info => info.flags.peering) =
      (info?' s).map fun info => info.flags.peering) : hasPeering info? s = hasPeering info?' s := by
  have hany (f : Nat → Option InfoField) :
      hasPeering f s = ((f s).map fun info => info.flags.peering).any id := by
    rw [hasPeering, Option.any_map]
    rfl
  rw [hany, hany, h]

/-- Junctions are found from the sizes and the peering flags of a segment and of those beside it. -/
theorem junctionAt_congr (hsizes : p.sizes = q.sizes)
    (hpeering : ∀ t, t + 1 = s ∨ t = s ∨ t = s + 1 → hasPeering p.info? t = hasPeering q.info? t) :
    p.junctionAt s k = q.junctionAt s k := by
  have hat := hpeering s (by omega)
  have hafter := hpeering (s + 1) (by omega)
  -- the first segment has none before it
  rcases Nat.eq_zero_or_pos s with rfl | hs
  · simp [junctionAt, hsizes, hat, hafter]
  · have hbefore := hpeering (s - 1) (by omega)
    simp only [junctionAt, hsizes, hat, hafter, hbefore]

namespace AgreesAtCurrent

theorem wellFormed (h : p.AgreesAtCurrent q) (hp : p.WellFormed) : q.WellFormed where
  sizes := h.sizes ▸ hp.sizes
  position := by
    rw [← h.sizes, ← h.currentHop, ← h.currentInfo]
    exact hp.position

theorem verify_eq (h : p.AgreesAtCurrent q) (hp : p.WellFormed) (key : ForwardingKey)
    (seed : Option PeeringSeed) : p.records.verify key seed = q.records.verify key seed := by
  have hq := h.wellFormed hp
  obtain ⟨s, k, segment, hop, hat⟩ := hp.exists_currentAt
  obtain ⟨s', k', segment', hop', hat'⟩ := hq.exists_currentAt
  -- the sizes and the position place both current hops alike
  have hplace : some (s, k) = some (s', k') := by
    rw [← hat.locate, ← hat'.locate, locate?, locate?, h.sizes, h.currentHop]
  obtain ⟨rfl, rfl⟩ := Prod.mk.inj (Option.some.inj hplace)
  -- what is read of the info field and of the hop is the same
  have hinfo := h.info
  rw [hat.currentInfo, hat'.currentInfo, hat.info?_eq, hat'.info?_eq] at hinfo
  simp only [Option.map_some, Option.some.injEq, Prod.mk.injEq] at hinfo
  obtain ⟨hsegmentId, htimestamp, hconsDir, hpeering⟩ := hinfo
  have hhop := h.hop
  rw [hat.currentHop?_eq, hat'.currentHop?_eq] at hhop
  simp only [Option.map_some, Option.some.injEq, Prod.mk.injEq] at hhop
  obtain ⟨hexpTime, hingress, hegress, hmac⟩ := hhop
  have hchain : segment.chainBefore k = segment'.chainBefore k := by
    rw [Segment.chainBefore_eq, Segment.chainBefore_eq, ← hat.codeBeforeCurrent?_eq,
      ← hat'.codeBeforeCurrent?_eq, h.codeBefore]
  -- a junction is told by the flags of the segment and of those beside it
  have hjunction : p.junctionAt s k = q.junctionAt s k := by
    refine junctionAt_congr h.sizes fun t ht => hasPeering_congr ?_
    by_cases hts : t = s
    · rw [hts, hat.info?_eq, hat'.info?_eq, Option.map_some, Option.map_some, hpeering]
    · exact h.beside t (by rw [hat.currentInfo]; omega)
  rw [hat.verify_eq hp, hat'.verify_eq hq, hchain, hjunction, hmac,
    key.hopMac_congr hsegmentId htimestamp hconsDir hexpTime hingress hegress]

end AgreesAtCurrent

/-! ## Changing the code of the current hop -/

@[simp] theorem sizes_withCurrentMac (p : Path) (mac : Mac) :
    (p.withCurrentMac mac).sizes = p.sizes :=
  sizes_modifyHop ..

@[simp] theorem currentInfo_withCurrentMac (p : Path) (mac : Mac) :
    (p.withCurrentMac mac).currentInfo = p.currentInfo :=
  (position_modifyHop ..).1

@[simp] theorem currentHop_withCurrentMac (p : Path) (mac : Mac) :
    (p.withCurrentMac mac).currentHop = p.currentHop :=
  (position_modifyHop ..).2

theorem wellFormed_withCurrentMac (hp : p.WellFormed) (mac : Mac) :
    (p.withCurrentMac mac).WellFormed where
  sizes := (p.sizes_withCurrentMac mac).symm ▸ hp.sizes
  position := by
    rw [sizes_withCurrentMac, currentInfo_withCurrentMac, currentHop_withCurrentMac]
    exact hp.position

/-- With another code, the current hop is the old one with that code. -/
theorem CurrentAt.withCurrentMac (h : p.CurrentAt s k segment hop) (mac : Mac) :
    (p.withCurrentMac mac).CurrentAt s k (segment.modifyHop k fun hop => { hop with mac })
      { hop with mac } := by
  have hsegments : (p.withCurrentMac mac).segments =
      p.segments.modify s fun segment => segment.modifyHop k fun hop => { hop with mac := mac } := by
    rw [Path.withCurrentMac, modifyHop, h.locate]
    rfl
  refine ⟨?_, ?_, ?_, ?_⟩
  · rw [locate?, sizes_withCurrentMac, currentHop_withCurrentMac]
    exact h.locate
  · rw [currentInfo_withCurrentMac]
    exact h.currentInfo
  · rw [hsegments, List.getElem?_modify_eq, h.getElem?_segments]
    rfl
  · rw [Segment.modifyHop, List.getElem?_modify_eq, h.getElem?_hops]
    rfl

theorem junctionAt_withCurrentMac (p : Path) (mac : Mac) (s k : Nat) :
    (p.withCurrentMac mac).junctionAt s k = p.junctionAt s k := by
  refine junctionAt_congr (sizes_withCurrentMac ..) fun t _ => ?_
  have hinfo : (p.withCurrentMac mac).info? = p.info? := by
    funext t
    rw [info?_eq_getElem?, info?_eq_getElem?, withCurrentMac, infos_modifyHop]
  rw [hinfo]

/-- Whatever code is put into the current hop, it is compared with the same one. -/
theorem CurrentAt.verify_withCurrentMac (h : p.CurrentAt s k segment hop) (hp : p.WellFormed)
    (mac : Mac) (key : ForwardingKey) (seed : Option PeeringSeed) :
    (p.withCurrentMac mac).records.verify key seed =
      decide (key.hopMac segment.info hop (segment.chainBefore k)
        (if p.junctionAt s k then seed else none) = mac) := by
  have hchain : (segment.modifyHop k fun hop => { hop with mac }).chainBefore k =
      segment.chainBefore k := by
    rw [Segment.chainBefore_eq, Segment.hopBefore?_modifyHop, Segment.chainBefore_eq]
  rw [(h.withCurrentMac mac).verify_eq (wellFormed_withCurrentMac hp mac), hchain,
    junctionAt_withCurrentMac]
  rfl

end

/-- The answer of a verification depends on the current hop and on what it is authenticated with,
and on nothing else in the path; without a peering junction beside the current hop it does not
depend on the seed; and it is positive for exactly one code in the current hop. -/
theorem verify_scope {p : Path} (hwire : p.structureFault? = none) :
    (∀ q, p.AgreesAtCurrent q → ∀ key seed,
        p.records.verify key seed = q.records.verify key seed) ∧
      (∀ s k, p.locate? p.currentHop.toNat = some (s, k) → p.junctionAt s k = false →
        ∀ key seed seed', p.records.verify key seed = p.records.verify key seed') ∧
      ∀ key seed, ∃! mac, (p.withCurrentMac mac).records.verify key seed = true := by
  have hp := structureFault?_eq_none_iff.mp hwire
  obtain ⟨s, k, segment, hop, hat⟩ := hp.exists_currentAt
  refine ⟨fun q hagrees key seed => hagrees.verify_eq hp key seed, ?_, ?_⟩
  · intro s' k' hlocate hjunction key seed seed'
    rw [hat.locate] at hlocate
    obtain ⟨rfl, rfl⟩ := Prod.mk.inj (Option.some.inj hlocate)
    rw [hat.verify_eq hp, hat.verify_eq hp, hjunction]
    rfl
  · intro key seed
    -- one code is computed, and the right codes are those equal to it
    simp only [hat.verify_withCurrentMac hp, decide_eq_true_eq]
    exact existsUnique_eq'

/-- The case of two paths at the second hop of their first segment.  They differ in the lifetime of
the hop before, in flags that no verification looks at, and in the next segment but for its peering
flag. -/
theorem verify_scope_of_other_records :
    let hop (flags : UInt8) (expTime : UInt8) : HopField := ⟨⟨flags⟩, expTime, 4, 5, Mac.zero⟩
    let p : Path := ⟨0, 1, [⟨⟨⟨1⟩, 7, 1000⟩, [hop 0 63, hop 0 63]⟩, ⟨⟨⟨2⟩, 8, 2000⟩, [hop 0 63]⟩]⟩
    let q : Path := ⟨0, 1, [⟨⟨⟨0x81⟩, 7, 1000⟩, [hop 0 9, hop 3 63]⟩, ⟨⟨⟨3⟩, 9, 3000⟩, [hop 1 8]⟩]⟩
    p.structureFault? = none ∧ p ≠ q ∧ p.AgreesAtCurrent q ∧
      (∀ key seed, p.records.verify key seed = q.records.verify key seed) ∧
      (∀ key seed seed', p.records.verify key seed = p.records.verify key seed') ∧
      ∀ key seed, ∃! mac, (p.withCurrentMac mac).records.verify key seed = true := by
  intro hop p q
  have hwire : p.structureFault? = none := by decide
  have hagrees : p.AgreesAtCurrent q :=
    { sizes := rfl
      currentInfo := rfl
      currentHop := rfl
      info := by decide
      hop := by decide
      codeBefore := by decide
      beside := by
        intro s hs
        obtain rfl : s = 1 := by
          have hcurrent : p.currentInfo.toNat = 0 := rfl
          omega
        decide }
  obtain ⟨hsame, hseed, hunique⟩ := verify_scope hwire
  exact ⟨hwire, by decide, hagrees, hsame q hagrees, hseed 0 1 (by decide) (by decide), hunique⟩

end Path

end SourceRoute

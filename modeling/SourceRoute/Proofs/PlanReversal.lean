import SourceRoute.Proofs.BuildExact
import SourceRoute.Proofs.Reversal

/-!
# Building the mirrored plan

The mirrored plan describes the same hops from the other end: segments, hops and keys in the
opposite order, each segment visited the other way, and the two seeds exchanged.  Each code is
computed over the same block in both plans, so the path that is built is the one of the plan turned
round.  The one exception is a hop that makes up a segment of its own between two peering junctions.
It is next to both of them but takes one seed only, the one of the junction behind it in the visit,
and that is the other junction once the plan is mirrored.
-/

namespace SourceRoute

/-! ## Mirrored plans -/

/-- The description of the hop crossed the other way. -/
def HopOutline.reversed (h : HopOutline) : HopOutline :=
  { h with flags := h.flags.swapAlerts, ingress := h.egress, egress := h.ingress }

/-- The description of the segment visited the other way. -/
def SegmentOutline.reversed (s : SegmentOutline) : SegmentOutline :=
  { s with flags := s.flags.flipConsDir, hops := s.hops.reverse.map HopOutline.reversed }

/-- The seeds of the junction seen from the other side. -/
def PeeringSeeds.exchanged (s : PeeringSeeds) : PeeringSeeds := ⟨s.after, s.before⟩

/-- The outer seeds of the segment visited the other way. -/
def OuterSeeds.exchanged (s : OuterSeeds) : OuterSeeds := ⟨s.last, s.first⟩

/-- The plan of the path the other way round, at its first hop. -/
def PathPlan.reversed (P : PathPlan) : PathPlan where
  segments := P.segments.reverse.map SegmentOutline.reversed
  keys := P.keys.reverse.map List.reverse
  seeds := P.seeds.map PeeringSeeds.exchanged
  currentInfo := 0
  currentHop := 0

theorem SegmentOutline.toSegment_reversed (s : SegmentOutline) :
    s.reversed.toSegment = s.toSegment.reversed := by
  unfold toSegment reversed Segment.reversed
  simp only [← List.map_reverse, List.map_map]
  rfl

@[simp] theorem SegmentOutline.size_reversed (s : SegmentOutline) : s.reversed.size = s.size := by
  simp [size, reversed]

/-! ## Signing a turned segment -/

/-- A slot of a segment of `n` hops, visited the other way. -/
def ChainSlot.reversed (n : Nat) (slot : ChainSlot) : ChainSlot :=
  { slot with index := n - 1 - slot.index, hop := slot.hop.reversed }

/-- The turned slots get the codes of the slots. -/
theorem ChainSlot.sign_reversed (info : InfoField) (n : Nat) (chain : Mac)
    (slots : List ChainSlot) :
    sign info.reversed chain (slots.map (ChainSlot.reversed n)) =
      (sign info chain slots).map HopField.reversed := by
  induction slots generalizing chain with
  | nil => rfl
  | cons slot slots ih =>
    have hcode : (slot.reversed n).expected info.reversed chain = slot.expected info chain := by
      unfold expected ForwardingKey.hopMac
      exact congrArg (fun block => slot.key.authenticate block.bytes)
        (AuthBlock.ofHop_reversed info slot.hop chain slot.seed)
    rw [List.map_cons, sign, hcode, ih]
    rfl

namespace Segment

variable {s : Segment} {keys : List ForwardingKey} {seeds turned : OuterSeeds} {k : Nat}

theorem orient_not {α : Type} (consDir : Bool) (l : List α) :
    orient (!consDir) l = (orient consDir l).reverse := by
  cases consDir with
  | true => rfl
  | false => exact (List.reverse_reverse l).symm

theorem orient_not_reverse {α : Type} (consDir : Bool) (l : List α) :
    orient (!consDir) l.reverse = orient consDir l := by
  cases consDir with
  | true => exact List.reverse_reverse l
  | false => rfl

/-- The slots of the turned segment are the turned slots, if each hop keeps its seed. -/
theorem slots_reversed (hkeys : keys.length = s.size)
    (hseeds : ∀ k < s.size, turned.seedAt (s.size - 1 - k) s.size = seeds.seedAt k s.size) :
    s.reversed.slots keys.reverse turned =
      ((s.slots keys seeds).map (ChainSlot.reversed s.size)).reverse := by
  have hlength := length_slots hkeys seeds
  have hlength' : (s.reversed.slots keys.reverse turned).length = s.size := by
    rw [length_slots (by simpa using hkeys), size_reversed]
  apply List.ext_getElem?
  intro i
  rcases Nat.lt_or_ge i s.size with hi | hi
  · have hk : s.size - 1 - i < s.size := by omega
    have hback : s.size - 1 - (s.size - 1 - i) = i := by omega
    have hhop := List.getElem?_eq_getElem (l := s.hops) hk
    have hkey := List.getElem?_eq_getElem (l := keys) (i := s.size - 1 - i) (by rwa [hkeys])
    -- slot `i` of the turned segment has the hop and the key of slot `n - 1 - i`
    have hhop' : s.reversed.hops[i]? = some (s.hops[s.size - 1 - i].reversed) := by
      have hread := getElem?_hops_reversed hk
      rw [hback, hhop] at hread
      exact hread
    have hkey' : keys.reverse[i]? = some keys[s.size - 1 - i] := by
      have hindex : keys.length - 1 - i = s.size - 1 - i := by rw [hkeys]
      rw [List.getElem?_reverse (by omega), hindex, hkey]
    have hseed := hseeds _ hk
    rw [hback] at hseed
    rw [getElem?_slots hhop' hkey', List.getElem?_reverse (by simp [hlength, hi]), List.length_map,
      hlength, List.getElem?_map, getElem?_slots hhop hkey, size_reversed, hseed]
    simp only [Option.map_some, ChainSlot.reversed, hback]
  · rw [List.getElem?_eq_none (by omega), List.getElem?_eq_none (by simp [hlength, hi])]

/-- Signing the turned segment is turning the signed one, if each hop keeps its seed. -/
theorem signed_reversed (hkeys : keys.length = s.size)
    (hseeds : ∀ k < s.size, turned.seedAt (s.size - 1 - k) s.size = seeds.seedAt k s.size) :
    s.reversed.signed keys.reverse turned = (s.signed keys seeds).reversed := by
  have hdir : s.reversed.info.flags.consDir = !s.info.flags.consDir :=
    InfoFlags.consDir_flipConsDir _
  have hsigned : (s.signed keys seeds).reversed.hops = (orient s.info.flags.consDir
      (ChainSlot.sign s.info Mac.zero
        (orient s.info.flags.consDir (s.slots keys seeds)))).reverse.map HopField.reversed := rfl
  have hturned : (s.reversed.signed keys.reverse turned).hops = orient s.reversed.info.flags.consDir
      (ChainSlot.sign s.info.reversed Mac.zero
        (orient s.reversed.info.flags.consDir (s.reversed.slots keys.reverse turned))) := rfl
  -- both directions of the visit have the same construction order
  have hhops : (s.reversed.signed keys.reverse turned).hops =
      (s.signed keys seeds).reversed.hops := by
    rw [hturned, hsigned, hdir, slots_reversed hkeys hseeds, orient_not_reverse, ← map_orient,
      ChainSlot.sign_reversed, orient_not, ← map_orient, List.map_reverse]
  exact congrArg (Segment.mk s.info.reversed) hhops

/-- A segment of a single hop that is offered both seeds takes the last one. -/
theorem signed_singleton {hop : HopField} {key : ForwardingKey} {seed : PeeringSeed}
    (hhops : s.hops = [hop]) (hlast : seeds.last = some seed) :
    s.signed [key] seeds =
      { s with hops := [{ hop with mac := key.hopMac s.info hop Mac.zero (some seed) }] } := by
  have hslots : s.slots [key] seeds = [⟨0, hop, key, some seed⟩] := by
    have hsize : s.size = 1 := congrArg List.length hhops
    have hseed : seeds.seedAt 0 1 = some seed := by
      unfold OuterSeeds.seedAt
      rw [hlast]
      rfl
    unfold slots
    rw [hhops, hsize]
    exact congrArg (fun taken => [ChainSlot.mk 0 hop key taken]) hseed
  have horient {α : Type} (a : α) : orient s.info.flags.consDir [a] = [a] := by
    cases s.info.flags.consDir <;> rfl
  unfold signed
  simp only [hslots, horient, ChainSlot.sign, ChainSlot.expected]

end Segment

/-! ## Seeds of a turned segment -/

/-- With the outer seeds exchanged each hop keeps its seed, unless it is both the first and the last
one and is offered two seeds. -/
theorem OuterSeeds.seedAt_exchanged {seeds : OuterSeeds} {n k : Nat} (hk : k < n)
    (hone : n = 1 → seeds.first = .none ∨ seeds.last = .none) :
    seeds.exchanged.seedAt (n - 1 - k) n = seeds.seedAt k n := by
  have hfirst : (n - 1 - k = 0) = (k + 1 = n) := by
    rw [eq_iff_iff]
    omega
  have hlast : (n - 1 - k + 1 = n) = (k = 0) := by
    rw [eq_iff_iff]
    omega
  obtain ⟨first, last⟩ := seeds
  unfold seedAt exchanged
  simp only [hfirst, hlast]
  by_cases hstart : k = 0
  · subst hstart
    by_cases hend : 1 = n
    -- the only hop of the segment is offered one seed at most
    · rcases hone hend.symm with hnone | hnone <;> cases first <;> cases last <;> simp_all
    · cases first <;> simp [hend]
  · cases last <;> simp [hstart]

namespace Segment

variable {s : Segment} {keys : List ForwardingKey} {seeds : OuterSeeds}

/-- A hop that makes up the whole segment gets the same code with either outer seed. -/
def SeedsAgree (s : Segment) (keys : List ForwardingKey) (seeds : OuterSeeds) : Prop :=
  ∀ hop key first last, s.hops = [hop] → keys = [key] → seeds.first = some first →
    seeds.last = some last →
      key.hopMac s.info hop Mac.zero (some first) = key.hopMac s.info hop Mac.zero (some last)

theorem signed_exchanged_iff (hkeys : keys.length = s.size) :
    s.reversed.signed keys.reverse seeds.exchanged = (s.signed keys seeds).reversed ↔
      s.SeedsAgree keys seeds := by
  by_cases hone : s.size = 1 → seeds.first = none ∨ seeds.last = none
  · apply iff_of_true
    · exact signed_reversed hkeys fun k hk => OuterSeeds.seedAt_exchanged hk hone
    · intro hop key first last hhops _ hfirst hlast
      rcases hone (congrArg List.length hhops) with hnone | hnone
      · exact absurd (hnone.symm.trans hfirst) (by simp)
      · exact absurd (hnone.symm.trans hlast) (by simp)
  -- the only hop takes the last seed, which is the first one of the turned segment
  · rw [Classical.not_imp, not_or, ← ne_eq, ← ne_eq, Option.ne_none_iff_exists',
      Option.ne_none_iff_exists'] at hone
    obtain ⟨hsize, ⟨first, hfirst⟩, last, hlast⟩ := hone
    obtain ⟨hop, hhops⟩ := List.length_eq_one_iff.mp hsize
    obtain ⟨key, rfl⟩ := List.length_eq_one_iff.mp (hkeys.trans hsize)
    have hturned : s.reversed.hops = [hop.reversed] := by
      unfold reversed
      rw [hhops]
      rfl
    have hcode : key.hopMac s.info.reversed hop.reversed Mac.zero (some first) =
        key.hopMac s.info hop Mac.zero (some first) := by
      unfold ForwardingKey.hopMac
      rw [AuthBlock.ofHop_reversed]
    have hleft : s.reversed.signed [key].reverse seeds.exchanged = { s.reversed with
        hops := [{ hop.reversed with mac := key.hopMac s.info hop Mac.zero (some first) }] } := by
      rw [← hcode]
      exact signed_singleton hturned hfirst
    have hright : (s.signed [key] seeds).reversed = { s.reversed with
        hops := [{ hop.reversed with mac := key.hopMac s.info hop Mac.zero (some last) }] } := by
      rw [signed_singleton hhops hlast]
      rfl
    rw [hleft, hright]
    constructor
    · intro heq hop' key' first' last' hhops' hkeys' hfirst' hlast'
      obtain rfl : hop = hop' := (List.cons.inj (hhops.symm.trans hhops')).1
      obtain rfl : key = key' := (List.cons.inj hkeys').1
      obtain rfl : first = first' := Option.some.inj (hfirst.symm.trans hfirst')
      obtain rfl : last = last' := Option.some.inj (hlast.symm.trans hlast')
      have hhop := (List.cons.inj (congrArg Segment.hops heq)).1
      exact congrArg HopField.mac hhop
    · intro hagree
      rw [hagree hop key first last hhops rfl hfirst hlast]

end Segment

namespace PathPlan

variable {P : PathPlan} {s : Nat}

/-! ## Reading a mirrored plan -/

theorem getElem?_segments_reversed (hs : s < P.segments.length) :
    P.reversed.segments[P.segments.length - 1 - s]? =
      P.segments[s]?.map SegmentOutline.reversed :=
  getElem?_map_reverse SegmentOutline.reversed hs

theorem getElem?_keys_reversed (hs : s < P.keys.length) :
    P.reversed.keys[P.keys.length - 1 - s]? = P.keys[s]?.map List.reverse :=
  getElem?_map_reverse List.reverse hs

@[simp] theorem length_segments_reversed (P : PathPlan) :
    P.reversed.segments.length = P.segments.length := by
  simp [reversed]

theorem sizes_reversed (P : PathPlan) : P.reversed.sizes = P.sizes.reverse := by
  unfold sizes reversed
  rw [List.map_map, List.map_reverse]
  congr 2
  funext outline
  exact outline.size_reversed

theorem junctionAfter_eq_false (hs : P.segments.length ≤ s + 1) : P.junctionAfter s = false := by
  rw [← Bool.not_eq_true, junctionAfter_iff]
  rintro ⟨before, after, -, hafter, -⟩
  exact absurd (List.getElem?_eq_some_iff.mp hafter).1 (Nat.not_lt.mpr hs)

/-- The junctions of a mirrored plan are those of the plan. -/
theorem junctionAfter_reversed (hs : s + 1 < P.segments.length) :
    P.reversed.junctionAfter (P.segments.length - 2 - s) = P.junctionAfter s := by
  have hbefore := getElem?_segments_reversed hs
  have hafter := getElem?_segments_reversed (Nat.lt_of_succ_lt hs)
  have hindex : P.segments.length - 1 - (s + 1) = P.segments.length - 2 - s := by omega
  have hindex' : P.segments.length - 1 - s = P.segments.length - 2 - s + 1 := by omega
  rw [hindex] at hbefore
  rw [hindex'] at hafter
  unfold junctionAfter
  rw [List.getD_eq_getElem?_getD, List.getD_eq_getElem?_getD, getElem?_junctions,
    getElem?_junctions, hbefore, hafter]
  cases P.segments[s]? with
  | none => cases P.segments[s + 1]? <;> rfl
  | some before =>
    cases P.segments[s + 1]? with
    | none => rfl
    | some after =>
      -- the flags say the same, and a junction needs those of both segments
      have hflags : (after.reversed.flags.peering && before.reversed.flags.peering) =
          (before.flags.peering && after.flags.peering) := by
        unfold SegmentOutline.reversed
        rw [InfoFlags.peering_flipConsDir, InfoFlags.peering_flipConsDir, Bool.and_comm]
      exact hflags

theorem junctionBefore_reversed (hs : s < P.segments.length) :
    P.reversed.junctionBefore (P.segments.length - 1 - s) = P.junctionAfter s := by
  unfold junctionBefore
  rcases Nat.lt_or_ge (s + 1) P.segments.length with hnext | hlast
  · have hpos : 0 < P.segments.length - 1 - s := by omega
    have hindex : P.segments.length - 1 - s - 1 = P.segments.length - 2 - s := by omega
    rw [hindex, junctionAfter_reversed hnext, decide_eq_true hpos, Bool.true_and]
  · have hzero : ¬0 < P.segments.length - 1 - s := by omega
    rw [decide_eq_false hzero, Bool.false_and, junctionAfter_eq_false hlast]

theorem junctionAfter_reversed_eq_junctionBefore (hs : s < P.segments.length) :
    P.reversed.junctionAfter (P.segments.length - 1 - s) = P.junctionBefore s := by
  unfold junctionBefore
  cases s with
  | zero =>
    rw [junctionAfter_eq_false (by rw [length_segments_reversed]; omega)]
    rfl
  | succ s =>
    have hindex : P.segments.length - 1 - (s + 1) = P.segments.length - 2 - s := by omega
    rw [hindex, junctionAfter_reversed hs]
    rfl

theorem outerSeeds_reversed (hs : s < P.segments.length) :
    P.reversed.outerSeeds (P.segments.length - 1 - s) = (P.outerSeeds s).exchanged := by
  have hbefore : P.reversed.seeds.map PeeringSeeds.before = P.seeds.map PeeringSeeds.after :=
    Option.map_map ..
  have hafter : P.reversed.seeds.map PeeringSeeds.after = P.seeds.map PeeringSeeds.before :=
    Option.map_map ..
  unfold outerSeeds OuterSeeds.exchanged
  rw [junctionBefore_reversed hs, junctionAfter_reversed_eq_junctionBefore hs, hbefore, hafter]

theorem PeersAfter.lt (h : P.PeersAfter s) : s + 1 < P.segments.length := by
  obtain ⟨before, after, -, hafter, -⟩ := h
  exact (List.getElem?_eq_some_iff.mp hafter).1

theorem exists_peersAfter_reversed :
    (∃ s, P.reversed.PeersAfter s) ↔ ∃ s, P.PeersAfter s := by
  constructor
  · rintro ⟨s, hpeers⟩
    have hs := hpeers.lt
    rw [length_segments_reversed] at hs
    have hindex : P.segments.length - 2 - (P.segments.length - 2 - s) = s := by omega
    have hsame := junctionAfter_reversed (P := P) (s := P.segments.length - 2 - s) (by omega)
    rw [hindex] at hsame
    refine ⟨P.segments.length - 2 - s, ?_⟩
    rw [← junctionAfter_iff] at hpeers ⊢
    exact hsame.symm.trans hpeers
  · rintro ⟨s, hpeers⟩
    refine ⟨P.segments.length - 2 - s, ?_⟩
    rw [← junctionAfter_iff, junctionAfter_reversed hpeers.lt, junctionAfter_iff]
    exact hpeers

/-! ## Building -/

/-- The mirrored plan of a plan without mistakes has none. -/
theorem Valid.reversed (h : P.Valid) : P.reversed.Valid where
  sizes := by
    rw [sizes_reversed]
    exact h.sizes.reverse
  groupCount := by
    rw [length_segments_reversed, ← h.groupCount]
    simp [PathPlan.reversed]
  keyCount := by
    intro s turned keys hturned hkeys
    have hs := (List.getElem?_eq_some_iff.mp hturned).1
    rw [length_segments_reversed] at hs
    have hindex : P.segments.length - 1 - (P.segments.length - 1 - s) = s := by omega
    have hs' : P.segments.length - 1 - s < P.segments.length := by omega
    obtain ⟨ks, hks, hcount⟩ := h.exists_keys (List.getElem?_eq_getElem hs')
    have hreadSegment := getElem?_segments_reversed hs'
    have hreadKeys := getElem?_keys_reversed (P := P) (s := P.segments.length - 1 - s)
      (by rwa [h.groupCount])
    rw [hindex, hturned, List.getElem?_eq_getElem hs'] at hreadSegment
    rw [h.groupCount, hindex, hkeys, hks] at hreadKeys
    obtain rfl := Option.some.inj hreadSegment
    obtain rfl := Option.some.inj hreadKeys
    rw [List.length_reverse, SegmentOutline.size_reversed, hcount]
  seeds := by
    rw [exists_peersAfter_reversed, ← h.seeds]
    show (P.seeds.map PeeringSeeds.exchanged).isSome = true ↔ _
    rw [Option.isSome_map]
  position := by
    rw [sizes_reversed]
    exact ⟨0, Runs.locate_zero h.sizes.reverse.ne_nil h.sizes.reverse.pos⟩

/-- A hop that makes up a segment of its own between two peering junctions, with the values of the
plan that its code depends on. -/
structure LoneHop (P : PathPlan) (s : Nat) (outline : SegmentOutline) (hop : HopOutline)
    (key : ForwardingKey) (seeds : PeeringSeeds) : Prop where
  segment : P.segments[s]? = some outline
  hops : outline.hops = [hop]
  keys : P.keys[s]? = some [key]
  seeds : P.seeds = some seeds
  pos : 0 < s
  before : P.PeersAfter (s - 1)
  after : P.PeersAfter s

/-- Whether the hop gets the same code with either seed. -/
def SeedsAgreeAt (P : PathPlan) (s : Nat) : Prop :=
  ∀ outline hop key seeds, P.LoneHop s outline hop key seeds →
    key.hopMac outline.info hop.toField Mac.zero (some seeds.before) =
      key.hopMac outline.info hop.toField Mac.zero (some seeds.after)

theorem seedsAgree_iff {outline : SegmentOutline} {keys : List ForwardingKey}
    (houtline : P.segments[s]? = some outline) (hkeys : P.keys[s]? = some keys) :
    outline.toSegment.SeedsAgree keys (P.outerSeeds s) ↔ P.SeedsAgreeAt s := by
  constructor
  · intro hagree outline' hop key seeds hlone
    obtain rfl : outline = outline' := Option.some.inj (houtline.symm.trans hlone.segment)
    obtain rfl : keys = [key] := Option.some.inj (hkeys.symm.trans hlone.keys)
    have hfirst : (P.outerSeeds s).first = some seeds.after := by
      rw [outerSeeds_eq, hlone.seeds]
      exact if_pos ⟨hlone.pos, hlone.before⟩
    have hlast : (P.outerSeeds s).last = some seeds.before := by
      rw [outerSeeds_eq, hlone.seeds]
      exact if_pos hlone.after
    have hhops : outline.toSegment.hops = [hop.toField] := by
      unfold SegmentOutline.toSegment
      rw [hlone.hops]
      rfl
    exact (hagree hop.toField key _ _ hhops rfl hfirst hlast).symm
  · intro hagree field key first last hhops hkeys' hfirst hlast
    obtain ⟨hop, hhop, rfl⟩ := List.map_eq_singleton_iff.mp hhops
    -- both outer seeds are there only between two junctions
    rw [outerSeeds_eq] at hfirst hlast
    obtain ⟨⟨hpos, hbefore⟩, hfirst⟩ := Option.ite_none_right_eq_some.mp hfirst
    obtain ⟨hafter, hlast⟩ := Option.ite_none_right_eq_some.mp hlast
    obtain ⟨seeds, hseeds, rfl⟩ := Option.map_eq_some_iff.mp hfirst
    rw [hseeds] at hlast
    obtain rfl := Option.some.inj hlast
    exact (hagree outline hop key seeds
      ⟨houtline, hhop, hkeys' ▸ hkeys, hseeds, hpos, hbefore, hafter⟩).symm

/-- A segment of the mirrored plan comes out as the turned segment unless its only hop would take
another code with the other seed. -/
theorem Valid.segments_reversed_path_iff (h : P.Valid) (hs : s < P.segments.length) :
    P.reversed.path.segments[P.segments.length - 1 - s]? =
      P.path.reversed.segments[P.segments.length - 1 - s]? ↔ P.SeedsAgreeAt s := by
  have houtline := List.getElem?_eq_getElem hs
  obtain ⟨keys, hkeys, hcount⟩ := h.exists_keys houtline
  have hcount' : keys.length = P.segments[s].toSegment.size := by rw [size_toSegment, hcount]
  -- the planned segment, turned
  have hpath : P.path.reversed.segments[P.segments.length - 1 - s]? =
      some (P.segments[s].toSegment.signed keys (P.outerSeeds s)).reversed := by
    have hread := Path.getElem?_segments_reversed (p := P.path) (s := s)
      (by rwa [h.length_segments_path])
    rw [h.length_segments_path, getElem?_segments_path houtline hkeys] at hread
    exact hread
  -- the segment of the mirrored plan
  have hplan : P.reversed.path.segments[P.segments.length - 1 - s]? =
      some (P.segments[s].toSegment.reversed.signed keys.reverse (P.outerSeeds s).exchanged) := by
    have hturned := getElem?_segments_reversed hs
    have hgroup := getElem?_keys_reversed (P := P) (s := s) (by rwa [h.groupCount])
    rw [houtline] at hturned
    rw [h.groupCount, hkeys] at hgroup
    rw [getElem?_segments_path hturned hgroup, outerSeeds_reversed hs,
      SegmentOutline.toSegment_reversed]
  rw [hpath, hplan, Option.some.injEq, Segment.signed_exchanged_iff hcount',
    seedsAgree_iff houtline hkeys]

theorem seedsAgreeAt_of_le (hs : P.segments.length ≤ s) : P.SeedsAgreeAt s := by
  intro outline hop key seeds hlone
  exact absurd (List.getElem?_eq_some_iff.mp hlone.segment).1 (Nat.not_lt.mpr hs)

/-- Whatever plan a path is built from, the mirrored plan is accepted too.  What it gives is the
path the other way round, codes included, up to the segments whose only hop is next to two peering
junctions and takes another code with the other seed. -/
theorem build_reversed {P : PathPlan} {p : Path} (hbuild : P.build = .ok p) :
    ∃ q, P.reversed.build = .ok q ∧
      (∀ s < P.segments.length, q.segments[P.segments.length - 1 - s]? =
        p.reversed.segments[P.segments.length - 1 - s]? ↔ P.SeedsAgreeAt s) ∧
      (q = p.reversed ↔ ∀ s, P.SeedsAgreeAt s) := by
  obtain ⟨h, rfl⟩ := build_eq_ok_iff.mp hbuild
  refine ⟨P.reversed.path, build_eq_ok_iff.mpr ⟨h.reversed, rfl⟩,
    fun s hs => h.segments_reversed_path_iff hs, ?_⟩
  constructor
  · intro hsame s
    rcases Nat.lt_or_ge s P.segments.length with hs | hs
    · rw [← h.segments_reversed_path_iff hs, hsame]
    · exact seedsAgreeAt_of_le hs
  · intro hagree
    have hsegments : P.reversed.path.segments = P.path.reversed.segments := by
      apply List.ext_getElem?
      intro i
      rcases Nat.lt_or_ge i P.segments.length with hi | hi
      · have hindex : P.segments.length - 1 - (P.segments.length - 1 - i) = i := by omega
        rw [← hindex]
        exact (h.segments_reversed_path_iff (by omega)).mpr (hagree _)
      · rw [List.getElem?_eq_none, List.getElem?_eq_none]
        · rwa [Path.length_segments_reversed, h.length_segments_path]
        · rwa [h.reversed.length_segments_path, length_segments_reversed]
    exact congrArg (Path.mk 0 0) hsegments

/-- Three segments of one hop each, all with the peering flag.  The hop in the middle is next to
both junctions, so the mirrored plan gives the turned path only if its code is the same with either
seed. -/
theorem build_reversed_of_lone_hop :
    let hop (ingress egress : UInt16) : HopOutline := ⟨HopFlags.none, 63, ingress, egress, none⟩
    let key (byte : UInt8) : ForwardingKey := ForwardingKey.ofBytes (List.replicate 16 byte)
    let middle : SegmentOutline := ⟨⟨2⟩, 2, 1000, [hop 13 12]⟩
    let seeds : PeeringSeeds := ⟨⟨0x0a0b0c0d0e0f⟩, ⟨0x010203040506⟩⟩
    let P : PathPlan := ⟨[⟨⟨2⟩, 3, 1000, [hop 0 14]⟩, middle, ⟨⟨3⟩, 1, 1000, [hop 11 0]⟩],
      [[key 3], [key 2], [key 1]], some seeds, 0, 0⟩
    P.build = .ok P.path ∧ P.LoneHop 1 middle (hop 13 12) (key 2) seeds ∧
      ∃ q, P.reversed.build = .ok q ∧ (q = P.path.reversed →
        (key 2).hopMac middle.info (hop 13 12).toField Mac.zero (some seeds.before) =
          (key 2).hopMac middle.info (hop 13 12).toField Mac.zero (some seeds.after)) := by
  intro hop key middle seeds P
  have hvalid : P.Valid := fault?_eq_none_iff.mp (by decide)
  have hbuild : P.build = .ok P.path := build_eq_ok_iff.mpr ⟨hvalid, rfl⟩
  have hlone : P.LoneHop 1 middle (hop 13 12) (key 2) seeds :=
    { segment := rfl
      hops := rfl
      keys := rfl
      seeds := rfl
      pos := Nat.zero_lt_one
      before := by decide
      after := by decide }
  obtain ⟨q, hq, -, hsame⟩ := build_reversed hbuild
  exact ⟨hbuild, hlone, q, hq, fun heq => hsame.mp heq 1 middle _ _ _ hlone⟩

end PathPlan

end SourceRoute

import Mathlib.Data.List.Forall2
import SourceRoute.Proofs.BuildLaws
import SourceRoute.Proofs.Forwarding
import SourceRoute.Proofs.ViewReversal

/-!
# Delivery and reply

A packet goes from node to node, each with the key of its own hop.  If every node accepts its hop,
all nodes but the last forward the packet and the last one delivers it, and the path in the packet
is then at its last hop.  Nodes with the keys and seeds of a plan accept every hop of the path built
from it, and also every hop of the path turned round, in the opposite order.
-/

namespace SourceRoute

/-- What a node has when it handles a packet: its configuration, the seed that it is given, and the
time. -/
structure Visit where
  router : Router
  seed : Option PeeringSeed
  now : Instant

/-- Sends a packet through nodes in order: what each of them does with it, and its bytes in the
end. -/
def Visit.run : List Visit → Bytes → List (Except PathFault Outcome) × Bytes
  | [], b => ([], b)
  | visit :: visits, b =>
    let (answer, after) := visit.router.handle b visit.seed visit.now
    let (answers, last) := run visits after
    (answer :: answers, last)

namespace Path

/-! ## One node -/

/-- Whether a hop is the last one of its segment. -/
def endsSegment (p : Path) (hop : Nat) : Bool :=
  (p.locate? hop).any fun (segment, index) => index + 1 = p.sizes.getD segment 0

/-- What the node at a hop does if nothing is wrong. -/
def answerAt (p : Path) (hop : Nat) : Except PathFault Outcome :=
  if hop + 1 < p.hopCount then .ok (.forwarded (p.endsSegment hop)) else .ok .delivered

/-- The code of the hop is right for the visit, and its lifetime is not over or not looked at. -/
structure Admits (p : Path) (hop : Nat) (visit : Visit) : Prop where
  verify : (p.placedAt hop).records.verify visit.router.key visit.seed = true
  alive : visit.router.checkExpiry = true → ∀ (s k : Nat) segment field,
    p.locate? hop = some (s, k) → p.segments[s]? = some segment → segment.hops[k]? = some field →
      ¬ field.expiry segment.info.timestamp < visit.now

section

variable {p : Path} {i : Nat} {visit : Visit}

/-- The segment changes behind the last hop of a segment. -/
theorem endsSegment_eq (hsizes : ValidSizes p.sizes) (hnext : i + 1 < p.hopCount) :
    p.endsSegment i =
      decide ((p.placedAt (i + 1)).currentInfo ≠ (p.placedAt i).currentInfo) := by
  obtain ⟨s, k, hlocate⟩ := Runs.exists_locate (Nat.lt_of_succ_lt hnext)
  obtain ⟨s', k', hlocate'⟩ := Runs.exists_locate hnext
  have hinfo := currentInfo_placedAt hsizes hlocate
  have hinfo' := currentInfo_placedAt hsizes hlocate'
  obtain ⟨hk, hi⟩ := Runs.locate_eq_some_iff.mp hlocate
  have hchange : s' ≠ s ↔ k + 1 = p.sizes.getD s 0 := by
    constructor
    · intro hne
      rcases Nat.lt_or_ge (k + 1) (p.sizes.getD s 0) with hlt | hge
      -- the next hop would be in the same segment
      · have hsame : Runs.locate p.sizes (i + 1) = some (s, k + 1) :=
          Runs.locate_eq_some_iff.mpr ⟨hlt, by omega⟩
        rw [hsame] at hlocate'
        simp only [Option.some.injEq, Prod.mk.injEq] at hlocate'
        exact absurd hlocate'.1.symm hne
      · omega
    · rintro hlast rfl
      obtain ⟨hk', hi'⟩ := Runs.locate_eq_some_iff.mp hlocate'
      omega
  rw [endsSegment, locate?, hlocate, Option.any_some, decide_eq_decide, ← hchange, Ne, Ne,
    ← UInt8.toNat_inj, hinfo, hinfo']

/-- A node that accepts the hop answers as it should and leaves the path at the next hop, or where it
is if there is none. -/
theorem Admits.handle_eq (h : p.Admits i visit) (hsizes : ValidSizes p.sizes) (hi : i < p.hopCount)
    (payload : Bytes) :
    visit.router.handle ((p.placedAt i).bytes ++ payload) visit.seed visit.now =
      (p.answerAt i, (p.placedAt (min (i + 1) (p.hopCount - 1))).bytes ++ payload) := by
  have hp := wellFormed_placedAt hsizes hi
  have hsound := hp.sound
  have hview := hp.toPath_view
  have hindex : (p.placedAt i).currentHop.toNat = i := currentHop_placedAt hsizes hi
  have hfault : (PathView.mk (p.placedAt i).bytes).header.fault? = none := by
    rw [hp.header_view]
    exact hp.fault?_header
  obtain ⟨s, k, hlocate⟩ := Runs.exists_locate hi
  obtain ⟨segment, field, hs, hk⟩ := exists_segment_of_locate hlocate
  have hcurrent := locate_placedAt hsizes hlocate hs hk
  have hrecords := hsound.records_toPath
  rw [hview] at hrecords
  rw [hrecords] at hcurrent
  have halive := fun hcheck => h.alive hcheck s k segment field hlocate hs hk
  have hcases := visit.router.handleView_cases visit.seed visit.now hsound hfault hcurrent
    (by rw [hview, hindex]) (by rw [hview, currentInfo_placedAt hsizes hlocate])
  rw [hview] at hcases
  rw [visit.router.handle_of_ofBytes visit.seed visit.now (hp.ofBytes_eq payload), answerAt]
  rcases Nat.lt_or_ge (i + 1) p.hopCount with hnext | hend
  · have hadvance := hp.advance_of_lt (by rw [hindex]; exact hnext)
    have hjudge := visit.router.judge_eq_forwarded visit.seed visit.now halive h.verify hadvance
    have hmin : min (i + 1) (p.hopCount - 1) = i + 1 := by omega
    rw [hindex, placedAt_placedAt] at hadvance
    rw [if_pos hnext, hmin, endsSegment_eq hsizes hnext]
    rcases hcases with ⟨fault, hbad, -⟩ | ⟨hbad, -⟩ | ⟨next, hmoved, -, hhandle, -⟩
    · simp [hjudge] at hbad
    · simp [hjudge] at hbad
    -- the bytes are those of the path that is placed at the next hop
    · have hclear := hsound.bytes_toPath_moveTo (by rw [hview]) next
      have hplaced := Except.ok.inj (hadvance.symm.trans hmoved)
      rw [hhandle, ← hclear, ← hplaced]
  · have hadvance := hp.advance_of_last (by rw [hindex]; exact hend)
    have hjudge := visit.router.judge_eq_delivered visit.seed visit.now halive h.verify hadvance
    have hmin : min (i + 1) (p.hopCount - 1) = i := by omega
    rw [if_neg (Nat.not_lt.mpr hend), hmin]
    rcases hcases with ⟨fault, hbad, -⟩ | ⟨-, -, hhandle⟩ | ⟨next, hmoved, -⟩
    · simp [hjudge] at hbad
    · rw [hhandle]
    · simp [hadvance] at hmoved

/-- Nodes that accept the hops from one on until the last bring the packet to the last hop. -/
theorem run_of_admits (hsizes : ValidSizes p.sizes) {visits : List Visit} (hi : i < p.hopCount)
    (hvisits : List.Forall₂ p.Admits (List.range' i (p.hopCount - i)) visits) (payload : Bytes) :
    Visit.run visits ((p.placedAt i).bytes ++ payload) =
      ((List.range' i (p.hopCount - i)).map p.answerAt,
        (p.placedAt (p.hopCount - 1)).bytes ++ payload) := by
  -- the induction is on the nodes that are left, the path being placed at the hop of the next one
  induction visits generalizing i with
  | nil =>
    have hlength := hvisits.length_eq
    simp only [List.length_range', List.length_nil] at hlength
    omega
  | cons visit visits ih =>
    have hrange : List.range' i (p.hopCount - i) =
        i :: List.range' (i + 1) (p.hopCount - (i + 1)) := by
      have hcount : p.hopCount - i = p.hopCount - (i + 1) + 1 := by omega
      rw [hcount, List.range'_succ]
    rw [hrange] at hvisits ⊢
    obtain ⟨hvisit, hrest⟩ := List.forall₂_cons.mp hvisits
    rw [Visit.run, hvisit.handle_eq hsizes hi payload]
    rcases Nat.lt_or_ge (i + 1) p.hopCount with hnext | hend
    · have hmin : min (i + 1) (p.hopCount - 1) = i + 1 := by omega
      simp only [hmin, ih hnext hrest, List.map_cons]
    -- the last node was the last hop's
    · have hmin : min (i + 1) (p.hopCount - 1) = p.hopCount - 1 := by omega
      have hnone : List.range' (i + 1) (p.hopCount - (i + 1)) = [] := by
        have hcount : p.hopCount - (i + 1) = 0 := by omega
        rw [hcount]
        rfl
      rw [hnone] at hrest ⊢
      obtain rfl := List.forall₂_nil_left_iff.mp hrest
      simp only [hmin, Visit.run, List.map_cons, List.map_nil]

/-- What is accepted at a hop is accepted there on the path the other way round. -/
theorem Admits.reversed (h : p.Admits i visit) (hsizes : ValidSizes p.sizes)
    (hi : i < p.hopCount) : p.reversed.Admits (p.hopCount - 1 - i) visit where
  verify := by
    rw [verify_placedAt_reversed hsizes hi]
    exact h.verify
  alive := by
    intro hcheck s' k' segment' field' hlocate' hs' hk'
    obtain ⟨s, k, hlocate⟩ := Runs.exists_locate hi
    obtain ⟨segment, field, hs, hk⟩ := exists_segment_of_locate hlocate
    have hsLength : s < p.segments.length := (List.getElem?_eq_some_iff.mp hs).1
    -- the field that is found there is the turned field, with the same lifetime
    rw [locate?_reversed hlocate] at hlocate'
    simp only [Option.some.injEq, Prod.mk.injEq] at hlocate'
    obtain ⟨rfl, rfl⟩ := hlocate'
    rw [getElem?_segments_reversed hsLength, hs, Option.map_some, Option.some.injEq] at hs'
    subst hs'
    rw [getD_sizes hs, Segment.getElem?_hops_reversed (lt_size_of_locate hlocate hs), hk,
      Option.map_some, Option.some.injEq] at hk'
    subst hk'
    exact h.alive hcheck s k segment field hlocate hs hk

end

end Path

/-! ## Planned paths -/

namespace PathPlan

/-- The visit has the key of hop `k` of segment `s` and a seed that fits there, and the lifetime of
the hop is not over or not looked at. -/
structure Serves (P : PathPlan) (s k : Nat) (visit : Visit) : Prop where
  key : ∃ keys, P.keys[s]? = some keys ∧ keys[k]? = some visit.router.key
  seed : P.SeedFits s k visit.seed
  alive : visit.router.checkExpiry = true → ∀ outline hop,
    P.segments[s]? = some outline → outline.hops[k]? = some hop →
      ¬ hop.toField.expiry outline.timestamp < visit.now

/-- The visit serves a hop that is given by its index on the whole path. -/
def ServesAt (P : PathPlan) (hop : Nat) (visit : Visit) : Prop :=
  ∀ s k, Runs.locate P.sizes hop = some (s, k) → P.Serves s k visit

section

variable {P : PathPlan} {i : Nat} {visit : Visit}

/-- A visit that serves a hop of the plan accepts that hop of the planned path. -/
theorem ServesAt.admits (hserves : P.ServesAt i visit) (h : P.Valid) (hi : i < P.path.hopCount) :
    P.path.Admits i visit := by
  obtain ⟨s, k, hlocate⟩ := Runs.exists_locate hi
  have hvisit := hserves s k (by rw [← h.sizes_path]; exact hlocate)
  obtain ⟨keys, hkeys, hkey⟩ := hvisit.key
  refine ⟨h.verify_path hlocate hkeys hkey hvisit.seed, ?_⟩
  intro hcheck s' k' segment field hlocate' hs hk
  rw [Path.locate?, hlocate, Option.some.injEq, Prod.mk.injEq] at hlocate'
  obtain ⟨rfl, rfl⟩ := hlocate'
  -- the hop field of the path is that of the outline with a code
  have hs' : s < P.segments.length := by
    rw [← h.length_segments_path]
    exact (List.getElem?_eq_some_iff.mp hs).1
  have houtline := List.getElem?_eq_getElem hs'
  have hcount : keys.length = P.segments[s].toSegment.size := by
    rw [size_toSegment, h.keyCount s _ _ houtline hkeys]
  rw [getElem?_segments_path houtline hkeys, Option.some.injEq] at hs
  subst hs
  have hkLength : k < P.segments[s].hops.length := by
    have hkeyLength := (List.getElem?_eq_some_iff.mp hkey).1
    rwa [hcount, size_toSegment] at hkeyLength
  have hhop := List.getElem?_eq_getElem hkLength
  have hfield : P.segments[s].toSegment.hops[k]? = some P.segments[s].hops[k].toField := by
    rw [SegmentOutline.toSegment, List.getElem?_map, hhop]
    rfl
  rw [Segment.getElem?_hops_signed hcount hfield hkey (P.outerSeeds s), Option.some.injEq] at hk
  subst hk
  -- signing a hop leaves its lifetime as it is
  exact hvisit.alive hcheck _ _ houtline hhop

end

/-- A packet on a built path is delivered, and so is the reply.  Nodes that serve the hops from the
initial position on all forward the packet, with a change of the segment behind the last hop of each
segment, until the last one delivers it; the path is then at its last hop and the payload is as it
was.  Once the path is turned round in place, nodes that serve the hops in the opposite order do the
same with the reply. -/
theorem build_delivers_and_returns {P : PathPlan} {p : Path} (hbuild : P.build = .ok p)
    (payload : Bytes) {visits replies : List Visit}
    (hvisits : List.Forall₂ P.ServesAt
      (List.range' p.currentHop.toNat (p.hopCount - p.currentHop.toNat)) visits)
    (hreplies : List.Forall₂ P.ServesAt (List.range p.hopCount).reverse replies) :
    ∃ sent arrived view returned,
      Wire.encode p = .ok sent ∧
      Wire.encode (p.placedAt (p.hopCount - 1)) = .ok arrived ∧
      Visit.run visits (sent ++ payload) =
        ((List.range' p.currentHop.toNat (p.hopCount - p.currentHop.toNat)).map p.answerAt,
          arrived ++ payload) ∧
      PathView.ofBytes (arrived ++ payload) = .ok (view, payload) ∧
      Wire.encode p.reversed = .ok view.reverse.bytes ∧
      Wire.encode (p.reversed.placedAt (p.hopCount - 1)) = .ok returned ∧
      Visit.run replies (view.reverse.bytes ++ payload) =
        ((List.range p.hopCount).map p.reversed.answerAt, returned ++ payload) := by
  obtain ⟨hvalid, rfl⟩ := build_eq_ok_iff.mp hbuild
  have hp := hvalid.wellFormed_path
  have hpos : 0 < P.path.hopCount := hp.sizes.total_pos
  have hlast := Path.wellFormed_placedAt (i := P.path.hopCount - 1) hp.sizes (by omega)
  have hreversed := Path.wellFormed_reversed hp.sizes
  have hreturned := Path.wellFormed_placedAt (i := P.path.hopCount - 1) hreversed.sizes
    (by rw [Path.hopCount_reversed]; omega)
  refine ⟨_, _, _, _, Path.encode_eq hp, Path.encode_eq hlast, ?_, hlast.ofBytes_eq payload, ?_,
    Path.encode_eq hreturned, ?_⟩
  -- the way there
  · have hadmits : List.Forall₂ P.path.Admits (List.range' P.path.currentHop.toNat
        (P.path.hopCount - P.path.currentHop.toNat)) visits := by
      refine List.forall₂_iff_get.mpr ⟨hvisits.length_eq, ?_⟩
      intro j hj hj'
      refine ServesAt.admits ((List.forall₂_iff_get.mp hvisits).2 j hj hj') hvalid ?_
      have hmem := List.get_mem _ ⟨j, hj⟩
      rw [List.mem_range'_1] at hmem
      omega
    have hrun := Path.run_of_admits hp.sizes hp.currentHop_lt hadmits payload
    rwa [hp.placedAt_currentHop] at hrun
  · rw [PathView.reverse_bytes_eq hlast]
    exact Path.encode_eq hreversed
  -- the way back
  · have hback : (List.range P.path.hopCount).reverse =
        (List.range' 0 P.path.hopCount).map (P.path.hopCount - 1 - ·) := by
      rw [List.range_eq_range', List.reverse_range', List.range_eq_range', Nat.zero_add]
    rw [hback, List.forall₂_map_left_iff] at hreplies
    have hadmits : List.Forall₂ P.path.reversed.Admits
        (List.range' 0 (P.path.reversed.hopCount - 0)) replies := by
      rw [Path.hopCount_reversed, Nat.sub_zero]
      refine List.forall₂_iff_get.mpr ⟨hreplies.length_eq, ?_⟩
      intro j hj hj'
      have hmem := List.get_mem _ ⟨j, hj⟩
      rw [List.mem_range'_1] at hmem
      have hserves := (List.forall₂_iff_get.mp hreplies).2 j hj hj'
      have hturned := (hserves.admits hvalid (by omega)).reversed hp.sizes (by omega)
      have hindex (n m : Nat) (hm : m < n) : n - 1 - (n - 1 - m) = m := by omega
      rwa [hindex _ _ (by omega)] at hturned
    have hrun := Path.run_of_admits hreversed.sizes
      (by rw [Path.hopCount_reversed]; exact hpos) hadmits payload
    have hstart : P.path.reversed.placedAt 0 = P.path.reversed := hreversed.placedAt_currentHop
    rw [Path.hopCount_reversed, Nat.sub_zero, hstart, ← List.range_eq_range'] at hrun
    rwa [PathView.reverse_bytes_eq hlast]

/-- The case of an up segment of one hop and a down segment of two, joined by a peering link. -/
theorem build_delivers_and_returns_peering :
    let key : ForwardingKey := ForwardingKey.zero
    let before : PeeringSeed := ⟨1#48⟩
    let after : PeeringSeed := ⟨2#48⟩
    let up : SegmentOutline := ⟨⟨2⟩, 7, 1000, [HopOutline.between 0 5]⟩
    let down : SegmentOutline :=
      ⟨⟨3⟩, 9, 1000, [HopOutline.between 6 3, HopOutline.between 4 0]⟩
    let P : PathPlan := ⟨[up, down], [[key], [key, key]], some ⟨before, after⟩, 0, 0⟩
    let first : Visit := ⟨Router.ofKey key, some before, ⟨0⟩⟩
    let second : Visit := ⟨Router.ofKey key, some after, ⟨0⟩⟩
    let third : Visit := ⟨Router.ofKey key, none, ⟨0⟩⟩
    P.build = .ok P.path ∧
      List.Forall₂ P.ServesAt (List.range' P.path.currentHop.toNat
        (P.path.hopCount - P.path.currentHop.toNat)) [first, second, third] ∧
      List.Forall₂ P.ServesAt (List.range P.path.hopCount).reverse [third, second, first] ∧
      ∃ sent arrived, Wire.encode P.path = .ok sent ∧
        Visit.run [first, second, third] (sent ++ [1, 2]) =
          ([.ok (.forwarded true), .ok (.forwarded false), .ok .delivered], arrived ++ [1, 2]) := by
  intro key before after up down P first second third
  have hvalid : P.Valid := fault?_eq_none_iff.mp (by decide)
  have hbuild : P.build = .ok P.path := build_eq_ok_iff.mpr ⟨hvalid, rfl⟩
  have hsizes : P.path.sizes = [1, 2] := hvalid.sizes_path
  have hcount : P.path.hopCount = 3 := by
    rw [Path.hopCount, hsizes]
    rfl
  have hend : ¬ P.PeersAfter 1 := by
    rintro ⟨_, _, -, hnone, -⟩
    simp [P] at hnone
  have hfirst : P.ServesAt 0 first := by
    intro s k hlocate
    obtain ⟨rfl, rfl⟩ : 0 = s ∧ 0 = k := by
      simpa [P, sizes, up, down, SegmentOutline.size, Runs.locate] using hlocate
    refine ⟨⟨_, rfl, rfl⟩, ⟨fun _ _ => rfl, fun _ hpos => absurd hpos (by decide)⟩, ?_⟩
    rintro - outline hop ⟨⟩ ⟨⟩
    decide
  have hsecond : P.ServesAt 1 second := by
    intro s k hlocate
    obtain ⟨rfl, rfl⟩ : 1 = s ∧ 0 = k := by
      simpa [P, sizes, up, down, SegmentOutline.size, Runs.locate] using hlocate
    refine ⟨⟨_, rfl, rfl⟩, ⟨fun _ hpeers => absurd hpeers hend, fun _ _ _ _ => rfl⟩, ?_⟩
    rintro - outline hop ⟨⟩ ⟨⟩
    decide
  have hthird : P.ServesAt 2 third := by
    intro s k hlocate
    obtain ⟨rfl, rfl⟩ : 1 = s ∧ 1 = k := by
      simpa [P, sizes, up, down, SegmentOutline.size, Runs.locate] using hlocate
    refine ⟨⟨_, rfl, rfl⟩, ⟨fun _ hpeers => absurd hpeers hend,
      fun hzero => absurd hzero (by decide)⟩, ?_⟩
    rintro - outline hop ⟨⟩ ⟨⟩
    decide
  have hvisits : List.Forall₂ P.ServesAt (List.range' P.path.currentHop.toNat
      (P.path.hopCount - P.path.currentHop.toNat)) [first, second, third] := by
    rw [hcount]
    exact .cons hfirst (.cons hsecond (.cons hthird .nil))
  have hreplies : List.Forall₂ P.ServesAt (List.range P.path.hopCount).reverse
      [third, second, first] := by
    rw [hcount]
    exact .cons hthird (.cons hsecond (.cons hfirst .nil))
  obtain ⟨sent, arrived, -, -, hsent, -, hrun, -⟩ :=
    build_delivers_and_returns hbuild [1, 2] hvisits hreplies
  refine ⟨hbuild, hvisits, hreplies, sent, arrived, hsent, hrun.trans ?_⟩
  have hanswers : (List.range' P.path.currentHop.toNat
      (P.path.hopCount - P.path.currentHop.toNat)).map P.path.answerAt =
      [.ok (.forwarded true), .ok (.forwarded false), .ok .delivered] := by
    rw [hcount]
    change [P.path.answerAt 0, P.path.answerAt 1, P.path.answerAt 2] = _
    simp only [Path.answerAt, Path.endsSegment, Path.locate?, hsizes, hcount]
    rfl
  rw [hanswers]

end PathPlan

end SourceRoute

import SourceRoute.Proofs.Advancing
import SourceRoute.Proofs.WireFormat

/-!
# Advancing with unchecked lengths

A header advances without being checked.  Its lengths can make up to 765 hops, but the current hop
is a byte: a step counts past 255, looks up the segment that owns the hop found there, and keeps the
low eight bits of the hop itself.  So at hop 255 of a longer path a header wraps round
(`WrapsRound`): it falls back to hop 0, in the segment of hop 256 (`FallsBack`).  At every other
position a step leads to the hop behind the current one and to the segment that owns it (`MovesOn`).
Hence every run over up to 256 hops comes to an end, and none over more.
-/

namespace SourceRoute

/-! ## Segments of unchecked lengths -/

namespace SegmentLengths

variable {l : SegmentLengths} {hop s : Nat}

theorem lt_maxSegments_of_mem (h : hop ∈ l.segmentSpan s) : s < maxSegments := by
  obtain ⟨k, hlocate⟩ := Runs.mem_span_iff.mp h
  exact Runs.lt_length_of_locate hlocate

/-- A segment has fewer than 256 hops, since its length is a byte. -/
theorem stop_segmentSpan_lt (l : SegmentLengths) (s : Nat) :
    (l.segmentSpan s).stop < (l.segmentSpan s).start + 256 := by
  have hbytes : ∀ n ∈ l.toList, n ≤ 255 := by
    have hbyte (x : UInt8) : x.toNat ≤ 255 := Nat.le_of_lt_succ x.toNat_lt
    simp [toList, hbyte]
  have hlength := Runs.getD_le hbytes s
  rw [segmentSpan, Runs.stop_span, Runs.start_span]
  omega

end SegmentLengths

namespace Header

variable {h next : Header} {k : Nat}

/-! ## One step -/

/-- Advancing adds one to the byte of the hop, and gives the segment that owns the hop of the sum as
it was before the carry was dropped.  It succeeds exactly if there is such a segment. -/
theorem advance_eq_ok_iff : h.advance = .ok next ↔
    next.lengths = h.lengths ∧ next.currentHop = h.currentHop + 1 ∧
      h.currentHop.toNat + 1 ∈ h.lengths.segmentSpan next.currentInfo.toNat := by
  have hbyte : UInt8.ofNat (h.currentHop.toNat + 1) = h.currentHop + 1 := by
    rw [UInt8.ofNat_add, UInt8.ofNat_toNat]
    rfl
  rw [advance, hbyte]
  split
  next hnone =>
    simp only [reduceCtorEq, false_iff]
    rintro ⟨-, -, howner⟩
    have hsome := SegmentLengths.segmentOf?_eq_some_iff.mpr howner
    simp [hnone] at hsome
  next s hsome =>
    have howner := SegmentLengths.segmentOf?_eq_some_iff.mp hsome
    have hs : s < 256 := Nat.lt_trans (SegmentLengths.lt_maxSegments_of_mem howner) (by decide)
    have hsegment : (UInt8.ofNat s).toNat = s := UInt8.toNat_ofNat_of_lt' hs
    constructor
    · intro hok
      obtain rfl := Except.ok.inj hok
      refine ⟨rfl, rfl, ?_⟩
      rw [hsegment]
      exact howner
    · rintro ⟨hlengths, hhop, hnext⟩
      -- no other segment owns that hop
      have hsame := SegmentLengths.segmentOf?_eq_some_iff.mpr hnext
      obtain rfl := Option.some.inj (hsome.symm.trans hsame)
      rw [UInt8.ofNat_toNat, ← hlengths, ← hhop]

theorem currentHop_of_advance (hadvance : h.advance = .ok next) :
    next.currentHop.toNat = (h.currentHop.toNat + 1) % 256 := by
  rw [(advance_eq_ok_iff.mp hadvance).2.1, UInt8.toNat_add]
  rfl

/-- A hop follows the current one, but a byte cannot name it. -/
def WrapsRound (h : Header) : Prop := h.currentHop.toNat = 255 ∧ 256 < h.hopCount

/-- The header `next` is at the hop behind the current one of `h`, in the segment that owns it. -/
structure MovesOn (h next : Header) : Prop where
  lengths_eq : next.lengths = h.lengths
  currentHop_eq : next.currentHop.toNat = h.currentHop.toNat + 1
  currentHop_lt : next.currentHop.toNat < h.hopCount
  owner : next.currentHop.toNat ∈ h.lengths.segmentSpan next.currentInfo.toNat

/-- The header `next` is at the first hop of the path, but in the segment of another hop. -/
structure FallsBack (h next : Header) : Prop where
  lengths_eq : next.lengths = h.lengths
  currentHop_eq : next.currentHop.toNat = 0
  owner : 256 ∈ h.lengths.segmentSpan next.currentInfo.toNat
  not_owner : next.currentHop.toNat ∉ h.lengths.segmentSpan next.currentInfo.toNat

theorem MovesOn.not_fallsBack (hmoves : h.MovesOn next) : ¬ h.FallsBack next := by
  intro hfalls
  have hzero := hfalls.currentHop_eq
  rw [hmoves.currentHop_eq] at hzero
  exact Nat.succ_ne_zero _ hzero

theorem movesOn_of_advance (hadvance : h.advance = .ok next) (hwraps : ¬ h.WrapsRound) :
    h.MovesOn next := by
  obtain ⟨hlengths, -, howner⟩ := advance_eq_ok_iff.mp hadvance
  have hlt := exists_advance_iff.mp ⟨next, hadvance⟩
  have hbyte := h.currentHop.toNat_lt
  have hfits : h.currentHop.toNat + 1 < 256 := by
    by_contra hfull
    have hlast : h.currentHop.toNat = 255 := by omega
    rw [hlast] at hlt
    exact hwraps ⟨hlast, hlt⟩
  have hhop : next.currentHop.toNat = h.currentHop.toNat + 1 := by
    rw [currentHop_of_advance hadvance, Nat.mod_eq_of_lt hfits]
  exact
    { lengths_eq := hlengths
      currentHop_eq := hhop
      currentHop_lt := hhop ▸ hlt
      owner := hhop ▸ howner }

theorem fallsBack_of_advance (hadvance : h.advance = .ok next) (hwraps : h.WrapsRound) :
    h.FallsBack next := by
  obtain ⟨hlengths, -, howner⟩ := advance_eq_ok_iff.mp hadvance
  have hhop := currentHop_of_advance hadvance
  rw [hwraps.1] at howner hhop
  have hzero : next.currentHop.toNat = 0 := hhop
  refine ⟨hlengths, hzero, howner, ?_⟩
  -- hops 0 and 256 are too far apart for one segment
  have hlength := h.lengths.stop_segmentSpan_lt next.currentInfo.toNat
  rw [hzero, Span.mem_iff]
  rw [Span.mem_iff] at howner
  omega

/-! ## Many steps -/

/-- A path of up to 256 hops is visited up to its last hop, from any position. -/
theorem advanceBy_of_hopCount_le (hcount : h.hopCount ≤ 256) (hrun : h.advanceBy k = .ok next) :
    next.lengths = h.lengths ∧ next.currentHop.toNat = h.currentHop.toNat + k := by
  induction k generalizing next with
  | zero =>
    obtain rfl := Except.ok.inj hrun
    exact ⟨rfl, rfl⟩
  | succ k ih =>
    obtain ⟨prev, hprev, hadvance⟩ := exists_of_advanceBy_succ hrun
    obtain ⟨hlengths, hhop⟩ := ih hprev
    have hwraps : ¬ prev.WrapsRound := by
      rintro ⟨-, hlarge⟩
      rw [hopCount, hlengths] at hlarge
      exact Nat.not_lt.mpr hcount hlarge
    have hstep := movesOn_of_advance hadvance hwraps
    exact ⟨hstep.lengths_eq.trans hlengths, by rw [hstep.currentHop_eq, hhop, Nat.add_assoc]⟩

theorem exists_advanceBy_iff (hcount : h.hopCount ≤ 256) :
    (∃ next, h.advanceBy k = .ok next) ↔ k = 0 ∨ h.currentHop.toNat + k < h.hopCount := by
  induction k with
  | zero => exact iff_of_true ⟨h, rfl⟩ (.inl rfl)
  | succ k ih =>
    -- one more step is possible as long as the hop reached so far is not the last one
    have hstep {prev : Header} (hprev : h.advanceBy k = .ok prev) :
        (∃ next, prev.advance = .ok next) ↔ h.currentHop.toNat + (k + 1) < h.hopCount := by
      obtain ⟨hlengths, hhop⟩ := advanceBy_of_hopCount_le hcount hprev
      rw [exists_advance_iff, hopCount, hlengths, hhop, Nat.add_assoc]
      rfl
    constructor
    · rintro ⟨next, hrun⟩
      obtain ⟨prev, hprev, hadvance⟩ := exists_of_advanceBy_succ hrun
      exact .inr ((hstep hprev).mp ⟨next, hadvance⟩)
    · intro hlt
      have hlt : h.currentHop.toNat + (k + 1) < h.hopCount := by omega
      obtain ⟨prev, hprev⟩ := ih.mpr (.inr (by omega))
      rw [advanceBy_succ_of_ok hprev]
      exact (hstep hprev).mpr hlt

/-- On a path of more than 256 hops the hop index goes round for ever. -/
theorem exists_advanceBy_of_lt_hopCount (hcount : 256 < h.hopCount) (k : Nat) :
    ∃ next, h.advanceBy k = .ok next ∧ next.lengths = h.lengths ∧
      next.currentHop.toNat = (h.currentHop.toNat + k) % 256 := by
  induction k with
  | zero => exact ⟨h, rfl, rfl, (Nat.mod_eq_of_lt h.currentHop.toNat_lt).symm⟩
  | succ k ih =>
    obtain ⟨prev, hprev, hlengths, hhop⟩ := ih
    -- no byte names the last hop
    have hlt : prev.currentHop.toNat + 1 < prev.hopCount := by
      have hbyte := prev.currentHop.toNat_lt
      rw [hopCount, hlengths]
      exact Nat.lt_of_le_of_lt hbyte hcount
    obtain ⟨next, hadvance⟩ := exists_advance_iff.mpr hlt
    refine ⟨next, ?_, ?_, ?_⟩
    · rw [advanceBy_succ_of_ok hprev, hadvance]
    · rw [(advance_eq_ok_iff.mp hadvance).1, hlengths]
    · rw [currentHop_of_advance hadvance, hhop, Nat.mod_add_mod, Nat.add_assoc]

/-! ## Where headers come from -/

/-- The bits of the wire form cannot write more than 256 hops. -/
theorem hopCount_read_le (b : Bytes) : (read b).hopCount ≤ 256 := by
  have hle (start : Nat) : b.number start 6 ≤ 63 := Nat.le_of_lt_succ (b.number_lt start 6)
  have hfirst := hle 14
  have hsecond := hle 20
  have hthird := hle 26
  rw [hopCount, hopCount_read, Bytes.segmentLengths]
  simp only [Runs.total_cons, Runs.total_nil]
  omega

/-- Advancing moves on to the next hop from every position but one.  A header with any lengths at
any position advances exactly if a hop follows.  It then stands at that hop, in the segment that
owns it, unless the hop is number 256; the byte of the position wraps round there, and the header
falls back to hop 0 in a segment that does not own it.  With up to 256 hops, as in every header with
valid lengths and every header of a buffer, the steps go on one hop at a time for as long as one
follows; with more they go round for ever. -/
theorem advance_moves_on_unless_wrapping (h : Header) :
    ((∃ next, h.advance = .ok next) ↔ h.currentHop.toNat + 1 < h.hopCount) ∧
    (∀ next, h.advance = .ok next →
      (h.MovesOn next ↔ ¬ h.WrapsRound) ∧ (h.FallsBack next ↔ h.WrapsRound)) ∧
    (h.hopCount ≤ 256 → ∀ k,
      ((∃ next, h.advanceBy k = .ok next) ↔ k = 0 ∨ h.currentHop.toNat + k < h.hopCount) ∧
      ∀ next, h.advanceBy k = .ok next → next.currentHop.toNat = h.currentHop.toNat + k) ∧
    (256 < h.hopCount → ∀ k, ∃ next, h.advanceBy k = .ok next ∧
      next.currentHop.toNat = (h.currentHop.toNat + k) % 256) ∧
    (h.lengths.fault? = none ∨ (∃ b, h = read b) → h.hopCount ≤ 256) := by
  refine ⟨exists_advance_iff, ?_, ?_, ?_, ?_⟩
  · intro next hadvance
    by_cases hwraps : h.WrapsRound
    · have hfalls := fallsBack_of_advance hadvance hwraps
      exact ⟨iff_of_false (fun hmoves => hmoves.not_fallsBack hfalls) (not_not.mpr hwraps),
        iff_of_true hfalls hwraps⟩
    · have hmoves := movesOn_of_advance hadvance hwraps
      exact ⟨iff_of_true hmoves hwraps, iff_of_false hmoves.not_fallsBack hwraps⟩
  · intro hcount k
    exact ⟨exists_advanceBy_iff hcount, fun next hrun => (advanceBy_of_hopCount_le hcount hrun).2⟩
  · intro hcount k
    obtain ⟨next, hrun, -, hhop⟩ := exists_advanceBy_of_lt_hopCount hcount k
    exact ⟨next, hrun, hhop⟩
  · rintro (hfault | ⟨b, rfl⟩)
    · exact Nat.le_trans (SegmentLengths.hopCount_le hfault) (by decide)
    · exact hopCount_read_le b

/-- Two segments of 200 hops each, at hop 255, which is in the second one.  Advancing goes back to
hop 0, which is in the first one, and stays in the second. -/
theorem advance_from_hop_255 :
    let h : Header := ⟨1, 255, ⟨200, 200, 0⟩⟩
    let next : Header := ⟨1, 0, ⟨200, 200, 0⟩⟩
    h.advance = .ok next ∧ next.currentHop < h.currentHop ∧
      next.currentSegment? = some 0 ∧ ¬ h.MovesOn next := by
  intro h next
  refine ⟨by decide, by decide, by decide, ?_⟩
  intro hmoves
  exact absurd hmoves.currentHop_eq (by decide)

end Header

end SourceRoute

import SourceRoute.Proofs.CheckedHeader
import SourceRoute.Proofs.PathLinks

/-!
# Advancing to the end

Advancing a valid header again and again visits every hop behind the current one, each once and in
order.  `IsNext` says what one step does: the hop index grows by one, and the segment index grows by
one behind the last hop of a segment and stays elsewhere.  A run of `advanceBy` takes as many steps
as there are hops behind the current one, and the step after that fails.
-/

namespace SourceRoute

/-- If no run is empty, the position behind the last one of a run lies in the run that comes next. -/
theorem Runs.fst_locate_succ {ns : List Nat} (hpos : ∀ n ∈ ns, 0 < n) {i s k t m : Nat}
    (h : locate ns i = some (s, k)) (hnext : locate ns (i + 1) = some (t, m)) :
    t = s + if k + 1 = ns.getD s 0 then 1 else 0 := by
  obtain ⟨hk, hi⟩ := locate_eq_some_iff.mp h
  rcases locate_succ h hnext with ⟨rfl, rfl⟩ | ⟨hlater, rfl, hend⟩
  · -- the next position is in the same run, so this was not its end
    have hinside := (locate_eq_some_iff.mp hnext).1
    rw [if_neg (Nat.ne_of_lt hinside), Nat.add_zero]
  · -- the run behind this one is not empty, so it begins at the next position
    have hlt : s + 1 < ns.length := Nat.lt_of_le_of_lt hlater (lt_length_of_locate hnext)
    have hsize : 0 < ns.getD (s + 1) 0 := by
      rw [List.getD_eq_getElem _ _ hlt]
      exact hpos _ (List.getElem_mem hlt)
    have hstop := total_take_succ ns s
    have hplace : locate ns (i + 1) = some (s + 1, 0) :=
      locate_eq_some_iff.mpr ⟨hsize, by omega⟩
    obtain ⟨rfl, -⟩ := Prod.mk.inj (Option.some.inj (hnext.symm.trans hplace))
    rw [if_pos hend]

namespace Header

/-! ## One step -/

/-- There is nowhere to go from the last hop, and only from there. -/
theorem advance_eq_error_iff {h : Header} {fault : PathFault} :
    h.advance = .error fault ↔ h.isLast = true ∧ fault = .exhausted h.hopCount := by
  have hlast : h.lengths.segmentOf? (h.currentHop.toNat + 1) = none ↔ h.isLast = true := by
    rw [SegmentLengths.segmentOf?, Option.map_eq_none_iff, Runs.locate_eq_none_iff, isLast,
      decide_eq_true_eq]
    rfl
  rw [← hlast, advance]
  split
  next hnone => simp [hnone, eq_comm]
  next s hs => simp [hs]

theorem exists_advance_iff {h : Header} :
    (∃ next, h.advance = .ok next) ↔ h.currentHop.toNat + 1 < h.hopCount := by
  have hlast : h.isLast = true ↔ h.hopCount ≤ h.currentHop.toNat + 1 := decide_eq_true_iff
  cases hadvance : h.advance with
  | error fault =>
    have hend := hlast.mp (advance_eq_error_iff.mp hadvance).1
    simp only [reduceCtorEq, exists_false, false_iff]
    omega
  | ok next =>
    refine iff_of_true ⟨next, rfl⟩ ?_
    by_contra hend
    have hfails := advance_eq_error_iff.mpr ⟨hlast.mpr (Nat.le_of_not_lt hend), rfl⟩
    simp [hadvance] at hfails

/-- The header `next` names the hop behind the current one of `h`. -/
structure IsNext (h next : Header) : Prop where
  currentHop_eq : next.currentHop.toNat = h.currentHop.toNat + 1
  currentInfo_eq :
    next.currentInfo.toNat = h.currentInfo.toNat + if h.isLastOfSegment then 1 else 0

theorem exists_advance {h : Header} (hfault : h.fault? = none)
    (hlt : h.currentHop.toNat + 1 < h.hopCount) : ∃ next, h.advance = .ok next ∧ h.IsNext next := by
  obtain ⟨sizes, hsizes, hd⟩ :=
    SegmentLengths.fault?_eq_none_iff.mp (fault?_eq_none_iff.mp hfault).1
  obtain ⟨k, hlocate⟩ := (fault?_eq_none_iff_locate hsizes hd).mp hfault
  rw [hopCount, hd.hopCount_eq] at hlt
  obtain ⟨s, m, hnext⟩ := Runs.exists_locate hlt
  -- the last hop of a segment is the one where its span ends
  have hend : h.isLastOfSegment = true ↔ k + 1 = sizes.getD h.currentInfo.toNat 0 := by
    have hcurrent : h.currentSegment? = some h.currentInfo.toNat := (fault?_eq_none_iff.mp hfault).2
    have hstart := (Runs.locate_eq_some_iff.mp hlocate).2
    rw [isLastOfSegment, hcurrent]
    simp only [hd.segmentSpan_eq, Runs.span, Span.ofSize, decide_eq_true_eq]
    omega
  refine ⟨_, advance_of_locate hd hnext, hsizes.toNat_ofNat_hop hlt, ?_⟩
  simp only [hend]
  rw [← Runs.fst_locate_succ hsizes.pos hlocate hnext]
  exact hsizes.toNat_ofNat_segment (Runs.lt_length_of_locate hnext)

/-! ## Many steps -/

/-- The header after the given number of steps. -/
def advanceBy (h : Header) : Nat → Except PathFault Header
  | 0 => .ok h
  | k + 1 => h.advanceBy k >>= advance

theorem advanceBy_succ_of_ok {h prev : Header} {k : Nat} (hprev : h.advanceBy k = .ok prev) :
    h.advanceBy (k + 1) = prev.advance := by
  rw [advanceBy, hprev]
  rfl

theorem exists_of_advanceBy_succ {h next : Header} {k : Nat}
    (hrun : h.advanceBy (k + 1) = .ok next) :
    ∃ prev, h.advanceBy k = .ok prev ∧ prev.advance = .ok next := by
  cases hprev : h.advanceBy k with
  | error fault => simp [advanceBy, hprev, bind, Except.bind] at hrun
  | ok prev => exact ⟨prev, rfl, advanceBy_succ_of_ok hprev ▸ hrun⟩

variable {h : Header}

/-- Steps do not leave the valid headers with the given lengths. -/
theorem of_advanceBy (hfault : h.fault? = none) {k : Nat} {next : Header}
    (hrun : h.advanceBy k = .ok next) : next.lengths = h.lengths ∧ next.fault? = none := by
  induction k generalizing next with
  | zero =>
    obtain rfl := Except.ok.inj hrun
    exact ⟨rfl, hfault⟩
  | succ k ih =>
    obtain ⟨prev, hprev, hadvance⟩ := exists_of_advanceBy_succ hrun
    obtain ⟨hlengths, hvalid⟩ := ih hprev
    obtain ⟨hsame, hnext⟩ := fault?_of_advance (fault?_eq_none_iff.mp hvalid).1 hadvance
    exact ⟨hsame.trans hlengths, hnext⟩

/-- Each of the hops behind the current one is reached after its own number of steps. -/
theorem exists_advanceBy (hfault : h.fault? = none) {k : Nat}
    (hk : h.currentHop.toNat + k < h.hopCount) :
    ∃ next, h.advanceBy k = .ok next ∧ next.currentHop.toNat = h.currentHop.toNat + k := by
  induction k with
  | zero => exact ⟨h, rfl, rfl⟩
  | succ k ih =>
    -- the step goes on from a valid header of the same lengths
    obtain ⟨prev, hprev, hhop⟩ := ih (by omega)
    obtain ⟨hlengths, hvalid⟩ := of_advanceBy hfault hprev
    have hlt : prev.currentHop.toNat + 1 < prev.hopCount := by
      rw [hopCount, hlengths, hhop]
      exact hk
    obtain ⟨next, hnext, hstep⟩ := exists_advance hvalid hlt
    refine ⟨next, ?_, ?_⟩
    · rw [advanceBy_succ_of_ok hprev, hnext]
    · rw [hstep.currentHop_eq, hhop, Nat.add_assoc]

/-- Two headers that follow each other in a run are one step apart. -/
theorem isNext_of_advanceBy (hfault : h.fault? = none) {k : Nat} {prev next : Header}
    (hprev : h.advanceBy k = .ok prev) (hnext : h.advanceBy (k + 1) = .ok next) :
    prev.IsNext next := by
  rw [advanceBy_succ_of_ok hprev] at hnext
  have hlt := exists_advance_iff.mp ⟨next, hnext⟩
  obtain ⟨found, hfound, hstep⟩ := exists_advance (of_advanceBy hfault hprev).2 hlt
  obtain rfl := Except.ok.inj (hfound.symm.trans hnext)
  exact hstep

/-- The hop of a valid header is a hop of the path. -/
theorem currentHop_lt (hfault : h.fault? = none) : h.currentHop.toNat < h.hopCount := by
  obtain ⟨-, howner⟩ := fault?_eq_none_iff.mp hfault
  rw [SegmentLengths.segmentOf?, Option.map_eq_some_iff] at howner
  obtain ⟨⟨s, k⟩, hlocate, -⟩ := howner
  exact Runs.lt_total_of_locate hlocate

/-- There is one step for each hop from the current one on, and the last of them fails. -/
theorem advanceBy_of_exhausted (hfault : h.fault? = none) :
    h.advanceBy (h.hopCount - h.currentHop.toNat) = .error (.exhausted h.hopCount) := by
  have hcurrent := currentHop_lt hfault
  obtain ⟨k, hk⟩ : ∃ k, h.hopCount - h.currentHop.toNat = k + 1 :=
    ⟨h.hopCount - h.currentHop.toNat - 1, by omega⟩
  -- all steps but one lead to the last hop
  obtain ⟨last, hlast, hhop⟩ := exists_advanceBy hfault (k := k) (by omega)
  have hcount : last.hopCount = h.hopCount := by
    rw [hopCount, (of_advanceBy hfault hlast).1]
    rfl
  rw [hk, advanceBy_succ_of_ok hlast, ← hcount, advance_eq_error_iff]
  exact ⟨decide_eq_true (by omega), rfl⟩

end Header

/-! ## Paths -/

namespace Path

/-- The path at the position of a header. -/
def withPositionOf (p : Path) (h : Header) : Path :=
  { p with currentInfo := h.currentInfo, currentHop := h.currentHop }

/-- The path after the given number of steps. -/
def advanceBy (p : Path) : Nat → Except PathFault Path
  | 0 => .ok p
  | k + 1 => p.advanceBy k >>= advance

variable {p : Path} {h : Header}

theorem fault?_of_checkedHeader (hchecked : p.checkedHeader = .ok h) : h.fault? = none := by
  obtain ⟨-, -, rfl, hfault⟩ := checkedHeader_eq_ok_iff.mp hchecked
  exact hfault

theorem withPositionOf_of_checkedHeader (hchecked : p.checkedHeader = .ok h) :
    p.withPositionOf h = p := by
  obtain ⟨-, -, rfl, -⟩ := checkedHeader_eq_ok_iff.mp hchecked
  rfl

theorem checkedHeader_withPositionOf (hchecked : p.checkedHeader = .ok h) {next : Header}
    (hlengths : next.lengths = h.lengths) (hfault : next.fault? = none) :
    (p.withPositionOf next).checkedHeader = .ok next := by
  obtain ⟨hcount, hle, rfl, -⟩ := checkedHeader_eq_ok_iff.mp hchecked
  have hheader : (p.withPositionOf next).header = next := by
    change Header.mk next.currentInfo next.currentHop p.header.lengths = next
    rw [← hlengths]
  exact checkedHeader_eq_ok_iff.mpr ⟨hcount, hle, hheader, hheader.symm ▸ hfault⟩

theorem advance_of_checkedHeader (hchecked : p.checkedHeader = .ok h) :
    p.advance = h.advance.map p.withPositionOf := by
  rw [advance, hchecked]
  dsimp only
  cases h.advance <;> rfl

/-- A path and its header take the same steps. -/
theorem advanceBy_of_checkedHeader (hchecked : p.checkedHeader = .ok h) (k : Nat) :
    p.advanceBy k = (h.advanceBy k).map p.withPositionOf := by
  induction k with
  | zero => exact congrArg Except.ok (withPositionOf_of_checkedHeader hchecked).symm
  | succ k ih =>
    rw [advanceBy, Header.advanceBy, ih]
    cases hrun : h.advanceBy k with
    | error fault => rfl
    | ok next =>
      obtain ⟨hlengths, hfault⟩ := Header.of_advanceBy (fault?_of_checkedHeader hchecked) hrun
      -- the path moved so far is checked as the header moved so far
      exact advance_of_checkedHeader (checkedHeader_withPositionOf hchecked hlengths hfault)

end Path

/-- Advancing visits every hop behind the current one once and in order.  From a valid header with
`n` hops at hop `i`, the step number `k` leads to hop `i + k` and its segment as long as there is
such a hop; the lengths stay and the header stays valid.  The segment index grows by one behind the
last hop of a segment and stays elsewhere.  Behind the last hop, advancing fails.  A header with
valid lengths at any position fails to advance exactly if no hop follows, and gives a valid header
otherwise.  A path whose header is checked takes the steps of this header and changes in its position
only; any other path does not move. -/
theorem advance_visits_every_hop (h : Header) :
    (h.validate = .ok h →
      (∀ k, h.currentHop.toNat + k < h.hopCount → ∃ next, h.advanceBy k = .ok next ∧
        next.lengths = h.lengths ∧ next.currentHop.toNat = h.currentHop.toNat + k ∧
        h.lengths.segmentOf? (h.currentHop.toNat + k) = some next.currentInfo.toNat ∧
        next.validate = .ok next) ∧
      (∀ k prev next, h.advanceBy k = .ok prev → h.advanceBy (k + 1) = .ok next →
        next.currentInfo.toNat =
          prev.currentInfo.toNat + if prev.isLastOfSegment then 1 else 0) ∧
      h.currentHop.toNat < h.hopCount ∧
      h.advanceBy (h.hopCount - h.currentHop.toNat) = .error (.exhausted h.hopCount)) ∧
    (h.lengths.fault? = none →
      ((∃ fault, h.advance = .error fault) ↔ h.isLast = true) ∧
      ∀ next, h.advance = .ok next → next.validate = .ok next) ∧
    ∀ p : Path,
      (p.checkedHeader = .ok h → ∀ k, p.advanceBy k = (h.advanceBy k).map p.withPositionOf) ∧
      ∀ cause, p.checkedHeader = .error cause → p.advance = .error (.malformed cause) := by
  refine ⟨?_, ?_, ?_⟩
  · intro hvalid
    have hfault := (Header.validate_eq_ok_iff.mp hvalid).2
    refine ⟨?_, ?_, Header.currentHop_lt hfault, Header.advanceBy_of_exhausted hfault⟩
    · intro k hk
      obtain ⟨next, hnext, hhop⟩ := Header.exists_advanceBy hfault hk
      obtain ⟨hlengths, hstays⟩ := Header.of_advanceBy hfault hnext
      have howner := (Header.fault?_eq_none_iff.mp hstays).2
      rw [hlengths, hhop] at howner
      exact ⟨next, hnext, hlengths, hhop, howner, Header.validate_eq_ok hstays⟩
    · intro k prev next hprev hnext
      exact (Header.isNext_of_advanceBy hfault hprev hnext).currentInfo_eq
  · intro hlengths
    refine ⟨?_, fun next hnext => Header.validate_eq_ok (Header.fault?_of_advance hlengths hnext).2⟩
    simp only [Header.advance_eq_error_iff, exists_and_left, exists_eq, and_true]
  · intro p
    refine ⟨fun hchecked => Path.advanceBy_of_checkedHeader hchecked, fun cause hcause => ?_⟩
    rw [Path.advance, hcause]

end SourceRoute

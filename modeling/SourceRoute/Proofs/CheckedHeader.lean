import SourceRoute.Proofs.CurrentLaws

/-!
# Paths with a checked header

Navigation asks for a checked header, encoding for a wire form.  The header check looks at three
lengths, in which a segment without hops looks like one that is not there.  So a path passes it
exactly if it has a wire form, or would have one without the empty segments at its end.  A path that
ends in empty segments can be navigated but not encoded, and its header leaves these segments out.
-/

namespace SourceRoute

/-- Two lists of sizes that the same lengths describe differ in zeros at the end only. -/
theorem SegmentLengths.Describes.eq_append_zeros {l : SegmentLengths} {sizes filled : List Nat}
    (h : l.Describes sizes) (hfilled : l.Describes filled) (hpos : ∀ n ∈ filled, 0 < n) :
    sizes = filled ++ List.replicate (sizes.length - filled.length) 0 := by
  have hget (s : Nat) : sizes.getD s 0 = filled.getD s 0 := by
    rw [← h.getD_eq, hfilled.getD_eq]
  -- a size past the end of the first list would be zero
  have hle : filled.length ≤ sizes.length := by
    by_contra hlonger
    have hlt : sizes.length < filled.length := Nat.lt_of_not_le hlonger
    have hzero := hget sizes.length
    rw [List.getD_eq_default _ _ (Nat.le_refl _), List.getD_eq_getElem _ _ hlt] at hzero
    exact absurd (hpos _ (List.getElem_mem hlt)) (by omega)
  have hlength : sizes.length =
      (filled ++ List.replicate (sizes.length - filled.length) 0).length := by
    rw [List.length_append, List.length_replicate]
    omega
  -- sizes past the end of a list are zero, so the lists agree place by place
  refine List.ext_getElem hlength fun s hs hs' => ?_
  rw [← List.getD_eq_getElem _ 0 hs, ← List.getD_eq_getElem _ 0 hs', hget,
    Runs.getD_append_replicate_zero]

namespace Path

/-- The path with other segments. -/
def withSegments (p : Path) (segments : List Segment) : Path := { p with segments }

/-- The path ends in segments without hops, and the segments in front of them would make up a path
with a wire form. -/
def EndsEmpty (p : Path) : Prop :=
  p.segments.length ≤ maxSegments ∧ ∃ front back, p.segments = front ++ back ∧ back ≠ [] ∧
    (∀ s ∈ back, s.hops = []) ∧ (p.withSegments front).structureFault? = none

section

variable {p : Path} {front back : List Segment}

theorem checkedHeader_eq_ok_iff {h : Header} :
    p.checkedHeader = .ok h ↔ p.segments.length ≤ maxSegments ∧ (∀ n ∈ p.sizes, n ≤ 255) ∧
      p.header = h ∧ p.header.fault? = none := by
  rw [checkedHeader]
  split
  next hmany =>
    simp only [reduceCtorEq, false_iff]
    omega
  next hcount =>
    split
    next size hfind =>
      simp only [reduceCtorEq, false_iff]
      rintro ⟨-, hle, -⟩
      -- a size was found that is larger than a byte
      have hsize := hle size (List.mem_of_find?_eq_some hfind)
      have hlarge := List.find?_some hfind
      simp only [decide_eq_true_eq] at hlarge
      omega
    next hnone =>
      have hle : ∀ n ∈ p.sizes, n ≤ 255 := by simpa using hnone
      rw [Header.validate_eq_ok_iff]
      exact ⟨fun hvalid => ⟨Nat.le_of_not_lt hcount, hle, hvalid⟩, fun hall => hall.2.2⟩

/-! ## Empty segments at the end -/

/-- Empty segments at the end are zeros at the end of the sizes. -/
theorem sizes_eq_append_zeros (hsegments : p.segments = front ++ back)
    (hempty : ∀ s ∈ back, s.hops = []) :
    p.sizes = (p.withSegments front).sizes ++ List.replicate back.length 0 := by
  have hback : back.map Segment.size = List.replicate back.length 0 := by
    refine List.eq_replicate_iff.mpr ⟨List.length_map .., ?_⟩
    intro n hn
    obtain ⟨s, hs, rfl⟩ := List.mem_map.mp hn
    rw [Segment.size, hempty s hs, List.length_nil]
  rw [sizes, hsegments, List.map_append, hback]
  rfl

/-- A header does not show empty segments at the end. -/
theorem header_withSegments (hsegments : p.segments = front ++ back)
    (hempty : ∀ s ∈ back, s.hops = []) : (p.withSegments front).header = p.header := by
  have hlengths : (p.withSegments front).lengths = p.lengths := by
    simp only [lengths, sizes_eq_append_zeros hsegments hempty, Runs.getD_append_replicate_zero]
  rw [header, header, hlengths]
  rfl

/-- A path passes the header check as soon as the segments in front of its empty ones have a wire
form. -/
theorem checkedHeader_of_front (hcount : p.segments.length ≤ maxSegments)
    (hsegments : p.segments = front ++ back) (hempty : ∀ s ∈ back, s.hops = [])
    (hfront : (p.withSegments front).WellFormed) : p.checkedHeader = .ok p.header := by
  refine checkedHeader_eq_ok_iff.mpr ⟨hcount, ?_, rfl, ?_⟩
  · intro n hn
    rw [sizes_eq_append_zeros hsegments hempty] at hn
    rcases List.mem_append.mp hn with hn | hn
    · exact Nat.le_trans (hfront.sizes.le n hn) (by decide)
    · rw [List.eq_of_mem_replicate hn]
      exact Nat.zero_le _
  · rw [← header_withSegments hsegments hempty]
    exact hfront.fault?_header

/-- What passes the header check is a path with a wire form and empty segments behind it. -/
theorem exists_front_of_checkedHeader {h : Header} (hchecked : p.checkedHeader = .ok h) :
    ∃ front back, p.segments = front ++ back ∧ (∀ s ∈ back, s.hops = []) ∧
      (p.withSegments front).WellFormed := by
  obtain ⟨hcount, hle, -, hfault⟩ := checkedHeader_eq_ok_iff.mp hchecked
  have hd : p.lengths.Describes p.sizes := lengths_describes (by rwa [length_sizes]) hle
  obtain ⟨filled, hvalid, hfilled⟩ :=
    SegmentLengths.fault?_eq_none_iff.mp (Header.fault?_eq_none_iff.mp hfault).1
  -- valid lengths have no gaps, so only segments at the end can be empty
  have hsizes := hd.eq_append_zeros hfilled hvalid.pos
  have hfront : (p.withSegments (p.segments.take filled.length)).sizes = filled := by
    change (p.segments.take filled.length).map Segment.size = filled
    rw [List.map_take, ← sizes, hsizes, List.take_left]
  refine ⟨p.segments.take filled.length, p.segments.drop filled.length,
    (List.take_append_drop ..).symm, ?_, ?_⟩
  · intro s hs
    have hmem : s.size ∈ p.sizes.drop filled.length := by
      rw [sizes, ← List.map_drop]
      exact List.mem_map_of_mem hs
    rw [hsizes, List.drop_left] at hmem
    exact List.eq_nil_of_length_eq_zero (List.eq_of_mem_replicate hmem)
  · have hlocate := (Header.fault?_eq_none_iff_locate hvalid hfilled).mp hfault
    exact ⟨hfront.symm ▸ hvalid, hfront.symm ▸ hlocate⟩

/-- The first of the empty segments is why such a path has no wire form. -/
theorem EndsEmpty.structureFault?_eq (h : p.EndsEmpty) :
    p.structureFault? = some .emptySegment := by
  obtain ⟨hcount, front, back, hsegments, hne, hempty, hwire⟩ := h
  have hfront := (structureFault?_eq_none_iff.mp hwire).sizes
  have hnone : front.findSome? Segment.structureFault? = none :=
    findSome?_structureFault?_eq_none_iff (p := p.withSegments front).mpr ⟨hfront.pos, hfront.le⟩
  -- the segments in front have no fault, so the first one behind them is found
  obtain ⟨s, back, rfl⟩ := List.exists_cons_of_ne_nil hne
  have hs : s.structureFault? = some .emptySegment := by
    have hhops := hempty s List.mem_cons_self
    rw [Segment.structureFault?, Segment.size, hhops]
    rfl
  have hfind : p.segments.findSome? Segment.structureFault? = some .emptySegment := by
    rw [hsegments, List.findSome?_append, hnone, List.findSome?_cons, hs]
    rfl
  rw [structureFault?, if_neg (by simp [hsegments]), if_neg (Nat.not_lt.mpr hcount), hfind]

end

/-- The header check and the check for a wire form agree on all paths but those that end in empty
segments, which pass the first one and fail the second.  The header that is checked is always the
one that describes the path as well as a header can. -/
theorem checkedHeader_ok_iff (p : Path) :
    (∀ h, p.checkedHeader = .ok h → h = p.header) ∧
    ((∃ h, p.checkedHeader = .ok h) ↔ p.structureFault? = none ∨ p.EndsEmpty) ∧
    (p.EndsEmpty → p.structureFault? = some .emptySegment) := by
  refine ⟨?_, ⟨?_, ?_⟩, EndsEmpty.structureFault?_eq⟩
  · intro h hchecked
    exact (checkedHeader_eq_ok_iff.mp hchecked).2.2.1.symm
  · rintro ⟨h, hchecked⟩
    obtain ⟨front, back, hsegments, hempty, hfront⟩ := exists_front_of_checkedHeader hchecked
    have hwire := structureFault?_eq_none_iff.mpr hfront
    -- with nothing behind it, the front is the whole path
    by_cases hback : back = []
    · rw [hback, List.append_nil] at hsegments
      rw [← hsegments] at hwire
      exact .inl hwire
    · have hcount := (checkedHeader_eq_ok_iff.mp hchecked).1
      exact .inr ⟨hcount, front, back, hsegments, hback, hempty, hwire⟩
  · rintro (hwire | ⟨hcount, front, back, hsegments, -, hempty, hfront⟩)
    · exact ⟨_, (structureFault?_eq_none_iff.mp hwire).checkedHeader_eq⟩
    · have hp := structureFault?_eq_none_iff.mp hfront
      exact ⟨_, checkedHeader_of_front hcount hsegments hempty hp⟩

/-- A segment of one hop before a segment of none.  The header check passes with a header of one
segment, and the current hop is found, but the path has no wire form. -/
theorem checkedHeader_of_empty_end :
    let hop : HopField := ⟨HopFlags.none, 63, 2, 3, Mac.zero⟩
    let p : Path := ⟨0, 0, [⟨⟨⟨1⟩, 48879, 1742904000⟩, [hop]⟩, ⟨⟨⟨1⟩, 7, 1000⟩, []⟩]⟩
    p.checkedHeader = .ok ⟨0, 0, ⟨1, 0, 0⟩⟩ ∧
      (∃ current, CurrentHop.locate p.records = .ok current) ∧
      p.structureFault? = some .emptySegment ∧
      Wire.encode p = .error (.noWireForm .emptySegment) := by
  intro hop p
  exact ⟨by decide, ⟨_, rfl⟩, by decide, by decide⟩

end Path

end SourceRoute

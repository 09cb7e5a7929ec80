import SourceRoute.Proofs.FieldLaws
import SourceRoute.Proofs.RunLaws

/-!
# Laws of headers

The three lengths of a header describe a list of run lengths if they are that list with zeros
behind it.  A header is valid exactly if its lengths describe one to three runs of 1 to 63 hops, at
most 64 together, and the current segment is the run in which the current hop is located.  All
navigation of a valid header is then navigation of the runs.
-/

namespace SourceRoute

/-! ## Run lengths that a header can hold -/

/-- The segment sizes of a path that has a header. -/
structure ValidSizes (sizes : List Nat) : Prop where
  ne_nil : sizes ≠ []
  count_le : sizes.length ≤ maxSegments
  pos : ∀ n ∈ sizes, 0 < n
  le : ∀ n ∈ sizes, n ≤ maxSegmentLength
  total_le : Runs.total sizes ≤ maxHops

theorem ValidSizes.reverse {sizes : List Nat} (h : ValidSizes sizes) :
    ValidSizes sizes.reverse where
  ne_nil := by simpa using h.ne_nil
  count_le := by simpa using h.count_le
  pos := fun n hn => h.pos n (List.mem_reverse.mp hn)
  le := fun n hn => h.le n (List.mem_reverse.mp hn)
  total_le := by simpa using h.total_le

theorem ValidSizes.total_pos {sizes : List Nat} (h : ValidSizes sizes) : 0 < Runs.total sizes :=
  Runs.total_pos h.ne_nil h.pos

/-- No segment index is cut down by a byte. -/
theorem ValidSizes.toNat_ofNat_segment {sizes : List Nat} (h : ValidSizes sizes) {s : Nat}
    (hs : s < sizes.length) : (UInt8.ofNat s).toNat = s := by
  have hcount : sizes.length ≤ 3 := h.count_le
  have hsmall : s < 256 := by omega
  exact UInt8.toNat_ofNat_of_lt' hsmall

/-- No hop index is cut down by a byte. -/
theorem ValidSizes.toNat_ofNat_hop {sizes : List Nat} (h : ValidSizes sizes) {i : Nat}
    (hi : i < Runs.total sizes) : (UInt8.ofNat i).toNat = i := by
  have htotal : Runs.total sizes ≤ 64 := h.total_le
  have hsmall : i < 256 := by omega
  exact UInt8.toNat_ofNat_of_lt' hsmall

/-- Sizes that a header can hold number one, two or three. -/
theorem ValidSizes.shape {sizes : List Nat} (h : ValidSizes sizes) :
    (∃ a, sizes = [a]) ∨ (∃ a b, sizes = [a, b]) ∨ ∃ a b c, sizes = [a, b, c] := by
  have hcount : sizes.length ≤ 3 := h.count_le
  -- the other lengths are excluded by the two bounds
  match sizes, h.ne_nil, hcount with
  | [a], _, _ => exact .inl ⟨a, rfl⟩
  | [a, b], _, _ => exact .inr (.inl ⟨a, b, rfl⟩)
  | [a, b, c], _, _ => exact .inr (.inr ⟨a, b, c, rfl⟩)

theorem validSizes_singleton_iff {n : Nat} : ValidSizes [n] ↔ 0 < n ∧ n ≤ maxSegmentLength := by
  constructor
  · exact fun h => ⟨h.pos n List.mem_cons_self, h.le n List.mem_cons_self⟩
  · rintro ⟨hpos, hle⟩
    exact
      { ne_nil := List.cons_ne_nil n []
        count_le := Nat.le_add_left 1 2
        pos := by simpa using hpos
        le := by simpa using hle
        total_le := Nat.le_trans hle (Nat.le_succ 63) }

theorem validSizes_pair_iff {m n : Nat} : ValidSizes [m, n] ↔
    (0 < m ∧ m ≤ maxSegmentLength) ∧ (0 < n ∧ n ≤ maxSegmentLength) ∧ m + n ≤ maxHops := by
  constructor
  · intro h
    have hn : n ∈ [m, n] := List.mem_cons_of_mem m List.mem_cons_self
    exact ⟨⟨h.pos m List.mem_cons_self, h.le m List.mem_cons_self⟩, ⟨h.pos n hn, h.le n hn⟩,
      h.total_le⟩
  · rintro ⟨⟨hm, hm'⟩, ⟨hn, hn'⟩, htotal⟩
    exact
      { ne_nil := List.cons_ne_nil m [n]
        count_le := Nat.le_succ 2
        pos := by simpa using ⟨hm, hn⟩
        le := by simpa using ⟨hm', hn'⟩
        total_le := htotal }

namespace SegmentLengths

/-- The segment that owns a hop is the one in whose span it lies. -/
theorem segmentOf?_eq_some_iff {l : SegmentLengths} {hop s : Nat} :
    l.segmentOf? hop = some s ↔ hop ∈ Runs.span l.toList s := by
  rw [segmentOf?, Option.map_eq_some_iff, Runs.mem_span_iff]
  constructor
  · rintro ⟨⟨_, k⟩, hlocate, rfl⟩
    exact ⟨k, hlocate⟩
  · rintro ⟨k, hlocate⟩
    exact ⟨(s, k), hlocate, rfl⟩

/-- The lengths are the given ones, and zero for each segment that is not there. -/
structure Describes (l : SegmentLengths) (sizes : List Nat) : Prop where
  count_le : sizes.length ≤ maxSegments
  toList_eq : l.toList = sizes ++ List.replicate (maxSegments - sizes.length) 0

theorem describes_iff {l : SegmentLengths} {sizes : List Nat} (hcount : sizes.length ≤ maxSegments) :
    l.Describes sizes ↔ l.first.toNat = sizes.getD 0 0 ∧ l.second.toNat = sizes.getD 1 0 ∧
      l.third.toNat = sizes.getD 2 0 := by
  have hlist : l.Describes sizes ↔
      l.toList = sizes ++ List.replicate (maxSegments - sizes.length) 0 :=
    ⟨Describes.toList_eq, fun h => ⟨hcount, h⟩⟩
  have hbound : sizes.length ≤ 3 := hcount
  rw [hlist]
  match sizes, hbound with
  | [], _ => simp [toList, maxSegments, List.replicate]
  | [a], _ => simp [toList, maxSegments, List.replicate]
  | [a, b], _ => simp [toList, maxSegments]
  | [a, b, c], _ => simp [toList, maxSegments]

namespace Describes

variable {l : SegmentLengths} {sizes : List Nat}

theorem hopCount_eq (h : l.Describes sizes) : l.hopCount = Runs.total sizes := by
  rw [hopCount, h.toList_eq, Runs.total_append, Runs.total_replicate_zero, Nat.add_zero]

theorem segmentSpan_eq (h : l.Describes sizes) (s : Nat) :
    l.segmentSpan s = Runs.span sizes s := by
  rw [segmentSpan, h.toList_eq, Runs.span_append_replicate_zero]

theorem segmentOf?_eq (h : l.Describes sizes) (hop : Nat) :
    l.segmentOf? hop = (Runs.locate sizes hop).map Prod.fst := by
  rw [segmentOf?, h.toList_eq, Runs.locate_append_replicate_zero]

theorem getD_eq (h : l.Describes sizes) (s : Nat) : l.toList.getD s 0 = sizes.getD s 0 := by
  rw [h.toList_eq, Runs.getD_append_replicate_zero]

theorem infoCount_eq (h : l.Describes sizes) (hpos : ∀ n ∈ sizes, 0 < n) :
    l.infoCount = sizes.length := by
  have hkept : sizes.filter (0 < ·) = sizes := List.filter_eq_self.mpr (by simpa using hpos)
  have hdropped : (List.replicate (maxSegments - sizes.length) 0).filter (0 < ·) = [] := by
    simp
  rw [infoCount, h.toList_eq, List.filter_append, hkept, hdropped, List.append_nil]

/-- The lengths that are not zero are those of the segments that are there. -/
theorem getD_pos_iff (h : l.Describes sizes) (hpos : ∀ n ∈ sizes, 0 < n) {s : Nat} :
    0 < l.toList.getD s 0 ↔ s < sizes.length := by
  rw [h.getD_eq]
  rcases Nat.lt_or_ge s sizes.length with hs | hs
  · rw [List.getD_eq_getElem _ _ hs]
    exact iff_of_true (hpos _ (List.getElem_mem hs)) hs
  · rw [List.getD_eq_default _ _ hs]
    exact iff_of_false (Nat.lt_irrefl 0) (Nat.not_lt.mpr hs)

/-- Only one triple of lengths describes given sizes. -/
theorem unique {m : SegmentLengths} (h : l.Describes sizes) (hm : m.Describes sizes) : l = m := by
  have hlist : l.toList = m.toList := by rw [h.toList_eq, hm.toList_eq]
  simp only [toList, List.cons.injEq, and_true] at hlist
  obtain ⟨hfirst, hsecond, hthird⟩ := hlist
  cases l
  cases m
  simp only [mk.injEq]
  exact ⟨UInt8.toNat_inj.mp hfirst, UInt8.toNat_inj.mp hsecond, UInt8.toNat_inj.mp hthird⟩

theorem reversed (h : l.Describes sizes) (hvalid : ValidSizes sizes) :
    l.reversed.Describes sizes.reverse := by
  have hcount := h.infoCount_eq hvalid.pos
  obtain ⟨hfirst, hsecond, hthird⟩ := (describes_iff h.count_le).mp h
  rw [describes_iff (by simpa using h.count_le)]
  -- how the three lengths change places depends on how many of them count
  rcases hvalid.shape with ⟨a, rfl⟩ | ⟨a, b, rfl⟩ | ⟨a, b, c, rfl⟩ <;>
    simp [SegmentLengths.reversed, hcount, hfirst, hsecond, hthird]

end Describes

/-! ## Valid lengths -/

private theorem gap?_eq_none_iff {l : SegmentLengths} :
    l.gap? = none ↔ (l.first.toNat = 0 → l.second.toNat = 0) ∧
      (l.second.toNat = 0 → l.third.toNat = 0) := by
  have hzero (x : UInt8) : x = 0 ↔ x.toNat = 0 := UInt8.toNat_inj.symm
  -- the checks compare bytes, the bounds compare numbers
  simp only [gap?, ne_eq, hzero]
  grind

private theorem find?_eq_none_iff {l : SegmentLengths} :
    l.toList.find? (maxSegmentLength < ·) = none ↔ ∀ n ∈ l.toList, n ≤ maxSegmentLength := by
  simp

/-- What the checks of the lengths say, taken together. -/
private theorem fault?_eq_none_iff_bounds {l : SegmentLengths} :
    l.fault? = none ↔ 0 < l.hopCount ∧ l.gap? = none ∧
      (∀ n ∈ l.toList, n ≤ maxSegmentLength) ∧ l.hopCount ≤ maxHops := by
  rw [← find?_eq_none_iff, fault?]
  split
  · simp_all
  · split
    · simp_all
    · split
      · simp_all
      · simp_all
        omega

/-- Lengths without a gap describe the lengths that are not zero. -/
private theorem exists_describes {l : SegmentLengths} (hgap : l.gap? = none)
    (hcount : 0 < l.hopCount) :
    ∃ sizes, sizes ≠ [] ∧ (∀ n ∈ sizes, 0 < n) ∧ l.Describes sizes := by
  obtain ⟨hsecond, hthird⟩ := gap?_eq_none_iff.mp hgap
  have hfirst : 0 < l.first.toNat := by
    simp only [hopCount, toList, Runs.total_cons, Runs.total_nil] at hcount
    omega
  -- without a gap, the lengths that are not zero come first
  by_cases h3 : l.third.toNat = 0
  · by_cases h2 : l.second.toNat = 0
    · refine ⟨[l.first.toNat], by simp, by simpa using hfirst, ?_⟩
      rw [describes_iff (by simp [maxSegments])]
      simp [h2, h3]
    · refine ⟨[l.first.toNat, l.second.toNat], by simp, ?_, ?_⟩
      · simp only [List.mem_cons, List.not_mem_nil, or_false, forall_eq_or_imp, forall_eq]
        omega
      · rw [describes_iff (by simp [maxSegments])]
        simp [h3]
  · refine ⟨[l.first.toNat, l.second.toNat, l.third.toNat], by simp, ?_, ?_⟩
    · simp only [List.mem_cons, List.not_mem_nil, or_false, forall_eq_or_imp, forall_eq]
      omega
    · rw [describes_iff (by simp [maxSegments])]
      simp

/-- Nothing is wrong with lengths exactly if they describe valid sizes. -/
theorem fault?_eq_none_iff {l : SegmentLengths} :
    l.fault? = none ↔ ∃ sizes, ValidSizes sizes ∧ l.Describes sizes := by
  rw [fault?_eq_none_iff_bounds]
  constructor
  · rintro ⟨hcount, hgap, hle, htotal⟩
    obtain ⟨sizes, hne, hpos, hdescribes⟩ := exists_describes hgap hcount
    refine ⟨sizes, ⟨hne, hdescribes.count_le, hpos, ?_, ?_⟩, hdescribes⟩
    -- each of the sizes is one of the lengths
    · intro n hn
      apply hle
      rw [hdescribes.toList_eq]
      exact List.mem_append_left _ hn
    · rw [← hdescribes.hopCount_eq]
      exact htotal
  · rintro ⟨sizes, hvalid, hdescribes⟩
    refine ⟨?_, ?_, ?_, ?_⟩
    · rw [hdescribes.hopCount_eq]
      exact hvalid.total_pos
    · have hlengths := (describes_iff hdescribes.count_le).mp hdescribes
      have hpos := hvalid.pos
      rw [gap?_eq_none_iff]
      rcases hvalid.shape with ⟨a, rfl⟩ | ⟨a, b, rfl⟩ | ⟨a, b, c, rfl⟩ <;> simp_all <;> omega
    · intro n hn
      rw [hdescribes.toList_eq] at hn
      -- the other lengths are zero
      rcases List.mem_append.mp hn with hn | hn
      · exact hvalid.le n hn
      · rw [List.eq_of_mem_replicate hn]
        exact Nat.zero_le _
    · rw [hdescribes.hopCount_eq]
      exact hvalid.total_le

/-- Nothing is wrong with lengths exactly if those that are not zero are the first ones, and at
least one, and no bound is passed. -/
theorem fault?_eq_none_iff_front {l : SegmentLengths} :
    l.fault? = none ↔ (∃ k, 0 < k ∧ k ≤ maxSegments ∧
        ∀ s < maxSegments, 0 < l.toList.getD s 0 ↔ s < k) ∧
      (∀ n ∈ l.toList, n ≤ maxSegmentLength) ∧ l.hopCount ≤ maxHops := by
  have hfront : (∃ k, 0 < k ∧ k ≤ maxSegments ∧
      ∀ s < maxSegments, 0 < l.toList.getD s 0 ↔ s < k) ↔ 0 < l.hopCount ∧ l.gap? = none := by
    constructor
    · rintro ⟨k, hk, -, h⟩
      have h0 := h 0 (by decide)
      have h1 := h 1 (by decide)
      have h2 := h 2 (by decide)
      simp only [toList, List.getD_cons_zero, List.getD_cons_succ] at h0 h1 h2
      simp only [gap?_eq_none_iff, hopCount, toList, Runs.total_cons, Runs.total_nil]
      omega
    · rintro ⟨hcount, hgap⟩
      obtain ⟨sizes, hne, hpos, hd⟩ := exists_describes hgap hcount
      exact ⟨sizes.length, List.length_pos_iff.mpr hne, hd.count_le,
        fun s _ => hd.getD_pos_iff hpos⟩
  rw [fault?_eq_none_iff_bounds, hfront, and_assoc]

section

variable {l : SegmentLengths} {s : Nat}

/-- In valid lengths the segments that have hops are the first ones. -/
theorem lt_infoCount_iff (hfault : l.fault? = none) :
    s < l.infoCount ↔ 0 < l.toList.getD s 0 := by
  obtain ⟨sizes, hsizes, hd⟩ := fault?_eq_none_iff.mp hfault
  rw [hd.infoCount_eq hsizes.pos, hd.getD_pos_iff hsizes.pos]

theorem hopCount_le (hfault : l.fault? = none) : l.hopCount ≤ maxHops := by
  obtain ⟨sizes, hsizes, hd⟩ := fault?_eq_none_iff.mp hfault
  rw [hd.hopCount_eq]
  exact hsizes.total_le

theorem toList_le (hfault : l.fault? = none) (s : Nat) : l.toList.getD s 0 ≤ maxSegmentLength := by
  obtain ⟨sizes, hsizes, hd⟩ := fault?_eq_none_iff.mp hfault
  rw [hd.getD_eq]
  exact Runs.getD_le hsizes.le s

end

end SegmentLengths

namespace Header

open SegmentLengths (Describes)

/-! ## Valid headers -/

/-- Nothing is wrong with a position exactly if the current segment owns the current hop. -/
theorem positionFault?_eq_none_iff {h : Header} :
    h.positionFault? = none ↔ h.currentSegment? = some h.currentInfo.toNat := by
  rw [positionFault?]
  split
  next hnone => simp [hnone]
  next owner hsome =>
    rw [hsome]
    simp [eq_comm]

theorem fault?_eq_none_iff {h : Header} :
    h.fault? = none ↔ h.lengths.fault? = none ∧
      h.lengths.segmentOf? h.currentHop.toNat = some h.currentInfo.toNat := by
  rw [fault?, Option.or_eq_none_iff, positionFault?_eq_none_iff, currentSegment?]

theorem validate_eq_ok {h : Header} (hfault : h.fault? = none) : h.validate = .ok h := by
  rw [validate, hfault]

section Navigation

variable {h : Header} {sizes : List Nat}

/-- A header is valid if its sizes are and the current hop is located in the current segment. -/
theorem fault?_eq_none_iff_locate (hsizes : ValidSizes sizes) (hd : h.lengths.Describes sizes) :
    h.fault? = none ↔
      ∃ k, Runs.locate sizes h.currentHop.toNat = some (h.currentInfo.toNat, k) := by
  have hlengths : h.lengths.fault? = none :=
    SegmentLengths.fault?_eq_none_iff.mpr ⟨sizes, hsizes, hd⟩
  rw [fault?_eq_none_iff, hd.segmentOf?_eq, Option.map_eq_some_iff]
  simp [hlengths]

/-- A valid header fits the bits of its wire form. -/
theorem fits_of_locate (hsizes : ValidSizes sizes) (hd : h.lengths.Describes sizes) {k : Nat}
    (hlocate : Runs.locate sizes h.currentHop.toNat = some (h.currentInfo.toNat, k)) : h.Fits := by
  have hle (s : Nat) : sizes.getD s 0 < 64 := Nat.lt_succ_of_le (Runs.getD_le hsizes.le s)
  have hcount : sizes.length ≤ 3 := hsizes.count_le
  have htotal : Runs.total sizes ≤ 64 := hsizes.total_le
  have hinfo := Runs.lt_length_of_locate hlocate
  have hhop := Runs.lt_total_of_locate hlocate
  obtain ⟨hfirst, hsecond, hthird⟩ := (SegmentLengths.describes_iff hd.count_le).mp hd
  exact ⟨by omega, by omega, hfirst ▸ hle 0, hsecond ▸ hle 1, hthird ▸ hle 2⟩

/-- Advancing moves to the next hop and to the segment that owns it. -/
theorem advance_of_locate (hd : h.lengths.Describes sizes) {s k : Nat}
    (hnext : Runs.locate sizes (h.currentHop.toNat + 1) = some (s, k)) :
    h.advance = .ok { h with
      currentInfo := UInt8.ofNat s
      currentHop := UInt8.ofNat (h.currentHop.toNat + 1) } := by
  rw [advance, hd.segmentOf?_eq, hnext]
  rfl

/-- What advancing gives is valid as soon as the lengths are, whatever the position was. -/
theorem fault?_of_advance (hlengths : h.lengths.fault? = none) {next : Header}
    (hadvance : h.advance = .ok next) : next.lengths = h.lengths ∧ next.fault? = none := by
  obtain ⟨sizes, hsizes, hd⟩ := SegmentLengths.fault?_eq_none_iff.mp hlengths
  cases hlocate : Runs.locate sizes (h.currentHop.toNat + 1) with
  | none => simp [advance, hd.segmentOf?_eq, hlocate] at hadvance
  | some found =>
    obtain ⟨s, k⟩ := found
    obtain rfl := Except.ok.inj ((advance_of_locate hd hlocate).symm.trans hadvance)
    -- neither index is cut down to a byte
    have hinfoByte := hsizes.toNat_ofNat_segment (Runs.lt_length_of_locate hlocate)
    have hhopByte := hsizes.toNat_ofNat_hop (Runs.lt_total_of_locate hlocate)
    have hposition := fault?_eq_none_iff_locate hsizes (h := { h with
      currentInfo := UInt8.ofNat s
      currentHop := UInt8.ofNat (h.currentHop.toNat + 1) }) hd
    refine ⟨rfl, hposition.mpr ⟨k, ?_⟩⟩
    change Runs.locate sizes (UInt8.ofNat (h.currentHop.toNat + 1)).toNat = _
    rw [hhopByte, hlocate, hinfoByte]

theorem advance_of_last (hd : h.lengths.Describes sizes)
    (hlast : Runs.total sizes ≤ h.currentHop.toNat + 1) :
    h.advance = .error (.exhausted (Runs.total sizes)) := by
  have hnone : Runs.locate sizes (h.currentHop.toNat + 1) = none :=
    Runs.locate_eq_none_iff.mpr hlast
  rw [advance, hd.segmentOf?_eq, hnone, hopCount, hd.hopCount_eq]
  rfl

theorem isLast_iff (hd : h.lengths.Describes sizes) :
    h.isLast = true ↔ Runs.total sizes ≤ h.currentHop.toNat + 1 := by
  rw [isLast, hopCount, hd.hopCount_eq, decide_eq_true_eq]

/-- The header of the path the other way round is valid, whatever the position was. -/
theorem fault?_reversed (hsizes : ValidSizes sizes) (hd : h.lengths.Describes sizes) :
    h.reversed.fault? = none := by
  rw [fault?_eq_none_iff_locate hsizes.reverse (hd.reversed hsizes)]
  exact ⟨0, Runs.locate_zero hsizes.reverse.ne_nil hsizes.reverse.pos⟩

end Navigation

/-- A valid header fits the bits of its wire form. -/
theorem fits_of_fault? {h : Header} (hfault : h.fault? = none) : h.Fits := by
  obtain ⟨sizes, hsizes, hd⟩ :=
    SegmentLengths.fault?_eq_none_iff.mp (fault?_eq_none_iff.mp hfault).1
  obtain ⟨k, hlocate⟩ := (fault?_eq_none_iff_locate hsizes hd).mp hfault
  exact fits_of_locate hsizes hd hlocate

theorem validate_eq_ok_iff {h next : Header} :
    h.validate = .ok next ↔ h = next ∧ h.fault? = none := by
  rw [validate]
  split
  next fault hfault => simp [hfault]
  next hnone => simp [hnone]

/-! ## Parsing -/

theorem parse_eq_ok_iff {b : Bytes} {h : Header} :
    parse b = .ok h ↔ size ≤ b.length ∧ h = read (b.take size) ∧ h.fault? = none ∧
      h.lengths.pathBytes ≤ b.length := by
  rw [parse]
  -- the three faults come in the order: too short, invalid, cut off
  split
  · simp only [reduceCtorEq, false_iff]
    omega
  · dsimp only
    split
    · simp only [reduceCtorEq, false_iff]
      rintro ⟨-, rfl, hnone, -⟩
      simp_all
    · split
      · simp only [reduceCtorEq, false_iff]
        rintro ⟨-, rfl, -, hle⟩
        omega
      · simp only [Except.ok.injEq]
        constructor
        · rintro rfl
          exact ⟨by omega, rfl, by assumption, by omega⟩
        · rintro ⟨-, rfl, -, -⟩
          rfl

end Header

end SourceRoute

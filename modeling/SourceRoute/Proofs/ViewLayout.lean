import SourceRoute.Proofs.ViewLaws

/-!
# The layout of a view

The records of a sound view lie side by side behind the header, the info fields first.  Every record
that the lengths call for is found by its index, no two of them share a byte, and they leave no byte
of the view out.
-/

namespace SourceRoute

/-! ## Spans in a row -/

namespace Span

/-- Whether no position lies in both spans. -/
def Disjoint (s t : Span) : Prop := ∀ i, i ∈ s → i ∉ t

theorem disjoint_of_le {s t : Span} (h : s.stop ≤ t.start) : s.Disjoint t := by
  intro i hs ht
  have hi : i < s.stop := hs.2
  have hi' : t.start ≤ i := ht.1
  omega

/-- Spans of one size, side by side from `start` on. -/
def row (start size count : Nat) : List Span :=
  (List.range count).map fun i => ofSize (start + i * size) size

theorem row_succ (start size count : Nat) :
    row start size (count + 1) = row start size count ++ [ofSize (start + count * size) size] := by
  rw [row, List.range_succ, List.map_append]
  rfl

theorem bounds_of_mem_row {start size count : Nat} {s : Span} (h : s ∈ row start size count) :
    start ≤ s.start ∧ s.start ≤ s.stop ∧ s.stop ≤ start + count * size := by
  induction count with
  | zero => simp [row] at h
  | succ count ih =>
    rw [row_succ, List.mem_append, List.mem_singleton] at h
    rw [Nat.succ_mul]
    -- the span is one of those before, or the new one at the end
    rcases h with h | rfl
    · obtain ⟨hstart, hle, hstop⟩ := ih h
      exact ⟨hstart, hle, by omega⟩
    · simp only [ofSize]
      omega

theorem pairwise_row (start size count : Nat) : (row start size count).Pairwise Disjoint := by
  induction count with
  | zero => exact List.Pairwise.nil
  | succ count ih =>
    rw [row_succ, List.pairwise_append]
    refine ⟨ih, List.pairwise_singleton .., ?_⟩
    -- the new span starts where the others end
    intro s hs t ht
    rw [List.mem_singleton.mp ht]
    exact disjoint_of_le (bounds_of_mem_row hs).2.2

/-- A row covers the positions from its start to its end. -/
theorem exists_mem_row_iff {start size count i : Nat} :
    (∃ s ∈ row start size count, i ∈ s) ↔ start ≤ i ∧ i < start + count * size := by
  induction count with
  | zero =>
    simp [row]
  | succ count ih =>
    have hlast : i ∈ ofSize (start + count * size) size ↔
        start + count * size ≤ i ∧ i < start + count * size + size := mem_iff
    simp only [row_succ, List.mem_append, List.mem_singleton, or_and_right, exists_or,
      exists_eq_left, ih, hlast, Nat.succ_mul]
    omega

end Span

namespace Bytes

theorem isSome_slice? {b : Bytes} {span : Span} (hle : span.start ≤ span.stop)
    (hstop : span.stop ≤ b.length) : (b.slice? span).isSome = true := by
  rw [slice?, if_pos ⟨hle, hstop⟩]
  rfl

end Bytes

namespace PathView

/-! ## Records side by side -/

/-- Where the records lie, info fields first. -/
def recordSpans (v : PathView) : List Span :=
  (List.range v.infoCount).filterMap v.infoSpan? ++ (List.range v.hopCount).filterMap v.hopSpan?

/-- The lengths are those of one to three segments without a gap and with at most 64 hops, and the
view holds as many records as they call for: each is found by its index, no two share a byte, and
together they cover all bytes behind the header. -/
structure Laid (v : PathView) : Prop where
  sizes : ∃ sizes, ValidSizes sizes ∧ v.lengths.Describes sizes
  length_eq : v.bytes.length = 4 + 8 * v.infoCount + 12 * v.hopCount
  isSome_info?_iff : ∀ i, (v.info? i).isSome = true ↔ i < v.infoCount
  isSome_hop?_iff : ∀ i, (v.hop? i).isSome = true ↔ i < v.hopCount
  disjoint : v.recordSpans.Pairwise Span.Disjoint
  inside : ∀ span ∈ v.recordSpans, (v.bytes.slice? span).isSome = true
  covered : ∀ i, (∃ span ∈ v.recordSpans, i ∈ span) ↔ 4 ≤ i ∧ i < v.bytes.length

private theorem filterMap_range_eq_map {α : Type} {f : Nat → Option α} {g : Nat → α} {n : Nat}
    (h : ∀ i < n, f i = some (g i)) : (List.range n).filterMap f = (List.range n).map g := by
  have hread := filterMap_range (f := f) (l := (List.range n).map g) fun i hi => by
    rw [List.length_map, List.length_range] at hi
    rw [h i hi, List.getElem?_map, List.getElem?_range hi]
    rfl
  rwa [List.length_map, List.length_range] at hread

section

variable {v : PathView} {head : Bytes} {infos : List InfoView} {hops : List HopView}

theorem MadeOf.recordSpans_eq (h : v.MadeOf head infos hops) :
    v.recordSpans = Span.row head.length InfoField.size infos.length ++
      Span.row (head ++ infos.flatMap InfoView.bytes).length HopField.size hops.length := by
  rw [recordSpans, h.infoCount_eq, h.hopCount_eq,
    filterMap_range_eq_map fun _ hi => h.infoSpan?_eq hi,
    filterMap_range_eq_map fun _ hi => h.hopSpan?_eq hi]
  rfl

theorem Sound.laid (h : v.Sound) : v.Laid := by
  have hmade := h.madeOf
  have hhead := hmade.length_head
  have hfront := hmade.length_front
  -- the hop fields start where the bytes of the info fields end
  have hinfos : v.lengths.infoBytes = v.infos.length * InfoField.size :=
    congrArg (· * InfoField.size) hmade.infoCount_eq
  have hlength := hmade.length_eq
  refine
    { sizes := h.exists_sizes
      length_eq := ?_
      isSome_info?_iff := ?_
      isSome_hop?_iff := ?_
      disjoint := ?_
      inside := ?_
      covered := ?_ }
  · rw [hlength, hfront, hinfos, hmade.infoCount_eq, hmade.hopCount_eq, Nat.mul_comm 8,
      Nat.mul_comm 12]
    rfl
  · intro i
    simp [hmade.info?_eq, hmade.infoCount_eq]
  · intro i
    simp [hmade.hop?_eq, hmade.hopCount_eq]
  · rw [hmade.recordSpans_eq, List.pairwise_append]
    refine ⟨Span.pairwise_row .., Span.pairwise_row .., ?_⟩
    -- the hop fields start where the info fields end
    intro s hs t ht
    have hs' := Span.bounds_of_mem_row hs
    have ht' := Span.bounds_of_mem_row ht
    exact Span.disjoint_of_le (by omega)
  · rw [hmade.recordSpans_eq]
    intro span hspan
    rcases List.mem_append.mp hspan with hspan | hspan
    · have hbounds := Span.bounds_of_mem_row hspan
      exact Bytes.isSome_slice? (by omega) (by omega)
    · have hbounds := Span.bounds_of_mem_row hspan
      exact Bytes.isSome_slice? (by omega) (by omega)
  · intro i
    have hsize : Header.size = 4 := rfl
    simp only [hmade.recordSpans_eq, List.mem_append, or_and_right, exists_or,
      Span.exists_mem_row_iff]
    omega

theorem mem_recordSpans_of_info {index : Nat} {span : Span}
    (hspan : v.infoSpan? index = some span) : span ∈ v.recordSpans := by
  have hindex : index < v.infoCount := (Option.ite_none_right_eq_some.mp hspan).1
  exact List.mem_append_left _ (List.mem_filterMap.mpr ⟨index, List.mem_range.mpr hindex, hspan⟩)

theorem mem_recordSpans_of_hop {index : Nat} {span : Span}
    (hspan : v.hopSpan? index = some span) : span ∈ v.recordSpans := by
  have hindex : index < v.hopCount := (Option.ite_none_right_eq_some.mp hspan).1
  exact List.mem_append_right _ (List.mem_filterMap.mpr ⟨index, List.mem_range.mpr hindex, hspan⟩)

theorem Sound.exists_slice (h : v.Sound) {span : Span} (hspan : span ∈ v.recordSpans) :
    ∃ part, v.bytes.slice? span = some part :=
  Option.isSome_iff_exists.mp (h.laid.inside span hspan)

end

end PathView

end SourceRoute

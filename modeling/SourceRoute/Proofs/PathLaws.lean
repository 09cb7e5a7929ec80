import SourceRoute.Path.Wire
import SourceRoute.Proofs.HeaderLaws

/-!
# Laws of owned paths

The hop fields of a path, taken as one list, are cut into segments by the segment sizes, so a path
is determined by its position, its info fields, its sizes and its hop fields.  A path has a wire
form exactly if its sizes are valid and its position names the segment that owns the current hop;
the wire form is then the bytes of the header, of the info fields and of the hop fields.
-/

namespace SourceRoute

/-! ## Records side by side -/

namespace Runs

theorem total_map_length {α : Type} (pieces : List (List α)) :
    total (pieces.map List.length) = pieces.flatten.length := by
  induction pieces with
  | nil => rfl
  | cons piece pieces ih => simp [ih]

end Runs

namespace Bytes

variable {α : Type}

theorem length_flatMap_bytes {bytes : α → Bytes} {size : Nat} {items : List α}
    (hsize : ∀ a ∈ items, (bytes a).length = size) :
    (items.flatMap bytes).length = items.length * size := by
  induction items with
  | nil => simp
  | cons a items ih =>
    have hrest := ih fun c hc => hsize c (List.mem_cons_of_mem _ hc)
    rw [List.flatMap_cons, List.length_append, hrest, hsize a List.mem_cons_self,
      List.length_cons, Nat.succ_mul]
    omega

/-- Records written side by side are their bytes side by side. -/
theorem writeRun_eq {size : Nat} {write : α → Bytes → Bytes} {bytes : α → Bytes}
    (hwrite : ∀ a c, c.length = size → write a c = bytes a) (items : List α) {b : Bytes}
    (hlength : items.length * size ≤ b.length) :
    writeRun size write items b = items.flatMap bytes ++ b.drop (items.length * size) := by
  -- the record in front takes the first bytes, and the others write over the rest
  induction items generalizing b with
  | nil => simp [writeRun]
  | cons a items ih =>
    rw [List.length_cons, Nat.succ_mul] at hlength ⊢
    have hfront : (b.take size).length = size := by
      rw [List.length_take]
      omega
    have hrest : items.length * size ≤ (b.drop size).length := by
      rw [List.length_drop]
      omega
    rw [writeRun, hwrite a _ hfront, ih hrest, List.flatMap_cons, List.append_assoc,
      List.drop_drop, Nat.add_comm size]

end Bytes

namespace Path

/-! ## Records of a path -/

theorem hops_eq_flatten (p : Path) : p.hops = (p.segments.map Segment.hops).flatten :=
  List.flatMap_def ..

theorem sizes_eq_map_length (p : Path) :
    p.sizes = (p.segments.map Segment.hops).map List.length := by
  rw [sizes, List.map_map]
  rfl

@[simp] theorem length_sizes (p : Path) : p.sizes.length = p.segments.length := by
  simp [sizes]

@[simp] theorem length_infos (p : Path) : p.infos.length = p.segments.length := by
  simp [infos]

@[simp] theorem length_hops (p : Path) : p.hops.length = p.hopCount := by
  rw [hopCount, sizes_eq_map_length, Runs.total_map_length, hops_eq_flatten]

theorem hop?_eq_getElem? (p : Path) (i : Nat) : p.hop? i = p.hops[i]? := by
  rw [hops, Runs.getElem?_flatMap]
  rfl

theorem info?_eq_getElem? (p : Path) (s : Nat) : p.info? s = p.infos[s]? := by
  rw [infos, List.getElem?_map]
  rfl

/-- The segments are the info fields with the pieces of the list of hop fields. -/
theorem segments_eq_zipWith (p : Path) :
    p.segments = List.zipWith Segment.mk p.infos (Runs.cut p.sizes p.hops) := by
  rw [sizes_eq_map_length, hops_eq_flatten, Runs.cut_flatten, infos, List.zipWith_map]
  simp

/-- Paths with the same position, the same info fields, the same sizes and the same hop fields are
equal. -/
theorem ext_records {p q : Path} (hinfo : p.currentInfo = q.currentInfo)
    (hhop : p.currentHop = q.currentHop) (hinfos : p.infos = q.infos) (hsizes : p.sizes = q.sizes)
    (hhops : p.hops = q.hops) : p = q := by
  have hsegments : p.segments = q.segments := by
    rw [segments_eq_zipWith p, segments_eq_zipWith q, hinfos, hsizes, hhops]
  cases p
  cases q
  simp_all

/-! ## Paths with a wire form -/

/-- The sizes are valid and the position names the segment that owns the current hop. -/
structure WellFormed (p : Path) : Prop where
  sizes : ValidSizes p.sizes
  position : ∃ k, Runs.locate p.sizes p.currentHop.toNat = some (p.currentInfo.toNat, k)

private theorem toNat_saturate {n : Nat} (h : n ≤ 255) : (saturate n).toNat = n := by
  rw [saturate, Nat.min_eq_left h, UInt8.toNat_ofNat']
  omega

/-- The header of a path describes its sizes if they are few and small. -/
theorem lengths_describes {p : Path} (hcount : p.sizes.length ≤ maxSegments)
    (hle : ∀ n ∈ p.sizes, n ≤ 255) : p.lengths.Describes p.sizes := by
  -- no size is so large that it would be cut down to a byte
  have hget (s : Nat) : (saturate (p.sizes.getD s 0)).toNat = p.sizes.getD s 0 :=
    toNat_saturate (Runs.getD_le hle s)
  rw [SegmentLengths.describes_iff hcount]
  exact ⟨hget 0, hget 1, hget 2⟩

theorem describes_of_validSizes {p : Path} (h : ValidSizes p.sizes) :
    p.lengths.Describes p.sizes :=
  lengths_describes h.count_le fun n hn => Nat.le_trans (h.le n hn) (by decide)

private theorem segment_structureFault?_eq_none_iff {s : Segment} :
    s.structureFault? = none ↔ 0 < s.size ∧ s.size ≤ maxSegmentLength := by
  rw [Segment.structureFault?]
  split
  · simp only [reduceCtorEq, false_iff]
    omega
  · split
    next hnil => simp [Segment.size, hnil]
    next hne =>
      have hpos : 0 < s.size := List.length_pos_iff.mpr hne
      simp only [true_iff]
      omega

/-- Nothing is wrong with the segments themselves if none is empty or too long. -/
theorem findSome?_structureFault?_eq_none_iff {p : Path} :
    p.segments.findSome? Segment.structureFault? = none ↔
      (∀ n ∈ p.sizes, 0 < n) ∧ ∀ n ∈ p.sizes, n ≤ maxSegmentLength := by
  simp only [List.findSome?_eq_none_iff, segment_structureFault?_eq_none_iff, Path.sizes,
    List.forall_mem_map]
  exact ⟨fun h => ⟨fun s hs => (h s hs).1, fun s hs => (h s hs).2⟩,
    fun h s hs => ⟨h.1 s hs, h.2 s hs⟩⟩

private theorem structureFault?_eq_none_iff_fault? {p : Path} :
    p.structureFault? = none ↔ ValidSizes p.sizes ∧ p.header.fault? = none := by
  rw [structureFault?]
  -- the checks up to the header are those that the sizes are valid
  split
  next hnil =>
    simp only [reduceCtorEq, false_iff, not_and]
    intro hsizes
    exact absurd (by simp [Path.sizes, hnil]) hsizes.ne_nil
  next hne =>
    split
    next hmany =>
      simp only [reduceCtorEq, false_iff, not_and]
      intro hsizes
      have hcount := hsizes.count_le
      rw [length_sizes] at hcount
      omega
    next hcount =>
      split
      next fault hfault =>
        simp only [reduceCtorEq, false_iff, not_and]
        intro hsizes
        rw [findSome?_structureFault?_eq_none_iff.mpr ⟨hsizes.pos, hsizes.le⟩] at hfault
        exact absurd hfault (by simp)
      next hnone =>
        obtain ⟨hpos, hle⟩ := findSome?_structureFault?_eq_none_iff.mp hnone
        split
        next htotal =>
          simp only [reduceCtorEq, false_iff, not_and]
          intro hsizes
          exact absurd hsizes.total_le (Nat.not_le.mpr htotal)
        next htotal =>
          have hsizes : ValidSizes p.sizes :=
            { ne_nil := by simpa [Path.sizes] using hne
              count_le := by
                rw [length_sizes]
                exact Nat.le_of_not_lt hcount
              pos := hpos
              le := hle
              total_le := Nat.le_of_not_lt htotal }
          simp [hsizes]

/-- Paths have a wire form exactly if they are well formed. -/
theorem structureFault?_eq_none_iff {p : Path} : p.structureFault? = none ↔ p.WellFormed := by
  rw [structureFault?_eq_none_iff_fault?]
  constructor
  · rintro ⟨hsizes, hfault⟩
    have hd := describes_of_validSizes hsizes
    exact ⟨hsizes, (Header.fault?_eq_none_iff_locate hsizes hd).mp hfault⟩
  · rintro ⟨hsizes, hposition⟩
    have hd := describes_of_validSizes hsizes
    exact ⟨hsizes, (Header.fault?_eq_none_iff_locate hsizes hd).mpr hposition⟩

/-- Sizes that a header can hold leave only the header itself to be checked. -/
theorem checkedHeader_eq_validate {p : Path} (h : ValidSizes p.sizes) :
    p.checkedHeader = p.header.validate := by
  have hcount := h.count_le
  rw [length_sizes] at hcount
  have hsmall : p.sizes.find? (255 < ·) = none := by
    rw [List.find?_eq_none]
    intro n hn
    have hle : n ≤ 63 := h.le n hn
    simp only [decide_eq_true_eq]
    omega
  rw [checkedHeader, if_neg (Nat.not_lt.mpr hcount), hsmall]

namespace WellFormed

variable {p : Path}

theorem describes (h : p.WellFormed) : p.lengths.Describes p.sizes :=
  describes_of_validSizes h.sizes

theorem fault?_header (h : p.WellFormed) : p.header.fault? = none :=
  (Header.fault?_eq_none_iff_locate h.sizes h.describes).mpr h.position

theorem fits (h : p.WellFormed) : p.header.Fits := by
  obtain ⟨k, hlocate⟩ := h.position
  exact Header.fits_of_locate h.sizes h.describes hlocate

/-- A well-formed path is described by its header. -/
theorem checkedHeader_eq (h : p.WellFormed) : p.checkedHeader = .ok p.header := by
  rw [checkedHeader_eq_validate h.sizes]
  exact Header.validate_eq_ok h.fault?_header

theorem infoCount_lengths (h : p.WellFormed) : p.lengths.infoCount = p.segments.length := by
  rw [h.describes.infoCount_eq h.sizes.pos, length_sizes]

theorem hopCount_lengths (h : p.WellFormed) : p.lengths.hopCount = p.hopCount :=
  h.describes.hopCount_eq

theorem currentHop_lt (h : p.WellFormed) : p.currentHop.toNat < p.hopCount := by
  obtain ⟨k, hlocate⟩ := h.position
  exact Runs.lt_total_of_locate hlocate

end WellFormed

/-! ## The wire form -/

/-- The bytes of the header, of the info fields and of the hop fields. -/
def bytes (p : Path) : Bytes :=
  p.header.bytes ++ p.infos.flatMap InfoField.bytes ++ p.hops.flatMap HopField.bytes

theorem length_bytes {p : Path} (h : p.WellFormed) : p.bytes.length = p.lengths.pathBytes := by
  rw [bytes, List.length_append, List.length_append, Header.length_bytes,
    Bytes.length_flatMap_bytes fun f _ => InfoField.length_bytes f,
    Bytes.length_flatMap_bytes fun f _ => HopField.length_bytes f, length_infos, length_hops,
    SegmentLengths.pathBytes, SegmentLengths.recordBytes, SegmentLengths.infoBytes,
    h.infoCount_lengths, h.hopCount_lengths, Nat.add_assoc]

/-- Writing a path replaces as many bytes as its wire form has, whatever they were. -/
theorem write_eq_bytes_append {p : Path} (h : p.WellFormed) {b : Bytes}
    (hlength : p.lengths.pathBytes ≤ b.length) :
    p.write b = p.bytes ++ b.drop p.lengths.pathBytes := by
  have hsize : p.lengths.pathBytes =
      Header.size + (p.infos.length * InfoField.size + p.hops.length * HopField.size) := by
    rw [SegmentLengths.pathBytes, SegmentLengths.recordBytes, SegmentLengths.infoBytes,
      h.infoCount_lengths, h.hopCount_lengths, length_infos, length_hops]
  -- the header first, then the two runs of records over what is behind it
  have hheader := Header.write_eq_bytes_append (b := b) (by omega) h.fits
  have hhead : (p.header.write b).take Header.size = p.header.bytes := by
    rw [hheader, List.take_left' p.header.length_bytes]
  have hrest : (p.header.write b).drop Header.size = b.drop Header.size := by
    rw [hheader, List.drop_left' p.header.length_bytes]
  have hinfos := Bytes.writeRun_eq (fun f c hc => InfoField.write_eq_bytes (b := c) hc f) p.infos
    (b := (b.drop Header.size).take (p.infos.length * InfoField.size))
    (by rw [List.length_take, List.length_drop]; omega)
  have hhops := Bytes.writeRun_eq (fun f c hc => HopField.write_eq_bytes (b := c) hc f) p.hops
    (b := (b.drop Header.size).drop (p.infos.length * InfoField.size))
    (by rw [List.length_drop, List.length_drop]; omega)
  rw [write, hhead, hrest, hinfos, hhops, hsize, bytes]
  simp [List.drop_drop, List.append_assoc, Nat.add_assoc]

/-- The encoding of a well-formed path. -/
theorem encode_eq {p : Path} (h : p.WellFormed) : Wire.encode p = .ok p.bytes := by
  have hfault : Wire.fault? p = none := structureFault?_eq_none_iff.mpr h
  have hlength : (List.replicate p.lengths.pathBytes (0 : UInt8)).length = p.lengths.pathBytes :=
    List.length_replicate
  -- the buffer has just the length of the wire form, so nothing of it is left
  have hwrite : p.write (List.replicate p.lengths.pathBytes 0) = p.bytes := by
    rw [write_eq_bytes_append h (Nat.le_of_eq hlength.symm)]
    simp
  have hinto : Wire.encodeInto p (List.replicate (Wire.size p) 0) =
      (.ok p.lengths.pathBytes, p.bytes) := by
    rw [Wire.encodeInto, hfault, ← hwrite]
    exact if_neg (Nat.not_lt.mpr (Nat.le_of_eq hlength.symm))
  rw [Wire.encode, hinto]

end Path

end SourceRoute

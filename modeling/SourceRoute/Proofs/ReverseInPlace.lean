import SourceRoute.Proofs.ViewRuns

/-!
# Turning round in place and turning the owned path

A path may be turned round inside a packet or as an owned value, and both give the same path.  In
the packet more is kept: the reserved byte of an info field, which no owned path has, goes along
with its record.  If no such byte is in use, the bytes are the wire form of the turned path.
-/

namespace SourceRoute

namespace BitRange

/-- A write keeps the bytes that hold no bit of its range. -/
theorem getElem?_set {w : Nat} {r : BitRange} (x : BitVec w) (b : Bytes) {i : Nat}
    (hi : i ∉ r.bytes) : (r.set x b)[i]? = b[i]? := by
  rw [set, write, List.getElem?_mapIdx]
  simp [hi]

end BitRange

/-! ## Reserved bits -/

/-- Turning an info field changes its first byte only. -/
theorem InfoView.getElem?_reversed (v : InfoView) {i : Nat} (hi : 0 < i) :
    v.reversed.bytes[i]? = v.bytes[i]? := by
  refine BitRange.getElem?_set _ _ fun hmem => ?_
  have hstop : i < 1 := hmem.2
  omega

/-- If the reserved byte is zero, clearing it changes nothing. -/
theorem InfoView.clear_reserved {v : InfoView} (hzero : v.bytes[1]? = some 0) :
    InfoField.Bits.reserved.set 0#8 v.bytes = v.bytes := by
  apply Bytes.ext_bit (BitRange.length_set ..)
  intro i _
  rw [Bool.eq_iff_iff, BitRange.bit_set_zero (by decide)]
  simp only [and_iff_left_iff_imp]
  -- a reserved bit that is set would be a bit of the second byte
  intro hbit hreserved
  have hbyte : i / 8 = 1 := by
    have hstart : 8 ≤ i := hreserved.1
    have hstop : i < 16 := hreserved.2
    omega
  rw [Bytes.bit, hbyte, List.getD_eq_getElem?_getD, hzero] at hbit
  simp at hbit

/-- The reserved bits of a header that was written are zero. -/
theorem Header.clear_reserved {h : Header} (hfits : h.Fits) :
    Header.Bits.reserved.set 0#8 h.bytes = h.bytes := by
  rw [← bytes_read h.length_bytes, read_bytes hfits]

namespace PathView

/-- The reserved byte of an info field, found by its place among the bytes. -/
def reservedByte? (v : PathView) (index : Nat) : Option UInt8 :=
  v.bytes[Header.size + index * InfoField.size + 1]?

section

variable {v : PathView} {head : Bytes} {infos : List InfoView} {hops : List HopView}

theorem MadeOf.reservedByte?_eq (h : v.MadeOf head infos hops) {i : Nat} {f : InfoView}
    (hf : infos[i]? = some f) : v.reservedByte? i = f.bytes[1]? := by
  obtain ⟨hi, rfl⟩ := List.getElem?_eq_some_iff.mp hf
  rw [Bytes.getElem?_of_slice? (h.slice?_info hi) (by rw [Span.size_ofSize]; decide),
    reservedByte?, ← h.length_head]
  rfl

theorem MadeOf.exists_info (h : v.MadeOf head infos hops) {i : Nat} (hi : i < v.infoCount) :
    ∃ f, infos[i]? = some f := by
  rw [h.infoCount_eq] at hi
  exact ⟨infos[i], List.getElem?_eq_getElem hi⟩

/-- The reserved byte of each info field goes along with its record. -/
theorem Sound.reservedByte?_reverse (h : v.Sound) {i : Nat} (hi : i < v.infoCount) :
    v.reverse.reservedByte? (v.infoCount - 1 - i) = v.reservedByte? i := by
  have hmade := h.madeOf
  obtain ⟨f, hf⟩ := hmade.exists_info hi
  rw [hmade.infoCount_eq] at hi ⊢
  -- the turned record is as far from the end as it was from the start
  have hreversed : (v.infos.reverse.map InfoView.reversed)[v.infos.length - 1 - i]? =
      some f.reversed := by
    rw [List.getElem?_map, List.getElem?_reverse (by omega)]
    have hindex : v.infos.length - 1 - (v.infos.length - 1 - i) = i := by omega
    rw [hindex, hf]
    rfl
  rw [h.madeOf_reverse.reservedByte?_eq hreversed, hmade.reservedByte?_eq hf,
    InfoView.getElem?_reversed f (by decide)]

/-- Without reserved bytes in use, the bytes of a view that was turned round are a wire form. -/
theorem Sound.bytes_reverse_eq (h : v.Sound)
    (hzero : ∀ i < v.infoCount, v.reservedByte? i = some 0) :
    v.reverse.bytes = v.toPath.reversed.bytes := by
  have hmade := h.madeOf
  have hmade' := h.madeOf_reverse
  -- a turned record has the reserved byte that it had before, which is zero
  have hinfos : ∀ f ∈ v.reverse.infos, InfoField.Bits.reserved.set 0#8 f.bytes = f.bytes := by
    rw [hmade'.infos_eq]
    simp only [List.mem_map, List.mem_reverse]
    rintro _ ⟨f, hf, rfl⟩
    obtain ⟨i, hi⟩ := List.mem_iff_getElem?.mp hf
    have hlt : i < v.infoCount := by
      rw [hmade.infoCount_eq]
      exact (List.getElem?_eq_some_iff.mp hi).1
    apply InfoView.clear_reserved
    rw [InfoView.getElem?_reversed f (by decide), ← hmade.reservedByte?_eq hi, hzero i hlt]
  -- the header is written anew and has no reserved bits in use
  have hfront : v.reverse.bytes.take Header.size = v.header.reversed.bytes := by
    rw [h.reverse_bytes, List.append_assoc, List.take_left' (Header.length_bytes _)]
  have hcleared : (v.reverse.infos.flatMap fun f => InfoField.Bits.reserved.set 0#8 f.bytes) =
      v.reverse.infos.flatMap InfoView.bytes := by
    rw [List.flatMap_def, List.flatMap_def]
    exact congrArg List.flatten (List.map_congr_left hinfos)
  -- a wire form is the bytes of a view with the reserved bits cleared
  rw [← h.toPath_reverse, h.sound_reverse.bytes_toPath, hfront,
    Header.clear_reserved h.fits_reversed, hcleared, hmade'.infos_eq, hmade'.hops_eq,
    h.reverse_bytes]

end

/-- Turning round in place and turning the owned path come to the same, for every accepted view and
whatever was done to it before.  The path in place keeps its length and gets a valid position, and
no byte behind it changes.  The reserved byte of an info field stays with its record; if all of them
are zero, the bytes are the wire form of the turned path. -/
theorem reverse_refines_reversed {b rest : Bytes} {accepted v : PathView}
    (haccept : ofBytes b = .ok (accepted, rest)) {edits : List Edit}
    (hv : v = accepted.after edits) :
    v.reverseByRuns? = some v.reverse ∧
      v.reverse.bytes.length = v.bytes.length ∧
      v.reverse.toPath = v.toPath.reversed ∧
      v.reverse.header.validate = .ok v.reverse.header ∧
      (v.reverse.bytes ++ rest).length = b.length ∧
      (∀ i, v.bytes.length ≤ i → (v.reverse.bytes ++ rest)[i]? = b[i]?) ∧
      (∀ i < v.infoCount,
        v.reverse.reservedByte? (v.infoCount - 1 - i) = v.reservedByte? i) ∧
      ((∀ i < v.infoCount, v.reservedByte? i = some 0) →
        Wire.encode v.toPath.reversed = .ok v.reverse.bytes) := by
  obtain ⟨rfl, haccepted, -⟩ := ofBytes_eq_ok_iff.mp haccept
  obtain ⟨hsound, hlength⟩ := haccepted.after edits
  rw [← hv] at hsound hlength
  have hreverse := hsound.length_reverse
  refine ⟨hsound.reverseByRuns?_eq, hreverse, hsound.toPath_reverse,
    Header.validate_eq_ok hsound.fault?_reverse, ?_, ?_, fun _ => hsound.reservedByte?_reverse, ?_⟩
  · rw [List.length_append, List.length_append, hreverse, hlength]
  · -- behind the view both buffers go on with the same bytes
    intro i hi
    rw [List.getElem?_append_right (by omega), List.getElem?_append_right (by omega), hreverse,
      hlength]
  · intro hzero
    rw [hsound.bytes_reverse_eq hzero]
    exact Path.encode_eq (Path.wellFormed_reversed hsound.validSizes_toPath)

/-- The case of two segments of one and two hops whose reserved bytes are in use, with two bytes
behind the path, after both indices were set out of range. -/
theorem reverse_refines_reversed_of_reserved :
    let hop : Bytes := [0, 63, 0, 4, 0, 5, 1, 2, 3, 4, 5, 6]
    let path : Bytes := [0, 0xfc, 0x10, 0x80] ++ [1, 0xab, 0, 7, 0, 0, 3, 0xe8] ++
      [0, 0xcd, 0, 9, 0, 0, 3, 0xe8] ++ hop ++ hop ++ hop
    let v := (PathView.mk path).after [.setCurrentInfo 3, .setCurrentHop 63]
    ofBytes (path ++ [9, 9]) = .ok (⟨path⟩, [9, 9]) ∧
      v.reverse.toPath = v.toPath.reversed ∧
      v.reverse.header.validate = .ok v.reverse.header ∧
      ∀ i < v.infoCount, v.reverse.reservedByte? (v.infoCount - 1 - i) = v.reservedByte? i := by
  intro hop path v
  have haccept : ofBytes (path ++ [9, 9]) = .ok (⟨path⟩, [9, 9]) := by decide
  obtain ⟨-, -, hpath, hvalid, -, -, hreserved, -⟩ := reverse_refines_reversed haccept (v := v) rfl
  exact ⟨haccept, hpath, hvalid, hreserved⟩

end PathView

end SourceRoute

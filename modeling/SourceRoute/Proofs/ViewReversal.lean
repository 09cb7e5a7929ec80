import SourceRoute.Proofs.PositionLaws
import SourceRoute.Proofs.Reversal

/-!
# Turning a path round in place

Turning a view round puts its turned records in the opposite order behind a new header.  Each record
is turned by setting single fields, so what it reads afterwards is the turned record, and the
reserved byte of an info field goes along with its segment.
-/

namespace SourceRoute

/-! ## Records -/

namespace InfoView

variable {v : InfoView}

/-- Turning an info field in place is turning what it reads. -/
theorem field_reversed (hlength : v.bytes.length = InfoField.size) :
    v.reversed.field = v.field.reversed := by
  have hflags (x : BitVec 8) : InfoField.Bits.flags.get 8 (InfoField.Bits.flags.set x v.bytes) = x :=
    BitRange.get_set_word (by decide) (by decide) (BitRange.inside_of_length hlength (by decide))
  have hother {w : Nat} {r : BitRange} (hr : r.byteCount ≤ 8)
      (hdisjoint : r.Disjoint InfoField.Bits.flags) (x : BitVec 8) :
      r.get w (InfoField.Bits.flags.set x v.bytes) = r.get w v.bytes :=
    BitRange.get_set_of_disjoint hr (by decide) hdisjoint x v.bytes
  simp only [field, reversed, edit, InfoField.read, InfoField.reversed, hflags,
    hother (r := InfoField.Bits.segmentId) (by decide) (by decide),
    hother (r := InfoField.Bits.timestamp) (by decide) (by decide)]

@[simp] theorem length_reversed (v : InfoView) : v.reversed.bytes.length = v.bytes.length :=
  BitRange.length_set ..

/-- The bytes of an info field, turned in place, are those of the turned info field. -/
theorem reversed_bytes (f : InfoField) : (InfoView.mk f.bytes).reversed = ⟨f.reversed.bytes⟩ := by
  have hlength : (InfoView.mk f.bytes).reversed.bytes.length = InfoField.size := by simp
  have hread : (InfoView.mk f.bytes).field = f := f.read_bytes
  have hfield : (InfoView.mk f.bytes).reversed.field = f.reversed := by
    rw [field_reversed (v := ⟨f.bytes⟩) f.length_bytes, hread]
  -- the reserved bits are zero before and after
  have hclear : InfoField.Bits.reserved.set 0#8 (InfoView.mk f.bytes).reversed.bytes =
      (InfoView.mk f.bytes).reversed.bytes := by
    have hbefore : InfoField.Bits.reserved.set 0#8 f.bytes = f.bytes := by
      rw [← InfoField.bytes_read f.length_bytes, InfoField.read_bytes]
    apply Bytes.ext_bit (by simp)
    intro i _
    rw [Bool.eq_iff_iff, BitRange.bit_set_zero (by decide)]
    simp only [and_iff_left_iff_imp]
    intro hbit hreserved
    have hold : Bytes.bit f.bytes i = true := by
      change Bytes.bit (InfoField.Bits.flags.set _ f.bytes) i = true at hbit
      rw [BitRange.bit_set (by decide), if_neg] at hbit
      · exact hbit
      · rintro ⟨hflags, -⟩
        have hstart : 8 ≤ i := hreserved.1
        have hstop : i < 8 := (BitRange.contains_iff.mp hflags).2
        omega
    rw [← hbefore, BitRange.bit_set_zero (by decide)] at hold
    exact hold.2 hreserved
  rw [← hfield, field, InfoField.bytes_read hlength, hclear]

end InfoView

namespace HopView

variable {v : HopView}

@[simp] theorem length_reversed (v : HopView) : v.reversed.bytes.length = v.bytes.length := by
  simp [reversed, edit]

/-- Turning a hop field in place is turning what it reads. -/
theorem field_reversed (hlength : v.bytes.length = HopField.size) :
    v.reversed.field = v.field.reversed := by
  have hinside {r : BitRange} (hr : r.stop ≤ 8 * HopField.size) : r.Inside v.bytes :=
    BitRange.inside_of_length hlength hr
  have hflags (x : BitVec 8) (y z : BitVec 16) : HopField.Bits.flags.get 8
      (HopField.Bits.flags.set x (HopField.Bits.egress.set y
        (HopField.Bits.ingress.set z v.bytes))) = x :=
    BitRange.get_set_word (by decide) (by decide) (by simp [hinside (r := HopField.Bits.flags)
      (by decide)])
  have hegress (y z : BitVec 16) : HopField.Bits.egress.get 16
      (HopField.Bits.egress.set y (HopField.Bits.ingress.set z v.bytes)) = y :=
    BitRange.get_set_word (by decide) (by decide) (by simp [hinside (r := HopField.Bits.egress)
      (by decide)])
  have hingress (z : BitVec 16) :
      HopField.Bits.ingress.get 16 (HopField.Bits.ingress.set z v.bytes) = z :=
    BitRange.get_set_word (by decide) (by decide) (hinside (by decide))
  simp (disch := decide) only [field, reversed, edit, HopField.read, HopField.reversed, hflags,
    BitRange.get_set_of_disjoint, hegress, hingress]

/-- The bytes of a hop field, turned in place, are those of the turned hop field. -/
theorem reversed_bytes (f : HopField) : (HopView.mk f.bytes).reversed = ⟨f.reversed.bytes⟩ := by
  have hlength : (HopView.mk f.bytes).reversed.bytes.length = HopField.size := by simp
  have hread : (HopView.mk f.bytes).field = f := f.read_bytes
  have hfield : (HopView.mk f.bytes).reversed.field = f.reversed := by
    rw [field_reversed (v := ⟨f.bytes⟩) f.length_bytes, hread]
  rw [← hfield, field, HopField.bytes_read hlength]

end HopView

/-! ## Whole paths -/

namespace Path

theorem infos_reversed (p : Path) : p.reversed.infos = p.infos.reverse.map InfoField.reversed := by
  simp only [infos, reversed, List.map_map, ← List.map_reverse]
  rfl

theorem hops_reversed (p : Path) : p.reversed.hops = p.hops.reverse.map HopField.reversed := by
  simp only [hops, reversed, List.flatMap_map, List.reverse_flatMap, List.map_flatMap]
  rfl

theorem header_reversed {p : Path} (hsizes : ValidSizes p.sizes) :
    p.reversed.header = p.header.reversed := by
  have hd := (describes_of_validSizes hsizes).reversed hsizes
  have hd' := describes_of_validSizes (wellFormed_reversed hsizes).sizes
  rw [sizes_reversed] at hd'
  have hlengths : p.reversed.lengths = p.lengths.reversed := hd'.unique hd
  rw [header, hlengths]
  rfl

end Path

namespace PathView

variable {v : PathView}

theorem Sound.fits_reversed (h : v.Sound) : v.header.reversed.Fits := by
  obtain ⟨sizes, hsizes, hd⟩ := h.exists_sizes
  have hvalid := hsizes.reverse
  exact Header.fits_of_locate hvalid (hd.reversed hsizes)
    (Runs.locate_zero hvalid.ne_nil hvalid.pos)

/-- The bytes of a view that was turned round. -/
theorem Sound.reverse_bytes (h : v.Sound) :
    v.reverse.bytes = v.header.reversed.bytes ++
      (v.infos.reverse.map InfoView.reversed).flatMap InfoView.bytes ++
      (v.hops.reverse.map HopView.reversed).flatMap HopView.bytes := by
  have hhead := h.madeOf.length_head
  rw [reverse, List.append_assoc, Header.write_append hhead,
    Header.write_eq_bytes hhead h.fits_reversed, List.append_assoc]

theorem Sound.header_reverse (h : v.Sound) : v.reverse.header = v.header.reversed := by
  rw [header, h.reverse_bytes, List.append_assoc, Header.read_append (Header.length_bytes _),
    Header.read_bytes h.fits_reversed]

theorem Sound.describes_reverse (h : v.Sound) {sizes : List Nat} (hsizes : ValidSizes sizes)
    (hd : v.lengths.Describes sizes) : v.reverse.lengths.Describes sizes.reverse := by
  rw [PathView.lengths, h.header_reverse]
  exact hd.reversed hsizes

/-- The position of a view that was turned round is valid, whatever it was before. -/
theorem Sound.fault?_reverse (h : v.Sound) : v.reverse.header.fault? = none := by
  obtain ⟨sizes, hsizes, hd⟩ := h.exists_sizes
  rw [h.header_reverse]
  exact Header.fault?_reversed hsizes hd

/-- A view that was turned round is made of its turned records, in the opposite order. -/
theorem Sound.madeOf_reverse (h : v.Sound) : v.reverse.MadeOf v.header.reversed.bytes
    (v.infos.reverse.map InfoView.reversed) (v.hops.reverse.map HopView.reversed) := by
  obtain ⟨sizes, hsizes, hd⟩ := h.exists_sizes
  have hmade := h.madeOf
  have hd' := h.describes_reverse hsizes hd
  refine
    { bytes_eq := h.reverse_bytes
      length_head := Header.length_bytes _
      length_info := ?_
      length_hop := ?_
      infoCount_eq := ?_
      hopCount_eq := ?_ }
  · simp only [List.mem_map, List.mem_reverse]
    rintro _ ⟨f, hf, rfl⟩
    rw [InfoView.length_reversed, hmade.length_info f hf]
  · simp only [List.mem_map, List.mem_reverse]
    rintro _ ⟨f, hf, rfl⟩
    rw [HopView.length_reversed, hmade.length_hop f hf]
  -- as many records are called for as before
  · rw [List.length_map, List.length_reverse, ← hmade.infoCount_eq, infoCount, infoCount,
      hd'.infoCount_eq hsizes.reverse.pos, hd.infoCount_eq hsizes.pos, List.length_reverse]
  · rw [List.length_map, List.length_reverse, ← hmade.hopCount_eq, hopCount, hopCount,
      hd'.hopCount_eq, hd.hopCount_eq, Runs.total_reverse]

theorem Sound.sound_reverse (h : v.Sound) : v.reverse.Sound :=
  h.madeOf_reverse.sound (Header.fault?_eq_none_iff.mp h.fault?_reverse).1

theorem Sound.length_reverse (h : v.Sound) : v.reverse.bytes.length = v.bytes.length := by
  have hmade := h.madeOf
  have hmade' := h.madeOf_reverse
  rw [hmade'.bytes_eq]
  conv => rhs; rw [hmade.bytes_eq]
  simp only [List.length_append, hmade.length_head, hmade'.length_head,
    Bytes.length_flatMap_bytes hmade.length_info, Bytes.length_flatMap_bytes hmade'.length_info,
    Bytes.length_flatMap_bytes hmade.length_hop, Bytes.length_flatMap_bytes hmade'.length_hop,
    List.length_map, List.length_reverse]

/-- Turning a view round is turning the owned path round. -/
theorem Sound.toPath_reverse (h : v.Sound) : v.reverse.toPath = v.toPath.reversed := by
  obtain ⟨sizes, hsizes, hd⟩ := h.exists_sizes
  have hmade := h.madeOf
  have hmade' := h.madeOf_reverse
  have hsound := h.sound_reverse
  have hd' := h.describes_reverse hsizes hd
  -- the position is the first one, and the records are turned one by one
  apply Path.ext_records
  · exact congrArg Header.currentInfo h.header_reverse
  · exact congrArg Header.currentHop h.header_reverse
  · rw [hsound.infos_toPath, hmade'.infos_eq, Path.infos_reversed, h.infos_toPath,
      ← List.map_reverse, List.map_map, List.map_map]
    exact List.map_congr_left fun f hf =>
      InfoView.field_reversed (hmade.length_info f (List.mem_reverse.mp hf))
  · rw [hsound.sizes_toPath hsizes.reverse hd', Path.sizes_reversed, h.sizes_toPath hsizes hd]
  · rw [hsound.hops_toPath, hmade'.hops_eq, Path.hops_reversed, h.hops_toPath,
      ← List.map_reverse, List.map_map, List.map_map]
    exact List.map_congr_left fun f hf =>
      HopView.field_reversed (hmade.length_hop f (List.mem_reverse.mp hf))

/-- Turning the wire form of a path round gives the wire form of the path the other way round. -/
theorem reverse_bytes_eq {p : Path} (hp : p.WellFormed) :
    (PathView.mk p.bytes).reverse.bytes = p.reversed.bytes := by
  rw [hp.sound.reverse_bytes, hp.header_view, hp.madeOf.infos_eq, hp.madeOf.hops_eq, Path.bytes,
    Path.header_reversed hp.sizes, Path.infos_reversed, Path.hops_reversed]
  simp only [← List.map_reverse, List.map_map, List.flatMap_map]
  simp only [Function.comp_def, InfoView.reversed_bytes, HopView.reversed_bytes]

end PathView

end SourceRoute

import SourceRoute.Proofs.ReverseInPlace

/-!
# Turning round twice

Each part of turning a path round undoes itself: flags, interfaces, the order of hops and that of
segments.  So a path that is turned round twice is the same path at its first hop.  Inside a packet
the same holds byte by byte: turning round twice is moving to the first hop and clearing the reserved
bits of the header.
-/

namespace SourceRoute

/-- Turning the items of a list and their order twice gives the list back. -/
theorem map_reverse_map_reverse {α : Type} {f : α → α} {l : List α} (h : ∀ a ∈ l, f (f a) = a) :
    (l.reverse.map f).reverse.map f = l := by
  rw [← List.map_reverse, List.reverse_reverse, List.map_map]
  exact (List.map_congr_left h).trans (List.map_id l)

/-! ## Flags -/

@[simp] theorem InfoFlags.flipConsDir_flipConsDir (f : InfoFlags) :
    f.flipConsDir.flipConsDir = f := by
  have hxor : f.bits ^^^ consDirBit ^^^ consDirBit = f.bits := by
    rw [UInt8.xor_assoc, UInt8.xor_self, UInt8.xor_zero]
  rw [flipConsDir, flipConsDir, hxor]

/-- Exchanging both alerts twice gives the flag byte back, the bits without meaning included. -/
@[simp] theorem HopFlags.swapAlerts_swapAlerts (f : HopFlags) : f.swapAlerts.swapAlerts = f := by
  obtain ⟨⟨x⟩⟩ := f
  revert x
  decide +kernel

/-! ## Owned paths -/

@[simp] theorem InfoField.reversed_reversed (f : InfoField) : f.reversed.reversed = f := by
  rw [reversed, reversed, InfoFlags.flipConsDir_flipConsDir]

@[simp] theorem HopField.reversed_reversed (h : HopField) : h.reversed.reversed = h := by
  rw [reversed, reversed, HopFlags.swapAlerts_swapAlerts]

@[simp] theorem Segment.reversed_reversed (s : Segment) : s.reversed.reversed = s := by
  rw [reversed, reversed, InfoField.reversed_reversed,
    map_reverse_map_reverse fun h _ => h.reversed_reversed]

/-- A path that is turned round twice is the same path at its first hop. -/
theorem Path.reversed_reversed (p : Path) :
    p.reversed.reversed = { p with currentInfo := 0, currentHop := 0 } := by
  rw [reversed, reversed, map_reverse_map_reverse fun s _ => s.reversed_reversed]

/-! ## Headers and records in place -/

theorem Header.reversed_reversed {h : Header} (hlengths : h.lengths.fault? = none) :
    h.reversed.reversed = h.atStart := by
  obtain ⟨sizes, hsizes, hd⟩ := SegmentLengths.fault?_eq_none_iff.mp hlengths
  have htwice := (hd.reversed hsizes).reversed hsizes.reverse
  rw [List.reverse_reverse] at htwice
  rw [reversed, reversed, atStart, htwice.unique hd]

theorem InfoView.reversed_reversed {v : InfoView} (hlength : v.bytes.length = InfoField.size) :
    v.reversed.reversed = v := by
  have hflags : v.reversed.field.flags = v.field.flags.flipConsDir :=
    congrArg InfoField.flags (field_reversed hlength)
  have hkept : InfoField.Bits.flags.set v.field.flags.bits.toBitVec v.bytes = v.bytes :=
    BitRange.set_get (by decide) (by decide) v.bytes
  -- the second write replaces the first one, with the flags that were there before
  rw [reversed, hflags, InfoFlags.flipConsDir_flipConsDir, reversed, edit, edit]
  exact congrArg InfoView.mk ((BitRange.set_set (by decide) _ _ _).trans hkept)

theorem HopView.reversed_reversed {v : HopView} (hlength : v.bytes.length = HopField.size) :
    v.reversed.reversed = v := by
  have hlength' : v.reversed.bytes.length = HopField.size := (length_reversed v).trans hlength
  have hlength'' : v.reversed.reversed.bytes.length = HopField.size :=
    (length_reversed _).trans hlength'
  have hfield : v.reversed.reversed.field = v.field := by
    rw [field_reversed hlength', field_reversed hlength, HopField.reversed_reversed]
  -- a hop field has no bits but those that are read
  have hbytes := congrArg HopField.bytes hfield
  rw [field, field, HopField.bytes_read hlength'', HopField.bytes_read hlength] at hbytes
  exact congrArg HopView.mk hbytes

/-! ## Paths in place -/

namespace PathView

variable {v : PathView}

theorem Sound.infos_reverse_reverse (h : v.Sound) : v.reverse.reverse.infos = v.infos := by
  rw [h.sound_reverse.madeOf_reverse.infos_eq, h.madeOf_reverse.infos_eq]
  exact map_reverse_map_reverse fun f hf => InfoView.reversed_reversed (h.madeOf.length_info f hf)

theorem Sound.hops_reverse_reverse (h : v.Sound) : v.reverse.reverse.hops = v.hops := by
  rw [h.sound_reverse.madeOf_reverse.hops_eq, h.madeOf_reverse.hops_eq]
  exact map_reverse_map_reverse fun f hf => HopView.reversed_reversed (h.madeOf.length_hop f hf)

theorem Sound.header_reverse_reverse (h : v.Sound) :
    v.reverse.reverse.header = v.header.atStart := by
  rw [h.sound_reverse.header_reverse, h.header_reverse, Header.reversed_reversed h.lengths]

/-- Turning round twice is moving to the first hop and clearing the reserved bits of the header. -/
theorem Sound.reverse_reverse (h : v.Sound) : v.reverse.reverse =
    ⟨Header.Bits.reserved.set 0#8 (v.moveTo v.header.atStart).bytes⟩ := by
  have hsame := h.sameRecords_moveTo v.header.atStart
  have hmoved := hsame.madeOf h
  have hfits : v.header.atStart.Fits := by
    rw [← h.header_reverse_reverse]
    exact Header.fits_of_fault? h.sound_reverse.fault?_reverse
  have hheader : (v.moveTo v.header.atStart).header = v.header.atStart :=
    h.header_moveTo rfl hfits
  -- the first four bytes are what the header of the first hop writes
  have hfront : Header.Bits.reserved.set 0#8 ((v.moveTo v.header.atStart).bytes.take Header.size) =
      v.header.atStart.bytes := by
    rw [← Header.bytes_read hmoved.length_head, ← hmoved.header_eq, hheader]
  have hturned : v.reverse.reverse.bytes = v.header.atStart.bytes ++
      v.infos.flatMap InfoView.bytes ++ v.hops.flatMap HopView.bytes := by
    have hmade := h.sound_reverse.madeOf_reverse
    rw [hmade.bytes_eq, ← hmade.infos_eq, ← hmade.hops_eq, h.infos_reverse_reverse,
      h.hops_reverse_reverse, h.header_reverse, Header.reversed_reversed h.lengths]
  have hcleared : Header.Bits.reserved.set 0#8 (v.moveTo v.header.atStart).bytes =
      v.header.atStart.bytes ++ v.infos.flatMap InfoView.bytes ++ v.hops.flatMap HopView.bytes := by
    conv => lhs; rw [hmoved.bytes_eq]
    rw [List.append_assoc, BitRange.set_append (by decide)
      (BitRange.inside_of_length hmoved.length_head (by decide)), hfront, List.append_assoc]
  rw [hcleared, ← hturned]

/-- Turning round twice clears the two indices and the reserved bits behind them, and no other bit. -/
theorem Sound.bit_reverse_reverse (h : v.Sound) (i : Nat) :
    Bytes.bit v.reverse.reverse.bytes i = true ↔ Bytes.bit v.bytes i = true ∧ 14 ≤ i := by
  rw [h.reverse_reverse]
  change Bytes.bit (Header.Bits.reserved.set 0#8 (Header.Bits.currentHop.set 0#8
    (Header.Bits.currentInfo.set 0#8 v.bytes))) i = true ↔ _
  rw [BitRange.bit_set_zero (by decide), BitRange.bit_set_zero (by decide),
    BitRange.bit_set_zero (by decide)]
  simp only [Header.Bits.reserved, Header.Bits.currentHop, Header.Bits.currentInfo,
    BitRange.start_ofWidth, BitRange.stop_ofWidth]
  -- the three ranges follow each other
  constructor
  · rintro ⟨⟨⟨hbit, hinfo⟩, hhop⟩, hreserved⟩
    exact ⟨hbit, by omega⟩
  · rintro ⟨hbit, hi⟩
    exact ⟨⟨⟨hbit, by omega⟩, by omega⟩, by omega⟩

/-- In particular the first byte becomes zero. -/
theorem Sound.first_reverse_reverse (h : v.Sound) : v.reverse.reverse.bytes[0]? = some 0 := by
  have hlength : 0 < v.reverse.reverse.bytes.length :=
    Nat.lt_of_lt_of_le (by decide) h.sound_reverse.sound_reverse.size_le
  rw [List.getElem?_eq_getElem hlength, Option.some.injEq, ← UInt8.toBitVec_inj]
  apply BitVec.eq_of_getLsbD_eq
  intro j hj
  rw [← Bytes.bit_eq_getLsbD hlength hj]
  have hcleared : ¬ Bytes.bit v.reverse.reverse.bytes (8 * 0 + (7 - j)) = true := by
    rw [h.bit_reverse_reverse]
    omega
  simpa using hcleared

end PathView

/-- Turning round undoes itself up to the position.  Every path that is turned round twice is the
same path at its first hop; turned round once it has the same sizes in the opposite order, and a wire
form if it had one.  An accepted view, whatever was done to it before, can be turned round twice
inside its bytes.  Then its first byte is zero, its records are the same byte for byte, and of all
bits only those of the position and the reserved ones of the header have been cleared. -/
theorem reversed_twice_up_to_position :
    (∀ p : Path, p.reversed.reversed = { p with currentInfo := 0, currentHop := 0 } ∧
      p.reversed.sizes = p.sizes.reverse ∧
      (p.structureFault? = none → p.reversed.structureFault? = none)) ∧
    ∀ (b rest : Bytes) (accepted v : PathView) (edits : List PathView.Edit),
      PathView.ofBytes b = .ok (accepted, rest) → v = accepted.after edits →
      v.reverseByRuns?.bind PathView.reverseByRuns? = some v.reverse.reverse ∧
      v.reverse.reverse.bytes.length = v.bytes.length ∧
      v.reverse.reverse.bytes[0]? = some 0 ∧
      v.reverse.reverse.infos = v.infos ∧ v.reverse.reverse.hops = v.hops ∧
      ∀ i, Bytes.bit v.reverse.reverse.bytes i = true ↔ Bytes.bit v.bytes i = true ∧ 14 ≤ i := by
  constructor
  · intro p
    refine ⟨p.reversed_reversed, p.sizes_reversed, fun hwire => ?_⟩
    have hsizes := (Path.structureFault?_eq_none_iff.mp hwire).sizes
    exact Path.structureFault?_eq_none_iff.mpr (Path.wellFormed_reversed hsizes)
  · rintro b rest accepted v edits haccept rfl
    obtain ⟨-, haccepted, -⟩ := PathView.ofBytes_eq_ok_iff.mp haccept
    have hsound := (haccepted.after edits).1
    refine ⟨?_, hsound.sound_reverse.length_reverse.trans hsound.length_reverse,
      hsound.first_reverse_reverse, hsound.infos_reverse_reverse, hsound.hops_reverse_reverse,
      hsound.bit_reverse_reverse⟩
    rw [hsound.reverseByRuns?_eq, Option.bind_some, hsound.sound_reverse.reverseByRuns?_eq]

end SourceRoute

import SourceRoute.Proofs.Codec
import SourceRoute.View.Edit

/-!
# Laws of the position

`placedAt` puts a path at a hop, in the segment that owns the hop.  Every well-formed path is placed
at its current hop, and advancing places it at the next one.  In place, the two indices of the
position are bits of the first byte, so setting them leaves all records as they are.
-/

namespace SourceRoute

/-! ## Owned paths at a hop -/

namespace Path

/-- The path at a hop, in the segment that owns it. -/
def placedAt (p : Path) (hop : Nat) : Path where
  currentInfo := UInt8.ofNat (((p.locate? hop).map Prod.fst).getD 0)
  currentHop := UInt8.ofNat hop
  segments := p.segments

@[simp] theorem segments_placedAt (p : Path) (i : Nat) : (p.placedAt i).segments = p.segments := rfl

@[simp] theorem sizes_placedAt (p : Path) (i : Nat) : (p.placedAt i).sizes = p.sizes := rfl

@[simp] theorem hopCount_placedAt (p : Path) (i : Nat) : (p.placedAt i).hopCount = p.hopCount := rfl

@[simp] theorem lengths_placedAt (p : Path) (i : Nat) : (p.placedAt i).lengths = p.lengths := rfl

@[simp] theorem placedAt_placedAt (p : Path) (i j : Nat) :
    (p.placedAt i).placedAt j = p.placedAt j := rfl

section

variable {p : Path} {i s k : Nat}

theorem currentHop_placedAt (hsizes : ValidSizes p.sizes) (hi : i < p.hopCount) :
    (p.placedAt i).currentHop.toNat = i :=
  hsizes.toNat_ofNat_hop hi

theorem currentInfo_placedAt (hsizes : ValidSizes p.sizes) (hlocate : p.locate? i = some (s, k)) :
    (p.placedAt i).currentInfo.toNat = s := by
  rw [placedAt, hlocate]
  exact hsizes.toNat_ofNat_segment (Runs.lt_length_of_locate hlocate)

theorem wellFormed_placedAt (hsizes : ValidSizes p.sizes) (hi : i < p.hopCount) :
    (p.placedAt i).WellFormed where
  sizes := hsizes
  position := by
    obtain ⟨s, k, hlocate⟩ := Runs.exists_locate hi
    refine ⟨k, ?_⟩
    rw [currentHop_placedAt hsizes hi, currentInfo_placedAt hsizes hlocate]
    exact hlocate

namespace WellFormed

/-- A well-formed path is placed at its current hop. -/
theorem placedAt_currentHop (h : p.WellFormed) : p.placedAt p.currentHop.toNat = p := by
  obtain ⟨k, hlocate⟩ := h.position
  have hinfo : ((p.locate? p.currentHop.toNat).map Prod.fst).getD 0 = p.currentInfo.toNat := by
    rw [locate?, hlocate]
    rfl
  rw [placedAt, hinfo, UInt8.ofNat_toNat, UInt8.ofNat_toNat]

/-- Advancing places the path at the next hop. -/
theorem advance_of_lt (h : p.WellFormed) (hnext : p.currentHop.toNat + 1 < p.hopCount) :
    p.advance = .ok (p.placedAt (p.currentHop.toNat + 1)) := by
  obtain ⟨s, k, hlocate⟩ := Runs.exists_locate hnext
  have hadvance := Header.advance_of_locate (h := p.header) h.describes hlocate
  -- the header that advancing gives is the one of the placed path
  have hplaced : p.placedAt (p.currentHop.toNat + 1) =
      ⟨UInt8.ofNat s, UInt8.ofNat (p.currentHop.toNat + 1), p.segments⟩ := by
    rw [placedAt, locate?, hlocate]
    rfl
  rw [advance, h.checkedHeader_eq]
  simp only [hadvance, hplaced]
  rfl

/-- There is nowhere to go from the last hop. -/
theorem advance_of_last (h : p.WellFormed) (hlast : p.hopCount ≤ p.currentHop.toNat + 1) :
    p.advance = .error (.exhausted p.hopCount) := by
  have hadvance := Header.advance_of_last (h := p.header) h.describes hlast
  rw [advance, h.checkedHeader_eq]
  simp only [hadvance]
  rfl

end WellFormed

end

end Path

/-! ## Views at a position -/

namespace PathView

/-- Whether two views have the same segment lengths and the same bytes behind the header. -/
structure SameRecords (v w : PathView) : Prop where
  lengths_eq : w.lengths = v.lengths
  length_eq : w.bytes.length = v.bytes.length
  drop_eq : w.bytes.drop Header.size = v.bytes.drop Header.size

namespace SameRecords

variable {v w u : PathView}

theorem trans (h : v.SameRecords w) (h' : w.SameRecords u) : v.SameRecords u where
  lengths_eq := h'.lengths_eq.trans h.lengths_eq
  length_eq := h'.length_eq.trans h.length_eq
  drop_eq := h'.drop_eq.trans h.drop_eq

theorem sound (h : v.SameRecords w) (hsound : v.Sound) : w.Sound where
  lengths := by
    rw [h.lengths_eq]
    exact hsound.lengths
  length_eq := by
    rw [h.lengths_eq, h.length_eq]
    exact hsound.length_eq

theorem madeOf (h : v.SameRecords w) (hsound : v.Sound) :
    w.MadeOf (w.bytes.take Header.size) v.infos v.hops := by
  have hmade := hsound.madeOf
  refine
    { bytes_eq := ?_
      length_head := (h.sound hsound).madeOf.length_head
      length_info := hmade.length_info
      length_hop := hmade.length_hop
      infoCount_eq := ?_
      hopCount_eq := ?_ }
  · have hrest : v.bytes.drop Header.size =
        v.infos.flatMap InfoView.bytes ++ v.hops.flatMap HopView.bytes := by
      conv => lhs; rw [hmade.bytes_eq]
      rw [List.append_assoc, List.drop_left' hmade.length_head]
    rw [List.append_assoc, ← hrest, ← h.drop_eq, List.take_append_drop]
  · rw [infoCount, h.lengths_eq]
    exact hmade.infoCount_eq
  · rw [hopCount, h.lengths_eq]
    exact hmade.hopCount_eq

/-- Behind the header, views with the same records have the same bytes. -/
theorem getElem?_eq (h : v.SameRecords w) {i : Nat} (hi : Header.size ≤ i) :
    w.bytes[i]? = v.bytes[i]? := by
  have hdrop := congrArg (·[i - Header.size]?) h.drop_eq
  simpa only [List.getElem?_drop, Nat.add_sub_cancel' hi] using hdrop

/-- Views with the same records stand for paths with the same segments. -/
theorem segments_toPath (h : v.SameRecords w) (hsound : v.Sound) :
    w.toPath.segments = v.toPath.segments := by
  have hmade := h.madeOf hsound
  -- a segment is read from the records and the lengths alone
  have hinfo : w.info? = v.info? := by
    funext s
    rw [hmade.info?_eq, hsound.madeOf.info?_eq]
  have hhop : w.hop? = v.hop? := by
    funext i
    rw [hmade.hop?_eq, hsound.madeOf.hop?_eq]
  have hsegment : w.segment? = v.segment? := by
    funext s
    rw [segment?, segment?, hinfo, hhop, h.lengths_eq]
  change (List.range w.infoCount).filterMap w.segment? = _
  rw [infoCount, h.lengths_eq, hsegment]
  rfl

end SameRecords

/-- Setting bits of the header other than the segment lengths leaves the records as they are. -/
private theorem sameRecords_set {r : BitRange} (hsize : r.byteCount ≤ 8)
    (hfirst : Header.Bits.first.Disjoint r) (hsecond : Header.Bits.second.Disjoint r)
    (hthird : Header.Bits.third.Disjoint r) (hstop : r.stop ≤ 32) {v : PathView}
    (hlength : Header.size ≤ v.bytes.length) (x : BitVec 8) : v.SameRecords ⟨r.set x v.bytes⟩ where
  lengths_eq := by
    simp only [lengths, header, Header.read, BitRange.get_set_of_disjoint (by decide) hsize hfirst,
      BitRange.get_set_of_disjoint (by decide) hsize hsecond,
      BitRange.get_set_of_disjoint (by decide) hsize hthird]
  length_eq := BitRange.length_set ..
  -- the range ends before the records start
  drop_eq := by
    change (r.set x v.bytes).drop Header.size = _
    rw [BitRange.set_eq_append hsize hstop hlength]
    exact List.drop_left' (by rw [BitRange.length_set, List.length_take_of_le hlength])

theorem Sound.size_le {v : PathView} (h : v.Sound) : Header.size ≤ v.bytes.length := by
  rw [h.length_eq]
  exact Nat.le_add_right _ _

section Position

variable {v : PathView}

theorem Sound.sameRecords_setCurrentInfo (h : v.Sound) (index : UInt8) :
    v.SameRecords (v.setCurrentInfo index) :=
  sameRecords_set (by decide) (by decide) (by decide) (by decide) (by decide) h.size_le _

theorem Sound.sameRecords_setCurrentHop (h : v.Sound) (index : UInt8) :
    v.SameRecords (v.setCurrentHop index) :=
  sameRecords_set (by decide) (by decide) (by decide) (by decide) (by decide) h.size_le _

/-- Moving keeps the records. -/
theorem Sound.sameRecords_moveTo (h : v.Sound) (next : Header) : v.SameRecords (v.moveTo next) := by
  have hinfo := h.sameRecords_setCurrentInfo next.currentInfo
  exact hinfo.trans ((hinfo.sound h).sameRecords_setCurrentHop next.currentHop)

/-- Moving changes the first byte only. -/
theorem moveTo_cons (byte : UInt8) (bytes : Bytes) (next : Header) :
    (PathView.mk (byte :: bytes)).moveTo next =
      ⟨((PathView.mk [byte]).moveTo next).bytes ++ bytes⟩ := by
  -- both indices are bits of the first byte
  have hset {r : BitRange} (hr : r.byteCount ≤ 8 ∧ r.stop ≤ 8 * 1) (x : BitVec 8) {c : Bytes}
      (hc : c.length = 1) : r.set x (c ++ bytes) = r.set x c ++ bytes :=
    BitRange.set_append hr.1 (BitRange.inside_of_length hc hr.2) x
  rw [← List.singleton_append, moveTo, setCurrentInfo, setCurrentHop,
    hset (by decide) _ (by simp), hset (by decide) _ (by simp)]
  rfl

theorem length_moveTo (v : PathView) (next : Header) :
    (v.moveTo next).bytes.length = v.bytes.length := by
  simp [moveTo, setCurrentInfo, setCurrentHop]

theorem getElem?_moveTo (v : PathView) (next : Header) {i : Nat} (hi : 0 < i) :
    (v.moveTo next).bytes[i]? = v.bytes[i]? := by
  obtain ⟨bytes⟩ := v
  cases bytes with
  | nil =>
    have hnil : ((PathView.mk []).moveTo next).bytes = [] :=
      List.eq_nil_of_length_eq_zero (length_moveTo _ _)
    rw [hnil]
  | cons byte bytes =>
    obtain ⟨j, rfl⟩ := Nat.exists_eq_add_of_lt hi
    have hlength : ((PathView.mk [byte]).moveTo next).bytes.length = 1 := length_moveTo _ _
    rw [moveTo_cons, List.getElem?_append_right (by omega), hlength]
    simp

/-- The owned path moves along with the view. -/
theorem Sound.toPath_moveTo (h : v.Sound) (next : Header) (hfits : next.Fits) :
    (v.moveTo next).toPath =
      { v.toPath with currentInfo := next.currentInfo, currentHop := next.currentHop } := by
  have hsize := h.size_le
  have hinside (r : BitRange) (hr : r.stop ≤ 32) : r.Inside v.bytes := by
    change r.stop ≤ 8 * v.bytes.length
    exact Nat.le_trans hr (Nat.mul_le_mul_left 8 hsize)
  -- the index of the hop is written after that of the segment, over other bits
  have hinfo : (v.moveTo next).header.currentInfo = next.currentInfo := by
    apply UInt8.toBitVec_inj.mp
    change Header.Bits.currentInfo.get 8 (Header.Bits.currentHop.set _ _) = _
    rw [BitRange.get_set_of_disjoint (by decide) (by decide) (by decide)]
    exact BitRange.get_set (by decide) (hinside _ (by decide))
      (Header.getLsbD_of_toNat_lt hfits.currentInfo_lt)
  have hhop : (v.moveTo next).header.currentHop = next.currentHop := by
    apply UInt8.toBitVec_inj.mp
    exact BitRange.get_set (by decide) (BitRange.inside_set.mpr (hinside _ (by decide)))
      (Header.getLsbD_of_toNat_lt hfits.currentHop_lt)
  have hsegments := (h.sameRecords_moveTo next).segments_toPath h
  change Path.mk (v.moveTo next).header.currentInfo (v.moveTo next).header.currentHop
    (v.moveTo next).toPath.segments = _
  rw [hinfo, hhop, hsegments]

/-- A view that is moved to a position of its own lengths has the header of that position. -/
theorem Sound.header_moveTo (h : v.Sound) {next : Header} (hlengths : next.lengths = v.lengths)
    (hfits : next.Fits) : (v.moveTo next).header = next := by
  have hpath := h.toPath_moveTo next hfits
  have hsame : (v.moveTo next).lengths = next.lengths :=
    (h.sameRecords_moveTo next).lengths_eq.trans hlengths.symm
  have hinfo : (v.moveTo next).header.currentInfo = next.currentInfo :=
    congrArg Path.currentInfo hpath
  have hhop : (v.moveTo next).header.currentHop = next.currentHop :=
    congrArg Path.currentHop hpath
  calc (v.moveTo next).header
      = ⟨(v.moveTo next).header.currentInfo, (v.moveTo next).header.currentHop,
          (v.moveTo next).lengths⟩ := rfl
    _ = ⟨next.currentInfo, next.currentHop, next.lengths⟩ := by rw [hinfo, hhop, hsame]
    _ = next := rfl

/-- Moving a view without reserved bits gives a view without reserved bits. -/
theorem Sound.bytes_toPath_moveTo (h : v.Sound) (hclear : v.toPath.bytes = v.bytes)
    (next : Header) : (v.moveTo next).toPath.bytes = (v.moveTo next).bytes := by
  have hsame := h.sameRecords_moveTo next
  have hsound := hsame.sound h
  have hcount : (v.moveTo next).toPath.infoCount = v.toPath.infoCount :=
    congrArg List.length (hsame.segments_toPath h)
  apply Bytes.ext_bit hsound.length_bytes_toPath
  intro i _
  rw [Bool.eq_iff_iff, Path.bit_bytes_toPath hsound, hcount]
  simp only [and_iff_left_iff_imp]
  intro hbit hreserved
  -- no reserved bit lies in the first byte
  have hi : 0 < i / 8 := by
    rcases hreserved with hheader | ⟨s, -, hbyte⟩ <;> omega
  have hold : Bytes.bit v.bytes i = true := by
    rw [Bytes.bit, List.getD_eq_getElem?_getD, getElem?_moveTo v next hi] at hbit
    rwa [Bytes.bit, List.getD_eq_getElem?_getD]
  rw [← hclear, Path.bit_bytes_toPath h] at hold
  exact hold.2 hreserved

end Position

end PathView

end SourceRoute
